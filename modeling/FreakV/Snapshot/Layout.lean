import FreakV.Snapshot.Heap

namespace FreakV.Snapshot.Shard

-- Spans are short enough for the 16 bits of offset_in_span.
theorem poolClasses_bounds : ∀ objSize ∈ poolClasses, 0 < objSize ∧ poolLpagesCalculate objSize ≤ 1024 := by decide

structure SpanAt (s : Shard) (span : SpanInfo) : Prop where
  size : span.objSize ∈ poolClasses
  pages : ∀ i < poolLpagesCalculate span.objSize, s.pages (span.headLpage + i) =
    { span := some span, spanSize := poolLpagesCalculate span.objSize, offsetInSpan := i }
  inside : span.headLpage + poolLpagesCalculate span.objSize ≤ s.nrPages

structure LargeAt (s : Shard) (head n : Nat) : Prop where
  some : 0 < n
  pages : ∀ i < n, s.pages (head + i) = { spanSize := n, offsetInSpan := i % 2 ^ 16 }
  inside : head + n ≤ s.nrPages

inductive Located (s : Shard) (ptr objSize : Nat) : Prop
  | slot {span : SpanInfo} {i : Nat} (place : SpanAt s span) (idx : i < objsPerSpan span.objSize)
      (addr : ptr = spanAddr span i) (size : objSize = span.objSize)
  | pages {head n : Nat} (place : LargeAt s head n) (addr : ptr = head * lpageSize)

def sizeAt (s : Shard) (ptr : Nat) : Nat := markSize (totalSize (s.obj ptr).keyLen (s.obj ptr).valLen)

structure Layout (s : Shard) : Prop where
  spans : ∀ l span, (s.pages l).span = some span →
    SpanAt s span ∧ span.headLpage ≤ l ∧ l < span.headLpage + poolLpagesCalculate span.objSize
  located : ∀ ptr, s.used ptr = true → Located s ptr (s.sizeAt ptr)
  -- the offsets in a very large span are not enough to tell two of them apart
  apart : ∀ head n head' n', s.used (head * lpageSize) = true → s.used (head' * lpageSize) = true → LargeAt s head n →
    LargeAt s head' n' → head < head' → head + n ≤ head'
  beyond : ∀ l, s.nrPages ≤ l → s.pages l = {}
  few : s.nrPages ≤ 2 ^ 20

def pos (s : Shard) (ptr : Nat) : Pos :=
  match (s.pages (ptr / lpageSize)).span with
  | some span => (ptr / lpageSize, (ptrToPageSlot s.pages ptr span.objSize).getD 0)
  | none => (ptr / lpageSize, 0)

variable {s t : Shard} {ptr objSize : Nat} {span : SpanInfo} {i head n : Nat}

theorem SpanAt.positive (place : SpanAt s span) : 0 < span.objSize := (poolClasses_bounds _ place.size).1

theorem SpanAt.page (place : SpanAt s span) (idx : i < objsPerSpan span.objSize) :
    s.pages (spanAddr span i / lpageSize) =
      { span := some span, spanSize := poolLpagesCalculate span.objSize, offsetInSpan := i * span.objSize / lpageSize } ∧
    spanAddr span i / lpageSize < s.nrPages := by
  have whole : i * span.objSize < poolLpagesCalculate span.objSize * lpageSize := by
    have less := (Nat.le_div_iff_mul_le place.positive).1 (Nat.succ_le_of_lt idx)
    have positive := place.positive
    rw [Nat.succ_mul] at less
    omega
  have off : i * span.objSize / lpageSize < poolLpagesCalculate span.objSize :=
    Nat.div_lt_of_lt_mul (by rwa [Nat.mul_comm lpageSize])
  have inside := place.inside
  rw [spanAddr_div]
  exact ⟨place.pages _ off, by omega⟩

theorem SpanAt.pos (place : SpanAt s span) (idx : i < objsPerSpan span.objSize) :
    s.pos (spanAddr span i) = (spanAddr span i / lpageSize, pageSlot span.objSize i) := by
  obtain ⟨page, -⟩ := place.page idx
  have slot := ptrToPageSlot_spanAddr place.positive (by rw [page] : (s.pages (spanAddr span i / lpageSize)).offsetInSpan = _)
  simp only [Shard.pos, page, slot, Option.getD_some]

theorem LargeAt.page (place : LargeAt s head n) :
    s.pages (head * lpageSize / lpageSize) = { spanSize := n, offsetInSpan := 0 } ∧ head < s.nrPages := by
  have inside := place.inside
  have some := place.some
  rw [Nat.mul_div_cancel _ (by decide)]
  exact ⟨place.pages 0 some, by omega⟩

theorem SpanAt.not_large (place : SpanAt s span) (idx : i < objsPerSpan span.objSize) (large : LargeAt s head n) :
    spanAddr span i ≠ head * lpageSize := by
  intro same
  have page := (place.page idx).1
  rw [same, large.page.1] at page
  simp at page

theorem LargeAt.pos (place : LargeAt s head n) : s.pos (head * lpageSize) = (head, 0) := by
  rw [Shard.pos, place.page.1]
  simp only [Nat.mul_div_cancel _ (show 0 < lpageSize by decide)]

theorem pos_fst (s : Shard) (ptr : Nat) : (s.pos ptr).1 = ptr / lpageSize := by
  rw [Shard.pos]
  split <;> rfl

theorem Located.inside (located : Located s ptr objSize) : ptr / lpageSize < s.nrPages := by
  cases located with
  | slot place idx addr size => exact addr ▸ (place.page idx).2
  | pages place addr =>
    rw [addr, Nat.mul_div_cancel _ (by decide)]
    exact place.page.2

theorem Located.slotAddr (located : Located s ptr objSize) : ∃ size off slots,
    slotsInPage (s.pages (s.pos ptr).1) = some (size, off, slots) ∧
      (s.pos ptr).1 * lpageSize + (off + (s.pos ptr).2 * size) = ptr := by
  cases located with
  | slot place idx addr size =>
    subst addr
    obtain ⟨page, -⟩ := place.page idx
    obtain ⟨slots, -⟩ := pageSlot_lt_iff place.positive (congrArg PageInfo.span page) (congrArg PageInfo.offsetInSpan page)
    rw [place.pos idx]
    refine ⟨_, _, _, slots, ?_⟩
    rw [page]
    exact spanAddr_eq place.positive _
  | @pages head n place addr =>
    subst addr
    have positive := place.some
    rw [place.pos]
    refine ⟨0, 0, 1, ?_, by simp⟩
    rw [show s.pages head = _ from place.pages 0 positive, slotsInPage]
    simp [Nat.ne_of_gt positive]

theorem Located.pos_inj {ptr' objSize' : Nat} (located : Located s ptr objSize) (located' : Located s ptr' objSize')
    (same : s.pos ptr = s.pos ptr') : ptr = ptr' := by
  obtain ⟨size, off, slots, geometry, addr⟩ := located.slotAddr
  obtain ⟨size', off', slots', geometry', addr'⟩ := located'.slotAddr
  rw [same, geometry', Option.some.injEq, Prod.mk.injEq, Prod.mk.injEq] at geometry
  rw [← addr, ← addr', same, geometry.1, geometry.2.1]

theorem Layout.lpage_eq (layout : Layout s) (used : s.used ptr = true) : ptrLpageIdx ptr = ptr / lpageSize :=
  ptrLpageIdx_eq (Nat.lt_of_lt_of_le (layout.located ptr used).inside layout.few)

section Frames

structure Keeps (s t : Shard) : Prop where
  pages : ∀ l, s.pages l ≠ {} → t.pages l = s.pages l
  nrPages : s.nrPages ≤ t.nrPages

theorem Keeps.spanAt (keeps : Keeps s t) (place : SpanAt s span) : SpanAt t span :=
  ⟨place.size, fun i below => (keeps.pages _ (by simp [place.pages i below])).trans (place.pages i below),
    le_trans place.inside keeps.nrPages⟩

theorem Keeps.largeAt (keeps : Keeps s t) (place : LargeAt s head n) : LargeAt t head n := by
  have positive := place.some
  refine ⟨positive, fun i below => ?_, le_trans place.inside keeps.nrPages⟩
  refine (keeps.pages _ ?_).trans (place.pages i below)
  rw [place.pages i below]
  simp [Nat.ne_of_gt positive]

theorem Keeps.located (keeps : Keeps s t) (located : Located s ptr objSize) : Located t ptr objSize := by
  cases located with
  | slot place idx addr size => exact .slot (keeps.spanAt place) idx addr size
  | pages place addr => exact .pages (keeps.largeAt place) addr

theorem Located.page_taken (located : Located s ptr objSize) : s.pages (ptr / lpageSize) ≠ {} := by
  cases located with
  | slot place idx addr size => simp [addr, (place.page idx).1]
  | pages place addr => simp [addr, place.page.1, Nat.ne_of_gt place.some]

theorem pos_congr (same : t.pages (ptr / lpageSize) = s.pages (ptr / lpageSize)) : t.pos ptr = s.pos ptr := by
  simp only [Shard.pos, ptrToPageSlot, same]

theorem Keeps.pos (keeps : Keeps s t) (located : Located s ptr objSize) : t.pos ptr = s.pos ptr :=
  pos_congr (keeps.pages _ located.page_taken)

theorem Layout.congr (layout : Layout s) (pages : t.pages = s.pages) (nrPages : t.nrPages = s.nrPages)
    (used : t.used = s.used) (size : ∀ ptr, t.sizeAt ptr = s.sizeAt ptr) : Layout t := by
  have keeps : Keeps s t := ⟨fun l _ => by rw [pages], Nat.le_of_eq nrPages.symm⟩
  have back : Keeps t s := ⟨fun l _ => by rw [pages], Nat.le_of_eq nrPages⟩
  refine ⟨?_, ?_, ?_, ?_, nrPages ▸ layout.few⟩
  · intro l span found
    rw [pages] at found
    exact ⟨keeps.spanAt (layout.spans l span found).1, (layout.spans l span found).2⟩
  · intro ptr taken
    rw [used] at taken
    rw [size]
    exact keeps.located (layout.located ptr taken)
  · intro head n head' n' first second place place' less
    rw [used] at first second
    exact layout.apart head n head' n' first second (back.largeAt place) (back.largeAt place') less
  · intro l beyond
    rw [nrPages] at beyond
    rw [pages, layout.beyond l beyond]

end Frames

section Allocation

theorem setPages_pages (s : Shard) (head n : Nat) (info : Nat → PageInfo) (l : Nat) :
    (s.setPages head n info).pages l = if head ≤ l ∧ l < head + n then info (l - head) else s.pages l := rfl

theorem FreePages.keeps (free : s.FreePages head n) (info : Nat → PageInfo) : Keeps s (s.setPages head n info) := by
  refine ⟨fun l taken => ?_, Nat.le_refl _⟩
  rw [setPages_pages, if_neg]
  rintro ⟨from_, below⟩
  have empty := (free (l - head) (by omega)).1
  rw [Nat.add_sub_cancel' from_] at empty
  exact taken empty

theorem FreePages.inside (free : s.FreePages head n) (positive : 0 < n) : head + n ≤ s.nrPages := by
  have last := (free (n - 1) (by omega)).2
  omega

theorem poolLpagesCalculate_pos (objSize : Nat) : 0 < poolLpagesCalculate objSize := by
  unfold poolLpagesCalculate
  simp only
  split
  · exact Nat.one_pos
  next some => exact Nat.pos_of_ne_zero some

theorem Layout.large_back (layout : Layout s) (keeps : Keeps s t) (used : s.used (head * lpageSize) = true)
    (place : LargeAt t head n) : LargeAt s head n := by
  cases layout.located _ used with
  | slot place' idx addr size => exact absurd addr.symm ((keeps.spanAt place').not_large idx place)
  | @pages head' n' place' addr =>
    have heads : head = head' := Nat.eq_of_mul_eq_mul_right (by decide) addr
    subst heads
    have page := (keeps.largeAt place').page.1
    rw [place.page.1, PageInfo.mk.injEq] at page
    rw [page.2.1]
    exact place'

theorem LargeAt.taken (place : LargeAt s head n) {l : Nat} (above : head ≤ l) (below : l < head + n) :
    s.pages l ≠ {} := by
  have page := place.pages (l - head) (by omega)
  rw [Nat.add_sub_cancel' above] at page
  simp [page, Nat.ne_of_gt place.some]

theorem Layout.poolSpanInit (layout : Layout s) (done : s.poolSpanInit span = some t) : Layout t ∧ Keeps s t := by
  unfold Shard.poolSpanInit at done
  simp only at done
  split at done
  next legal =>
    obtain ⟨size, free⟩ := legal
    cases done
    have few := (poolClasses_bounds _ size).2
    have inside := free.inside (poolLpagesCalculate_pos _)
    have keeps := free.keeps fun i =>
      { span := some span, spanSize := poolLpagesCalculate span.objSize, offsetInSpan := i % 2 ^ 16 }
    refine ⟨⟨?_, ?_, ?_, ?_, layout.few⟩, keeps⟩
    · intro l span' found
      rw [setPages_pages] at found
      split at found
      next within =>
        cases found
        refine ⟨⟨size, fun i below => ?_, inside⟩, within⟩
        rw [setPages_pages, if_pos (by omega), Nat.add_sub_cancel_left, Nat.mod_eq_of_lt (by omega)]
      · exact ⟨keeps.spanAt (layout.spans l span' found).1, (layout.spans l span' found).2⟩
    · exact fun ptr used => keeps.located (layout.located ptr used)
    · intro head n head' n' first second place place' less
      exact layout.apart _ _ _ _ first second (layout.large_back keeps first place)
        (layout.large_back keeps second place') less
    · intro l beyond
      rw [setPages_pages, if_neg]
      · exact layout.beyond l beyond
      · have start : s.nrPages ≤ l := beyond
        omega
  · cases done

theorem markSize_of_class {size : Nat} (small : size ≤ smallAllocMax) (found : poolClass size = some objSize) :
    markSize size = objSize := by
  rw [markSize, if_pos small, found, Option.getD_some]

theorem Layout.add (layout : Layout s) (keeps : Keeps s t) (ptr : Nat)
    (spans : ∀ l span, (t.pages l).span = some span →
      SpanAt t span ∧ span.headLpage ≤ l ∧ l < span.headLpage + poolLpagesCalculate span.objSize)
    (beyond : ∀ l, t.nrPages ≤ l → t.pages l = {}) (few : t.nrPages ≤ 2 ^ 20)
    (used : ∀ q, q ≠ ptr → t.used q = s.used q) (obj : ∀ q, q ≠ ptr → t.obj q = s.obj q)
    (new : Located t ptr (t.sizeAt ptr))
    (apart : ∀ head n, ptr = head * lpageSize → LargeAt t head n → ∀ head' n', LargeAt s head' n' →
      (head < head' → head + n ≤ head') ∧ (head' < head → head' + n' ≤ head)) : Layout t := by
  refine ⟨spans, fun q taken => ?_, ?_, beyond, few⟩
  · by_cases here : q = ptr
    · exact here ▸ new
    · rw [used q here] at taken
      rw [show t.sizeAt q = s.sizeAt q by rw [sizeAt, sizeAt, obj q here]]
      exact keeps.located (layout.located q taken)
  · intro head n head' n' first second place place' less
    have differ : head * lpageSize ≠ head' * lpageSize := fun same =>
      Nat.ne_of_lt less (Nat.eq_of_mul_eq_mul_right (by decide) same)
    by_cases here : head * lpageSize = ptr
    · rw [used _ fun same => differ (here.trans same.symm)] at second
      exact (apart head n here.symm place head' n' (layout.large_back keeps second place')).1 less
    · rw [used _ here] at first
      have old := layout.large_back keeps first place
      by_cases there : head' * lpageSize = ptr
      · exact (apart head' n' there.symm place' head n old).2 less
      · rw [used _ there] at second
        exact layout.apart _ _ _ _ first second old (layout.large_back keeps second place') less

def withObj (s : Shard) (ptr : Nat) (o : KvObj) : Shard :=
  { s with used := Function.update s.used ptr true, obj := Function.update s.obj ptr o }

theorem withObj_keeps (s : Shard) (ptr : Nat) (o : KvObj) : Keeps s (s.withObj ptr o) := ⟨fun _ _ => rfl, Nat.le_refl _⟩

theorem Layout.withObj_slot (layout : Layout s) {o : KvObj} (page : (s.pages span.headLpage).span = some span)
    (idx : i < objsPerSpan span.objSize) (size : markSize (totalSize o.keyLen o.valLen) = span.objSize) :
    Layout (s.withObj (spanAddr span i) o) := by
  have keeps := withObj_keeps s (spanAddr span i) o
  have place := keeps.spanAt (layout.spans _ _ page).1
  refine layout.add keeps (spanAddr span i) ?_ layout.beyond layout.few ?_ ?_ (.slot place idx rfl ?_) ?_
  · exact fun l span' found => ⟨keeps.spanAt (layout.spans l span' found).1, (layout.spans l span' found).2⟩
  · exact fun q elsewhere => Function.update_of_ne elsewhere _ _
  · exact fun q elsewhere => Function.update_of_ne elsewhere _ _
  · simpa only [sizeAt, withObj, Function.update_self] using size
  · exact fun head n here large => absurd here (place.not_large idx large)

def withLarge (s : Shard) (head n : Nat) (o : KvObj) : Shard :=
  (s.setPages head n fun i => { spanSize := n, offsetInSpan := i % 2 ^ 16 }).withObj (head * lpageSize) o

theorem FreePages.withLarge_keeps (free : s.FreePages head n) (o : KvObj) : Keeps s (s.withLarge head n o) := by
  have keeps := free.keeps fun i => { spanSize := n, offsetInSpan := i % 2 ^ 16 }
  exact ⟨keeps.pages, keeps.nrPages⟩

theorem FreePages.withLarge_place (free : s.FreePages head n) (positive : 0 < n) (o : KvObj) :
    LargeAt (s.withLarge head n o) head n := by
  refine ⟨positive, fun i below => ?_, free.inside positive⟩
  simp only [withLarge, withObj, setPages_pages]
  rw [if_pos (by omega), Nat.add_sub_cancel_left]

theorem Layout.withLarge (layout : Layout s) (o : KvObj) (positive : 0 < n) (free : s.FreePages head n) :
    Layout (s.withLarge head n o) := by
  have inside := free.inside positive
  have keeps := free.withLarge_keeps o
  have place := free.withLarge_place positive o
  refine layout.add keeps (head * lpageSize) ?_ ?_ layout.few ?_ ?_ (.pages place rfl) ?_
  · intro l span found
    simp only [Shard.withLarge, withObj, setPages_pages] at found
    split at found
    · cases found
    · exact ⟨keeps.spanAt (layout.spans l span found).1, (layout.spans l span found).2⟩
  · intro l beyond
    have beyond : s.nrPages ≤ l := beyond
    simp only [Shard.withLarge, withObj, setPages_pages]
    rw [if_neg (by omega), layout.beyond l beyond]
  · exact fun q elsewhere => Function.update_of_ne elsewhere _ _
  · exact fun q elsewhere => Function.update_of_ne elsewhere _ _
  · intro head₁ n₁ here large head' n' place'
    have heads : head = head₁ := Nat.eq_of_mul_eq_mul_right (by decide) here
    subst heads
    have sizes : n = n₁ := by
      have page := place.page.1
      rw [large.page.1, PageInfo.mk.injEq] at page
      exact page.2.1.symm
    subst sizes
    -- no page of the other one was free
    constructor
    · intro less
      by_contra overlap
      have empty := (free (head' - head) (by omega)).1
      rw [Nat.add_sub_cancel' (Nat.le_of_lt less)] at empty
      exact place'.taken (Nat.le_refl _) (Nat.lt_add_of_pos_right place'.some) empty
    · intro less
      by_contra overlap
      exact place'.taken (Nat.le_of_lt less) (by omega) (free 0 positive).1

theorem Layout.drop (layout : Layout s) (back : Keeps t s) (nrPages : t.nrPages = s.nrPages)
    (used : ∀ q, t.used q = true → s.used q = true) (obj : t.obj = s.obj)
    (spans : ∀ l span, (t.pages l).span = some span → SpanAt s span → SpanAt t span)
    (located : ∀ q, t.used q = true → Located s q (s.sizeAt q) → Located t q (s.sizeAt q)) : Layout t := by
  refine ⟨fun l span found => ?_, fun q taken => ?_, ?_, fun l beyond => ?_, nrPages ▸ layout.few⟩
  · have same := back.pages l (by intro none; simp [none] at found)
    obtain ⟨place, within⟩ := layout.spans l span (same ▸ found)
    exact ⟨spans l span found place, within⟩
  · rw [show t.sizeAt q = s.sizeAt q by rw [sizeAt, sizeAt, obj]]
    exact located q taken (layout.located q (used q taken))
  · intro head n head' n' first second place place' less
    exact layout.apart _ _ _ _ (used _ first) (used _ second) (back.largeAt place) (back.largeAt place') less
  · by_contra taken
    rw [nrPages] at beyond
    exact taken ((back.pages l taken).symm.trans (layout.beyond l beyond))

theorem clear_keeps (s : Shard) (head n : Nat) : Keeps (s.setPages head n fun _ => {}) s := by
  refine ⟨fun l taken => ?_, Nat.le_refl _⟩
  rw [setPages_pages] at taken ⊢
  split at taken
  · exact absurd rfl taken
  next outside => rw [if_neg outside]

theorem SpanAt.clear (place : SpanAt s span)
    (apart : ∀ l, head ≤ l → l < head + n → (s.pages l).span ≠ some span) :
    SpanAt (s.setPages head n fun _ => {}) span := by
  refine ⟨place.size, fun i below => ?_, place.inside⟩
  rw [setPages_pages, if_neg]
  · exact place.pages i below
  · rintro ⟨above, below'⟩
    exact apart _ above below' (by rw [place.pages i below])

theorem LargeAt.clear {head' n' : Nat} (place : LargeAt s head' n')
    (apart : ∀ l, head ≤ l → l < head + n → l < head' ∨ head' + n' ≤ l) :
    LargeAt (s.setPages head n fun _ => {}) head' n' := by
  refine ⟨place.some, fun i below => ?_, place.inside⟩
  rw [setPages_pages, if_neg]
  · exact place.pages i below
  · rintro ⟨above, below'⟩
    have := apart _ above below'
    omega

theorem Layout.poolSpanReclaim (layout : Layout s) (done : s.poolSpanReclaim span = some t) : Layout t ∧ Keeps t s := by
  unfold Shard.poolSpanReclaim at done
  split at done
  next legal =>
    obtain ⟨page, empty⟩ := legal
    cases done
    have back := clear_keeps s span.headLpage (poolLpagesCalculate span.objSize)
    have place := (layout.spans _ _ page).1
    have inSpan : ∀ l, span.headLpage ≤ l → l < span.headLpage + poolLpagesCalculate span.objSize →
        (s.pages l).span = some span := by
      intro l above below
      have info := place.pages (l - span.headLpage) (by omega)
      rw [Nat.add_sub_cancel' above] at info
      rw [info]
    have others {span' : SpanInfo} (differ : span' ≠ span) : ∀ l, span.headLpage ≤ l →
        l < span.headLpage + poolLpagesCalculate span.objSize → (s.pages l).span ≠ some span' := by
      intro l above below same
      rw [inSpan l above below] at same
      exact differ (Option.some.inj same).symm
    refine ⟨layout.drop back rfl (fun q taken => taken) rfl (fun l span' found place' => ?_) fun q taken located => ?_,
      back⟩
    · refine place'.clear (others ?_)
      rintro rfl
      have same := back.pages l (by intro none; simp [none] at found)
      obtain ⟨-, above, below⟩ := layout.spans l span' (same ▸ found)
      rw [setPages_pages, if_pos ⟨above, below⟩] at found
      cases found
    · cases located with
      | @slot span' i place' idx addr size =>
        refine .slot (place'.clear (others ?_)) idx addr size
        rintro rfl
        have free := empty i idx
        rw [← addr, show s.used q = true from taken] at free
        cases free
      | @pages head n large addr =>
        refine .pages (large.clear fun l above below => ?_) addr
        by_contra inside
        have info := large.pages (l - head) (by omega)
        rw [Nat.add_sub_cancel' (by omega)] at info
        have span' := inSpan l above below
        rw [info] at span'
        cases span'
  · cases done

theorem withoutObj_keeps (s : Shard) (used : Nat → Bool) : Keeps s { s with used := used } :=
  ⟨fun _ _ => rfl, Nat.le_refl _⟩

theorem Layout.memFree (layout : Layout s) (done : s.memFree ptr = some t) : Layout t ∧ Keeps t s := by
  unfold Shard.memFree at done
  split at done
  next legal =>
    obtain ⟨taken, -⟩ := legal
    simp only [layout.lpage_eq taken] at done
    have fewer : ∀ q, Function.update s.used ptr false q = true → q ≠ ptr ∧ s.used q = true := by
      intro q used
      by_cases here : q = ptr
      · rw [here, Function.update_self] at used
        cases used
      · rw [Function.update_of_ne here] at used
        exact ⟨here, used⟩
    have keeps := withoutObj_keeps s (Function.update s.used ptr false)
    have back : Keeps { s with used := Function.update s.used ptr false } s := ⟨fun _ _ => rfl, Nat.le_refl _⟩
    cases layout.located ptr taken with
    | slot place idx addr size =>
      have page := (place.page idx).1
      rw [← addr] at page
      simp only [page, if_neg (Option.some_ne_none _)] at done
      cases done
      exact ⟨layout.drop back rfl (fun q used => (fewer q used).2) rfl (fun _ _ _ place => keeps.spanAt place)
        fun q used located => keeps.located located, back⟩
    | @pages head n place addr =>
      have page := place.page.1
      rw [← addr] at page
      simp only [page, if_pos trivial] at done
      rw [addr, Nat.mul_div_cancel _ (by decide), ← addr] at done
      cases done
      have none : ∀ l, head ≤ l → l < head + n → (s.pages l).span = Option.none := by
        intro l above below
        have info := place.pages (l - head) (by omega)
        rw [Nat.add_sub_cancel' above] at info
        rw [info]
      have cleared := clear_keeps { s with used := Function.update s.used ptr false } head n
      refine ⟨layout.drop ⟨cleared.pages, cleared.nrPages⟩ rfl (fun q used => (fewer q used).2) rfl
        (fun l span found place' => ?_) fun q used located => ?_, ⟨cleared.pages, cleared.nrPages⟩⟩
      · exact (keeps.spanAt place').clear fun l above below => by simp [none l above below]
      · cases located with
        | slot place' idx addr' size =>
          exact .slot ((keeps.spanAt place').clear fun l above below => by simp [none l above below]) idx addr' size
        | @pages head' n' place' addr' =>
          refine .pages ((keeps.largeAt place').clear fun l above below => ?_) addr'
          obtain ⟨differ, used⟩ := fewer q used
          rw [addr'] at used
          rw [addr] at taken
          rcases Nat.lt_trichotomy head head' with less | same | less
          · have := layout.apart _ _ _ _ taken used place place' less
            omega
          · rw [addr, addr', same] at differ
            exact absurd rfl differ
          · have := layout.apart _ _ _ _ used taken place' place less
            omega
  · cases done

-- mem_data_grow: the new pages are free.
theorem Layout.grow (layout : Layout s) {more : Nat} (few : s.nrPages + more ≤ 2 ^ 20) :
    Layout { s with nrPages := s.nrPages + more } := by
  have keeps : Keeps s { s with nrPages := s.nrPages + more } := ⟨fun _ _ => rfl, Nat.le_add_right _ _⟩
  refine ⟨fun l span found => ?_, fun q taken => keeps.located (layout.located q taken), ?_, fun l beyond => ?_, few⟩
  · exact ⟨keeps.spanAt (layout.spans l span found).1, (layout.spans l span found).2⟩
  · intro head n head' n' first second place place' less
    exact layout.apart _ _ _ _ first second (layout.large_back keeps first place)
      (layout.large_back keeps second place') less
  · have beyond : s.nrPages + more ≤ l := beyond
    exact layout.beyond l (by omega)

end Allocation

end FreakV.Snapshot.Shard
