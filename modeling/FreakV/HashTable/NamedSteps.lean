import FreakV.HashTable.Names
import FreakV.HashTable.ShortMemory

namespace FreakV.NamedTable

open HashTable Threads

variable {hash : Bytes → BitVec 64} {p p' : NamedTable} {start : Option Nat} {lists : Slot → List Nat}
  {aside : List Bucket} {t t' : HashTable} {i n : Nat} {b : Bucket} {rest : List Nat}

theorem Models.resize (models : Models p start lists aside t) (pri : p'.pri = p.pri) (ovf : p'.ovf = p.ovf)
    (free : p'.ovfFree = p.ovfFree) (pool : p.ovfPoolCap ≤ p'.ovfPoolCap) (buckets : t'.buckets = t.buckets)
    (sizes : t'.sizes = p'.sizes) (count : t'.ovfFree = t.ovfFree) : Models p' start lists aside t' := by
  obtain ⟨⟨spread, path⟩, shows_⟩ := models
  have link : p'.link = p.link := by
    funext m
    rw [NamedTable.link, NamedTable.link, ovf]
  refine ⟨⟨spread.mono fun m inside => Nat.lt_of_lt_of_le inside pool, fun s => ?_⟩, fun i => ?_, ?_, sizes, ?_⟩
  · rw [link]
    cases s with
    | free =>
      have first := path .free
      simp only [head, free] at first ⊢
      exact first
    | hand => exact path .hand
    | chain j =>
      have first := path (.chain j)
      simp only [head, pri] at first ⊢
      exact first
  · rw [buckets, shows_.buckets, pri, ovf]
  · rw [shows_.aside, ovf]
  · rw [count, shows_.ovfFree]

section Unlink

def forget (p : NamedTable) : NamedTable := { p with used := p.used - 1 }

theorem Shows.used_eq (shows_ : Shows p lists aside t) : t.used = p.used := congrArg (·.2.2.1) shows_.sizes

theorem Shows.cap_eq (shows_ : Shows p lists aside t) : t.cap = p.cap := congrArg (·.1) shows_.sizes

theorem Shows.oldCap_eq (shows_ : Shows p lists aside t) : t.oldCap = p.oldCap := congrArg (·.2.1) shows_.sizes

theorem Shows.rehashIdx_eq (shows_ : Shows p lists aside t) : t.rehashIdx = p.rehashIdx := congrArg (·.2.2.2.1) shows_.sizes

theorem Shows.rehashDisabled_eq (shows_ : Shows p lists aside t) : t.rehashDisabled = p.rehashDisabled :=
  congrArg (·.2.2.2.2.1) shows_.sizes

theorem Shows.ovfPoolCap_eq (shows_ : Shows p lists aside t) : t.ovfPoolCap = p.ovfPoolCap :=
  congrArg (·.2.2.2.2.2) shows_.sizes

theorem Models.forget (models : Models p start lists aside t) :
    Models p.forget start lists aside { t with used := t.used - 1 } := by
  have shows_ := models.shows_
  refine models.resize rfl rfl rfl (Nat.le_refl _) rfl ?_ rfl
  simp only [HashTable.sizes, NamedTable.sizes, NamedTable.forget, shows_.used_eq, shows_.cap_eq, shows_.oldCap_eq,
    shows_.rehashIdx_eq, shows_.rehashDisabled_eq, shows_.ovfPoolCap_eq]

def unlinked (lists : Slot → List Nat) (f : Nat × Nat) : Slot → List Nat :=
  match lists (.chain f.1) with
  | [] => lists
  | n :: rest =>
    Function.update (Function.update lists (.chain f.1) ((n :: rest).eraseIdx (f.2 - 1))) .free
      ((n :: rest).getD (f.2 - 1) 0 :: lists .free)

theorem Models.unlink (models : Models p start lists aside t) {f : Nat × Nat} (within : f.2 ≤ (t.buckets f.1).next.length) :
    Models (p.bucketNodeUnlink f) start (unlinked lists f) aside (t.bucketNodeUnlink f) := by
  obtain ⟨i, place⟩ := f
  have base := models.forget
  have next := models.next_eq i
  have path := models.names.path (.chain i)
  rw [models.next_eq, List.length_map] at within
  cases chain : lists (.chain i) with
  | nil =>
    -- the primary bucket is alone
    rw [chain] at within path next
    obtain rfl : place = 0 := Nat.le_zero.1 within
    have alone : (p.pri i).next = none := path
    have emptied := base.setBucketAt (show (i, 0).2 ≤ _ from Nat.zero_le _) {}
    have result : p.bucketNodeUnlink (i, 0) = p.forget.setBucket (p.forget.refAt (i, 0)) {} := by
      simp only [bucketNodeUnlink, alone]
      rfl
    have target : t.bucketNodeUnlink (i, 0) = ({ t with used := t.used - 1 } : HashTable).setBucketAt (i, 0) {} := by
      simp only [HashTable.bucketNodeUnlink, HashTable.setBucketAt, next, List.map_nil]
    simp only [unlinked, chain]
    rw [result, target]
    exact emptied
  | cons m rest =>
    simp only [unlinked, chain]
    cases place with
    | zero =>
      rw [chain] at path next
      have split : lists (.chain i) = [] ++ m :: rest := chain
      have released := (base.takeOver chain).release (base.names.loose split rfl)
      have result : p.bucketNodeUnlink (i, 0) = (p.forget.setPri i (p.forget.ovf m)).ovfBucketRelease m := by
        simp only [bucketNodeUnlink, show (p.pri i).next = some m from path.1]
        rfl
      have target : t.bucketNodeUnlink (i, 0) = (({ t with used := t.used - 1 } : HashTable).setChain i
          { pri := (p.ovf m).bucket, next := rest.map fun m => (p.ovf m).bucket }).ovfBucketRelease := by
        rw [List.map_cons] at next
        simp only [HashTable.bucketNodeUnlink, next]
      rw [Function.update_of_ne (by simp)] at released
      rw [result, target]
      exact released
    | succ k =>
      have inside : k < (lists (.chain i)).length := within
      have length : ((lists (.chain i)).take k).length = k := by rw [List.length_take, Nat.min_eq_left inside.le]
      have split : lists (.chain i) = (lists (.chain i)).take k ++ (lists (.chain i))[k] :: (lists (.chain i)).drop (k + 1) := by
        rw [List.getElem_cons_drop, List.take_append_drop]
      have released := (base.bypass split).release (base.names.loose split rfl)
      have at_ : (p.chain i).getD k 0 = (lists (.chain i))[k] := by
        rw [models.names.chain_eq, List.getD_eq_getElem _ _ inside]
      have before : p.refAt (i, k) = lastOf i ((lists (.chain i)).take k) := models.names.refAt_eq inside.le
      have result : p.bucketNodeUnlink (i, k + 1) = (p.forget.setNext (lastOf i ((lists (.chain i)).take k))
          (p.forget.link (lists (.chain i))[k])).ovfBucketRelease (lists (.chain i))[k] := by
        rw [← before, ← at_]
        rfl
      have getD : (m :: rest).getD k 0 = (lists (.chain i))[k] := by
        rw [List.getD_eq_getElem _ _ (chain ▸ inside)]
        simp only [chain]
      rw [Function.update_of_ne (by simp), length] at released
      rw [result, Nat.add_sub_cancel, getD, List.eraseIdx_eq_take_drop_succ, ← chain]
      exact released

end Unlink

section Insert

def insertAt (p : NamedTable) (n : Nat) (last : Ref) (b : Bucket) : NamedTable :=
  ((p.popFree n).setOvf n { bucket := b, next := none }).setNext last (some n)

theorem Models.insertTop (models : Models p start lists aside t) (top : lists .free = n :: rest) (i : Nat) (b : Bucket) :
    Models (p.insertAt n (p.tail i) b) start (Function.update (Function.update lists .free rest) (.chain i) (lists (.chain i) ++ [n])) aside
      (({ t with ovfFree := t.ovfFree - 1 } : HashTable).setChain i { t.buckets i with next := (t.buckets i).next ++ [b] }) := by
  have split : lists .free = [] ++ n :: rest := top
  have filled := (models.popFree top).fill (models.names.loose split rfl) { bucket := b, next := none }
  have at_ : ((p.popFree n).setOvf n { bucket := b, next := none }).ovf n = { bucket := b, next := none } :=
    Function.update_self ..
  have hung := filled.hang (models.names.loose split rfl) (congrArg Node.next at_) i
  have chain : Function.update lists .free rest (.chain i) = lists (.chain i) := Function.update_of_ne (by simp) _ _
  rw [filled.names.tail_eq, chain, ← models.names.tail_eq, at_] at hung
  exact hung

theorem Models.releaseAll {ns : List Nat} (models : Models p start lists aside t) (nodup : ns.Nodup)
    (loose : ∀ n ∈ ns, Loose p lists n) :
    Models (ns.foldl ovfBucketRelease p) start (Function.update lists .free (ns.reverse ++ lists .free)) aside
      { t with ovfFree := t.ovfFree + ns.length } := by
  induction ns generalizing p lists t with
  | nil =>
    rw [List.reverse_nil, List.nil_append, Function.update_eq_self]
    exact models
  | cons n ns ih =>
    obtain ⟨first, others⟩ := List.nodup_cons.1 nodup
    have released := models.release (loose n List.mem_cons_self)
    have rest := ih released others fun m there => by
      refine ⟨(loose m (List.mem_cons_of_mem n there)).inside, fun s member => ?_⟩
      rw [mem_update] at member
      have absent := (loose m (List.mem_cons_of_mem n there)).absent
      split at member
      · rcases List.mem_cons.1 member with rfl | old
        · exact first there
        · exact absent _ old
      · exact absent _ member
    rw [Function.update_idem, Function.update_self] at rest
    have count : t.ovfFree + (n :: ns).length = t.ovfFree + 1 + ns.length := by rw [List.length_cons]; omega
    rw [List.reverse_cons, List.append_assoc, List.singleton_append, count]
    exact rest

theorem growPool_eq (p : NamedTable) (newCap : Nat) : p.growPool newCap =
    (List.range' p.ovfPoolCap (newCap - p.ovfPoolCap)).foldl ovfBucketRelease { p with ovfPoolCap := newCap } := by
  rw [growPool]
  generalize List.range' p.ovfPoolCap (newCap - p.ovfPoolCap) = ns
  induction ns generalizing p with
  | nil => rfl
  | cons n ns ih => exact ih (p.ovfBucketRelease n)

theorem Models.growPool (models : Models p start lists aside t) {newCap : Nat} (more : p.ovfPoolCap ≤ newCap) :
    Models (p.growPool newCap) start (Function.update lists .free
        ((List.range' p.ovfPoolCap (newCap - p.ovfPoolCap)).reverse ++ lists .free)) aside
      { t with ovfPoolCap := newCap, ovfFree := t.ovfFree + (newCap - p.ovfPoolCap) } := by
  have shows_ := models.shows_
  have widened : Models { p with ovfPoolCap := newCap } start lists aside { t with ovfPoolCap := newCap } := by
    refine models.resize rfl rfl rfl more rfl ?_ rfl
    simp only [HashTable.sizes, NamedTable.sizes, shows_.used_eq, shows_.cap_eq, shows_.oldCap_eq,
      shows_.rehashIdx_eq, shows_.rehashDisabled_eq]
  rw [growPool_eq]
  have grown := widened.releaseAll
    (show (List.range' p.ovfPoolCap (newCap - p.ovfPoolCap)).Nodup from List.nodup_range') fun n there => by
    rw [List.mem_range'_1] at there
    refine ⟨by change n < newCap; omega, fun s member => ?_⟩
    have := models.names.spread.inside member
    omega
  rw [List.length_range'] at grown
  exact grown

def Whole (p : NamedTable) (start : Option Nat) (aside : List Bucket) (t : HashTable) : Prop :=
  ∃ lists, Models p start lists aside t ∧ Covers (· < p.ovfPoolCap) lists

theorem Models.covers_growPool (covers : Covers (· < p.ovfPoolCap) lists) (newCap : Nat) : Covers (· < newCap)
    (Function.update lists .free ((List.range' p.ovfPoolCap (newCap - p.ovfPoolCap)).reverse ++ lists .free)) := by
  intro m inside
  by_cases old : m < p.ovfPoolCap
  · obtain ⟨s, there⟩ := covers m old
    refine ⟨s, mem_update.2 ?_⟩
    split
    next here => exact List.mem_append_right _ (here ▸ there)
    · exact there
  · refine ⟨.free, ?_⟩
    rw [Function.update_self, List.mem_append, List.mem_reverse, List.mem_range'_1]
    omega

theorem covers_insertTop {pool : Nat → Prop} (covers : Covers pool lists) (top : lists .free = n :: rest) (i : Nat) :
    Covers pool (Function.update (Function.update lists .free rest) (.chain i) (lists (.chain i) ++ [n])) := by
  have left (m : Nat) (there : m ∈ lists .free) : m = n ∨ m ∈ rest := by
    rw [top] at there
    exact List.mem_cons.1 there
  refine covers.move left fun m there => ?_
  rw [Function.update_of_ne (by simp)] at there
  rw [List.mem_append, List.mem_singleton]
  exact there.symm

def grownCap (p : NamedTable) : Nat := if p.ovfPoolCap = 0 then 16 else p.ovfPoolCap * 2

theorem lt_grownCap (p : NamedTable) : p.ovfPoolCap < p.grownCap := by
  rw [grownCap]
  split <;> omega

section Equations

variable (hash) (growth : PoolGrowth)

theorem chainNodeInsert_vacant (vacant : htMetaEmpty (p.pri i).bucket.word = true) :
    p.chainNodeInsert hash i b growth = (p.setBucket (.pri i) b, true) := by
  rw [NamedTable.chainNodeInsert, if_pos vacant]

theorem chainNodeInsert_top (occupied : htMetaEmpty (p.pri i).bucket.word = false) (top : p.ovfFree = some n) :
    p.chainNodeInsert hash i b growth = (p.insertAt n (p.tail i) b, true) := by
  rw [NamedTable.chainNodeInsert, if_neg (by simp [occupied])]
  simp only [NamedTable.ovfBucketAlloc, top]
  rfl

theorem chainNodeInsert_grown (occupied : htMetaEmpty (p.pri i).bucket.word = false) (top : p.ovfFree = none)
    (grows : growth.grows = true) (more : ((p.evict hash growth.victims).growPool p.grownCap).ovfFree = some n) :
    p.chainNodeInsert hash i b growth =
      (((p.evict hash growth.victims).growPool p.grownCap).insertAt n (p.tail i) b, true) := by
  rw [NamedTable.chainNodeInsert, if_neg (by simp [occupied])]
  rw [grownCap] at more ⊢
  simp only [NamedTable.ovfBucketAlloc, top, grows, if_true, more]
  rfl

theorem chainNodeInsert_refused (occupied : htMetaEmpty (p.pri i).bucket.word = false) (top : p.ovfFree = none)
    (refused : growth.grows = false) : p.chainNodeInsert hash i b growth = (p.evict hash growth.victims, false) := by
  rw [NamedTable.chainNodeInsert, if_neg (by simp [occupied])]
  simp only [NamedTable.ovfBucketAlloc, top, refused, Bool.false_eq_true, if_false]

end Equations

theorem grownFree_eq {newCap : Nat} (more : p.ovfPoolCap < newCap) (free : List Nat) :
    ∃ others, (List.range' p.ovfPoolCap (newCap - p.ovfPoolCap)).reverse ++ free = (newCap - 1) :: others := by
  obtain ⟨k, rfl⟩ := Nat.exists_eq_add_of_lt more
  refine ⟨(List.range' p.ovfPoolCap k).reverse ++ free, ?_⟩
  rw [show p.ovfPoolCap + k + 1 - p.ovfPoolCap = k + 1 by omega, List.range'_1_concat, List.reverse_append,
    List.reverse_singleton, List.append_assoc]
  rfl

section Counted

variable {grows : Bool}

theorem counted_insert_vacant (vacant : htMetaEmpty (t.buckets i).pri.word = true) :
    t.chainNodeInsert i b grows = some (t.setBucketAt (i, 0) b) := by
  rw [HashTable.chainNodeInsert, if_pos vacant]
  rfl

theorem counted_insert_top (occupied : htMetaEmpty (t.buckets i).pri.word = false) (free : t.ovfFree ≠ 0) :
    t.chainNodeInsert i b grows = some (({ t with ovfFree := t.ovfFree - 1 } : HashTable).setChain i
      { t.buckets i with next := (t.buckets i).next ++ [b] }) := by
  rw [HashTable.chainNodeInsert, if_neg (by simp [occupied]), HashTable.ovfBucketAlloc, if_neg free]
  rfl

theorem counted_insert_grown (occupied : htMetaEmpty (t.buckets i).pri.word = false) (free : t.ovfFree = 0)
    (pool : t.ovfPoolCap = p.ovfPoolCap) :
    t.chainNodeInsert i b true = some (({ t with ovfPoolCap := p.grownCap, ovfFree := p.grownCap - p.ovfPoolCap - 1 } :
      HashTable).setChain i { t.buckets i with next := (t.buckets i).next ++ [b] }) := by
  rw [HashTable.chainNodeInsert, if_neg (by simp [occupied]), HashTable.ovfBucketAlloc, if_pos free, grownCap, ← pool]
  rfl

theorem counted_insert_refused (occupied : htMetaEmpty (t.buckets i).pri.word = false) (free : t.ovfFree = 0) :
    t.chainNodeInsert i b false = none := by
  rw [HashTable.chainNodeInsert, if_neg (by simp [occupied]), HashTable.ovfBucketAlloc, if_pos free]
  rfl

end Counted

theorem Whole.chainNodeInsert (whole : Whole p start aside t) (i : Nat) (b : Bucket) (grows : Bool) :
    Whole (p.chainNodeInsert hash i b { grows := grows }).1 start aside ((t.chainNodeInsert i b grows).getD t) ∧
      (p.chainNodeInsert hash i b { grows := grows }).2 = (t.chainNodeInsert i b grows).isSome := by
  obtain ⟨lists, models, covers⟩ := whole
  have first := models.names.path .free
  have count := models.shows_.ovfFree
  have pri := models.pri_eq i
  cases vacant : htMetaEmpty (p.pri i).bucket.word with
  | true =>
    rw [chainNodeInsert_vacant hash _ vacant, counted_insert_vacant (pri ▸ vacant)]
    exact ⟨⟨lists, models.setBucketAt (show (i, 0).2 ≤ _ from Nat.zero_le _) b, covers⟩, rfl⟩
  | false =>
    have occupied : htMetaEmpty (t.buckets i).pri.word = false := pri ▸ vacant
    cases top : lists .free with
    | cons n rest =>
      rw [top] at first count
      rw [chainNodeInsert_top hash _ vacant first.1, counted_insert_top occupied (by simp [count])]
      exact ⟨⟨_, models.insertTop top i b, covers_insertTop covers top i⟩, rfl⟩
    | nil =>
      rw [top] at first count
      cases grows with
      | false =>
        rw [chainNodeInsert_refused hash _ vacant first rfl, counted_insert_refused occupied count]
        exact ⟨⟨lists, models, covers⟩, rfl⟩
      | true =>
        have grown := models.growPool p.lt_grownCap.le
        have coverage := Models.covers_growPool covers p.grownCap
        obtain ⟨others, onTop⟩ := grownFree_eq p.lt_grownCap (lists .free)
        rw [onTop] at grown coverage
        have path := grown.names.path .free
        rw [Function.update_self] at path
        have last : (p.growPool p.grownCap).tail i = p.tail i := by
          rw [grown.names.tail_eq, models.names.tail_eq, Function.update_of_ne (by simp)]
        have inserted := grown.insertTop (Function.update_self ..) i b
        rw [last, count, List.length_nil, Nat.zero_add] at inserted
        rw [chainNodeInsert_grown hash { grows := true } vacant first rfl path.1,
          counted_insert_grown occupied count models.shows_.ovfPoolCap_eq]
        exact ⟨⟨_, inserted, covers_insertTop coverage (Function.update_self ..) i⟩, rfl⟩

end Insert

section Rehash

theorem Whole.resize (whole : Whole p start aside t) (pri : p'.pri = p.pri) (ovf : p'.ovf = p.ovf)
    (free : p'.ovfFree = p.ovfFree) (pool : p'.ovfPoolCap = p.ovfPoolCap) (buckets : t'.buckets = t.buckets)
    (count : t'.ovfFree = t.ovfFree) (sizes : t.sizes = p.sizes → t'.sizes = p'.sizes) : Whole p' start aside t' := by
  obtain ⟨lists, models, covers⟩ := whole
  exact ⟨lists, models.resize pri ovf free pool.ge buckets (sizes models.shows_.sizes) count, by rw [pool]; exact covers⟩

theorem Whole.setBucket (whole : Whole p start aside t) (i : Nat) (b : Bucket) :
    Whole (p.setBucket (.pri i) b) start aside (t.setChain i { t.buckets i with pri := b }) := by
  obtain ⟨lists, models, covers⟩ := whole
  exact ⟨lists, models.setBucketAt (show (i, 0).2 ≤ _ from Nat.zero_le _) b, covers⟩

theorem Whole.pri_eq (whole : Whole p start aside t) (i : Nat) : (t.buckets i).pri = (p.pri i).bucket := by
  obtain ⟨lists, models, -⟩ := whole
  exact models.pri_eq i

theorem Whole.sizes (whole : Whole p start aside t) : t.sizes = p.sizes := by
  obtain ⟨lists, models, -⟩ := whole
  exact models.shows_.sizes

theorem Whole.relinkFirst (whole : Whole p start (b :: aside) t) :
    ∃ n, start = some n ∧ Whole ((p.setNext (.ovf n) none).relinkOverflow n) (p.link n) aside (t.relinkOverflow b) := by
  obtain ⟨lists, models, covers⟩ := whole
  have path := models.names.path .hand
  have contents := models.shows_.aside
  cases hand : lists .hand with
  | nil =>
    rw [hand] at contents
    cases contents
  | cons n rest =>
    rw [hand] at path contents
    refine ⟨n, path.1, ?_⟩
    have bucket : (p.ovf n).bucket = b := (List.cons.inj contents).1.symm
    have taken := models.takeHand hand
    have loose : Loose (p.setNext (.ovf n) none) (Function.update lists .hand rest) n :=
      models.names.loose (show lists .hand = [] ++ n :: rest from hand) rfl
    have left (m : Nat) (there : m ∈ lists .hand) : m = n ∨ m ∈ rest := by
      rw [hand] at there
      exact List.mem_cons.1 there
    have same : ((p.setNext (.ovf n) none).ovf n).bucket = b := (setNext_ovf_bucket ..).trans bucket
    have cap : (p.setNext (.ovf n) none).cap = t.cap := models.shows_.cap_eq.symm
    simp only [NamedTable.relinkOverflow, HashTable.relinkOverflow, same, cap, ← taken.pri_eq]
    split
    · refine ⟨_, (taken.setBucketAt (show (bucketIdx b.word t.cap, 0).2 ≤ _ from Nat.zero_le _) b).release
        ⟨loose.inside, loose.absent⟩, covers.move left fun m there => ?_⟩
      exact List.mem_cons.2 there
    · have ends : (p.setNext (.ovf n) none).link n = none := by rw [setNext_link, if_pos rfl]
      have hung := taken.hang loose ends (bucketIdx b.word t.cap)
      rw [same] at hung
      refine ⟨_, hung, covers.move left fun m there => ?_⟩
      rw [List.mem_append, List.mem_singleton]
      exact there.symm

theorem Whole.aside_length (whole : Whole p start aside t) : aside.length ≤ p.ovfPoolCap := by
  obtain ⟨lists, models, -⟩ := whole
  rw [models.shows_.aside, List.length_map]
  exact models.names.length_le .hand

theorem Whole.relinkChain {fuel : Nat} (whole : Whole p start aside t) (enough : aside.length ≤ fuel) :
    Whole (relinkChain fuel start p) none [] (aside.foldl HashTable.relinkOverflow t) := by
  induction aside generalizing p start t fuel with
  | nil =>
    obtain ⟨lists, models, covers⟩ := whole
    have path := models.names.path .hand
    have empty : lists .hand = [] := List.map_eq_nil_iff.1 models.shows_.aside.symm
    rw [empty] at path
    obtain rfl : start = none := path
    have done : NamedTable.relinkChain fuel none p = p := by cases fuel <;> rfl
    rw [done]
    exact ⟨lists, models, covers⟩
  | cons b aside ih =>
    obtain ⟨fuel, rfl⟩ : ∃ k, fuel = k + 1 := Nat.exists_eq_succ_of_ne_zero (by simp at enough; omega)
    obtain ⟨n, rfl, relinked⟩ := whole.relinkFirst
    have rest := ih relinked (show aside.length ≤ fuel by simpa using enough)
    exact rest

theorem Whole.movePrimary (whole : Whole p start aside t) {i newIdx : Nat} (grows : Bool) :
    Whole (p.movePrimary hash i newIdx { grows := grows }) start aside
      (t.movePrimary i newIdx (t.buckets i).pri grows) := by
  simp only [NamedTable.movePrimary, HashTable.movePrimary, whole.pri_eq]
  refine Whole.setBucket ?_ i {}
  split
  · exact whole.setBucket newIdx _
  · exact (whole.chainNodeInsert newIdx _ grows).1

theorem Whole.detach (whole : Whole p none [] t) (i : Nat) :
    Whole (p.setNext (.pri i) none) (p.pri i).next (t.buckets i).next (t.setChain i { t.buckets i with next := [] }) := by
  obtain ⟨lists, models, covers⟩ := whole
  have idle : lists .hand = [] := List.map_eq_nil_iff.1 models.shows_.aside.symm
  exact ⟨_, models.detach idle i, covers.exchange (.chain i) .hand⟩

def setAside (p : NamedTable) (i : Nat) : NamedTable :=
  ({ p with rehashIdx := some (i + 1) } : NamedTable).setNext (.pri i) none

def primaryPlaced (hash : Bytes → BitVec 64) (p : NamedTable) (i : Nat) (growth : PoolGrowth) : NamedTable :=
  if bucketIdx (p.pri i).bucket.word p.cap = i then p.setAside i
  else (p.setAside i).movePrimary hash i (bucketIdx (p.pri i).bucket.word p.cap) growth

theorem rehashBucket_vacant {growth : PoolGrowth} (vacant : htMetaEmpty (p.pri i).bucket.word = true) :
    p.rehashBucket hash i growth = { p with rehashIdx := some (i + 1) } := by
  rw [NamedTable.rehashBucket]
  exact if_pos vacant

theorem rehashBucket_placed {growth : PoolGrowth} (occupied : htMetaEmpty (p.pri i).bucket.word = false) :
    p.rehashBucket hash i growth =
      relinkChain (p.primaryPlaced hash i growth).ovfPoolCap (p.pri i).next (p.primaryPlaced hash i growth) := by
  have bucket : ((p.setAside i).pri i).bucket = (p.pri i).bucket := setNext_pri_bucket ..
  rw [primaryPlaced, ← bucket, NamedTable.rehashBucket]
  exact if_neg (by simp [occupied])

theorem Whole.nextRound (whole : Whole p start aside t) (i : Nat) :
    Whole { p with rehashIdx := some (i + 1) } start aside (t.nextRound i) := by
  refine whole.resize rfl rfl rfl rfl rfl rfl fun same => ?_
  simp only [HashTable.sizes, NamedTable.sizes, Prod.mk.injEq] at same ⊢
  obtain ⟨cap, oldCap, used, -, disabled, pool⟩ := same
  exact ⟨cap, oldCap, used, rfl, disabled, pool⟩

theorem Whole.setAside (whole : Whole p none [] t) (i : Nat) :
    Whole (p.setAside i) (p.pri i).next (t.buckets i).next (t.setAside i) := (whole.nextRound i).detach i

theorem Whole.rehashBucket (whole : Whole p none [] t) (i : Nat) (grows : Bool) :
    Whole (p.rehashBucket hash i { grows := grows }) none [] (t.rehashBucket i grows) := by
  have pri := whole.pri_eq i
  have cap : t.cap = p.cap := congrArg (·.1) whole.sizes
  cases vacant : htMetaEmpty (p.pri i).bucket.word with
  | true =>
    rw [rehashBucket_vacant vacant, rehashBucket_empty (pri ▸ vacant)]
    exact whole.nextRound i
  | false =>
    have aside := whole.setAside i
    have same : ((t.setAside i).buckets i).pri = (t.buckets i).pri := by
      rw [show (t.setAside i).buckets i = { (t.buckets i) with next := [] } from Function.update_self ..]
    have placed : Whole (p.primaryPlaced hash i { grows := grows }) (p.pri i).next (t.buckets i).next
        (if bucketIdx (t.buckets i).pri.word t.cap = i then t.setAside i
          else (t.setAside i).movePrimary i (bucketIdx (t.buckets i).pri.word t.cap) (t.buckets i).pri grows) := by
      rw [primaryPlaced, ← pri, ← cap]
      split
      · exact aside
      · rw [← same]
        exact aside.movePrimary grows
    rw [rehashBucket_placed vacant, rehashBucket_occupied (by simp [pri, vacant])]
    exact placed.relinkChain placed.aside_length

variable {growth : Nat → PoolGrowth}

theorem Whole.rehashBuckets (whole : Whole p none [] t) (quiet : ∀ i, (growth i).victims = []) (steps : Nat) :
    Whole (p.rehashBuckets hash growth steps) none []
      (HashTable.rehashBuckets (fun i => (growth i).grows) steps t) := by
  induction steps generalizing p t with
  | zero => exact whole
  | succ steps ih =>
    have idx : t.rehashIdx = p.rehashIdx := congrArg (·.2.2.2.1) whole.sizes
    have old : t.oldCap = p.oldCap := congrArg (·.2.1) whole.sizes
    rw [NamedTable.rehashBuckets, HashTable.rehashBuckets, idx, old]
    cases p.rehashIdx with
    | none => exact whole
    | some i =>
      have only : growth i = { grows := (growth i).grows } := by rw [← quiet i]
      by_cases inside : i < p.oldCap
      · simp only [inside, if_true]
        have round : Whole (p.rehashBucket hash i { grows := (growth i).grows }) none [] _ :=
          whole.rehashBucket i (growth i).grows
        rw [← only] at round
        exact ih round
      · simp only [inside, if_false]
        exact whole

theorem Whole.rehashTick (whole : Whole p none [] t) (quiet : ∀ i, (growth i).victims = []) :
    Whole (p.rehashTick hash growth) none [] (t.rehashTick fun i => (growth i).grows) := by
  have worked : Whole (p.rehashBuckets hash growth htRehashStep) none [] _ := whole.rehashBuckets quiet htRehashStep
  rw [NamedTable.rehashTick, HashTable.rehashTick]
  generalize p.rehashBuckets hash growth htRehashStep = p at worked
  generalize HashTable.rehashBuckets (fun i => (growth i).grows) htRehashStep t = t at worked
  have idx : t.rehashIdx = p.rehashIdx := congrArg (·.2.2.2.1) worked.sizes
  have old : t.oldCap = p.oldCap := congrArg (·.2.1) worked.sizes
  simp only [idx, old]
  cases p.rehashIdx with
  | none => exact worked
  | some i =>
    by_cases last : p.oldCap ≤ i
    · simp only [last, if_true]
      refine worked.resize rfl rfl rfl rfl rfl rfl fun same => ?_
      simp only [HashTable.sizes, NamedTable.sizes, Prod.mk.injEq] at same ⊢
      obtain ⟨cap, -, used, -, rest⟩ := same
      exact ⟨cap, trivial, used, trivial, rest⟩
    · simp only [last, if_false]
      exact worked

theorem Whole.rehashStart (whole : Whole p none [] t) (grows : Bool) :
    Whole (p.rehashStart grows) none [] (t.rehashStart grows) := by
  have cap : t.cap = p.cap := congrArg (·.1) whole.sizes
  simp only [NamedTable.rehashStart, HashTable.rehashStart, cap]
  split
  · refine whole.resize rfl rfl rfl rfl rfl rfl fun same => ?_
    simp only [HashTable.sizes, NamedTable.sizes, Prod.mk.injEq] at same ⊢
    obtain ⟨-, -, used, -, rest⟩ := same
    exact ⟨trivial, trivial, used, trivial, rest⟩
  · refine whole.resize rfl rfl rfl rfl rfl rfl fun same => ?_
    simp only [HashTable.sizes, NamedTable.sizes, Prod.mk.injEq] at same ⊢
    obtain ⟨-, oldCap, used, idx, -, pool⟩ := same
    exact ⟨trivial, oldCap, used, idx, trivial, pool⟩

end Rehash

end FreakV.NamedTable
