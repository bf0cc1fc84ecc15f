import FreakV.HashTable.NamedSteps

namespace FreakV.NamedTable

open HashTable

section Operations

variable (hash : Bytes → BitVec 64)

def bucketDelete (p : NamedTable) (key : Bytes) : NamedTable × Bool :=
  match p.lookupKey hash key with
  | none => (p, false)
  | some f => (p.bucketNodeUnlink f, true)

def step (p : NamedTable) (g : PutGrowth) : Op → NamedTable × Result
  | .put obj expire flags load =>
    let (p, r) := p.bucketPut hash obj.obj expire flags { g with load := load }
    (p, .put r)
  | .get key now => (p, .obj (p.counted.bucketGet hash key now))
  | .getLazy key now =>
    let (p, live, stale) := p.bucketGetLazy hash key now
    (p, .expired live stale)
  | .take key =>
    let (p, o) := p.bucketTake hash key
    (p, .obj o)
  | .takeIfUnlocked key expected =>
    let (p, o, lockedOut) := p.bucketTakeIfUnlocked hash key expected
    (p, .taken o lockedOut)
  | .delete key =>
    let (p, b) := p.bucketDelete hash key
    (p, .bool b)
  | .setLockStatus key locked =>
    let (p, b) := p.bucketSetLockStatus hash key locked
    (p, .bool b)
  | .isLocked key => (p, .bool (p.counted.bucketIsLocked hash key))
  | .expireGet key => (p, .expire (p.counted.expireGet hash key))

def run (p : NamedTable) : List Op → NamedTable × List Result
  | [] => (p, [])
  | op :: ops =>
    let (p, r) := p.step hash {} op
    let (p, rs) := p.run ops
    (p, r :: rs)

end Operations

end FreakV.NamedTable

namespace FreakV.HashTable

section Operations

variable (hash : Bytes → BitVec 64)

theorem lookup_place {t : HashTable} {key : Bytes} {f : Nat × Nat} (found : t.lookupKey hash key = some f) :
    f.2 ≤ (t.buckets f.1).next.length := by
  have chain (i : Nat) (found : (chainNodeFind (t.buckets i) (metaFor hash key) key).map (fun place => (i, place)) = some f) :
      f.2 ≤ (t.buckets f.1).next.length := by
    obtain ⟨place, at_place, rfl⟩ := Option.map_eq_some_iff.1 found
    obtain ⟨inside, -⟩ := List.findIdx?_eq_some_iff_getElem.1 at_place
    exact Nat.lt_succ_iff.1 inside
  unfold lookupKey keyLookup at found
  simp only at found
  split at found
  · exact chain _ found
  · split at found
    · exact chain _ found
    · split at found
      next old => exact chain _ (old.trans found)
      · exact chain _ found

end Operations

end FreakV.HashTable

namespace FreakV.NamedTable

open HashTable Linked Threads

section Steps

variable {hash : Bytes → BitVec 64} {p : NamedTable} {t : HashTable} {g : PutGrowth}

structure PutGrowth.Quiet (g : PutGrowth) : Prop where
  ticks : ∀ i, (g.ticks i).victims = []
  insert : g.insert.victims = []

theorem Whole.counted_eq (whole : Whole p none [] t) : p.counted = t := by
  obtain ⟨lists, models, -⟩ := whole
  exact models.counted_eq

theorem Whole.lookup_eq (whole : Whole p none [] t) (key : Bytes) : p.lookupKey hash key = t.lookupKey hash key := by
  rw [NamedTable.lookupKey, whole.counted_eq]

theorem Whole.bucketAt_eq (whole : Whole p none [] t) {key : Bytes} {f : Nat × Nat} (found : t.lookupKey hash key = some f) :
    p.bucketAt f = t.bucketAt f := by
  obtain ⟨lists, models, -⟩ := whole
  exact models.bucketAt_eq (lookup_place hash found)

theorem Whole.setBucketAt (whole : Whole p none [] t) {key : Bytes} {f : Nat × Nat} (found : t.lookupKey hash key = some f)
    (b : Bucket) : Whole (p.setBucket (p.refAt f) b) none [] (t.setBucketAt f b) := by
  obtain ⟨lists, models, covers⟩ := whole
  exact ⟨lists, models.setBucketAt (lookup_place hash found) b, covers⟩

theorem covers_unlinked {pool : Nat → Prop} {lists : Slot → List Nat} (covers : Covers pool lists) (f : Nat × Nat)
    (within : f.2 ≤ (lists (.chain f.1)).length) : Covers pool (unlinked lists f) := by
  unfold unlinked
  split
  · exact covers
  next n rest chain =>
    rw [chain] at within
    have inside : f.2 - 1 < (n :: rest).length := by simp at within ⊢; omega
    have left (m : Nat) (there : m ∈ lists (.chain f.1)) :
        m = (n :: rest).getD (f.2 - 1) 0 ∨ m ∈ (n :: rest).eraseIdx (f.2 - 1) := by
      rw [chain] at there
      rw [List.getD_eq_getElem _ _ inside]
      exact List.mem_cons.1 ((List.getElem_cons_eraseIdx_perm inside).mem_iff.2 there)
    refine covers.move left fun m there => ?_
    rw [Function.update_of_ne (by simp)] at there
    exact List.mem_cons.2 there

theorem Whole.unlink (whole : Whole p none [] t) {key : Bytes} {f : Nat × Nat} (found : t.lookupKey hash key = some f) :
    Whole (p.bucketNodeUnlink f) none [] (t.bucketNodeUnlink f) := by
  obtain ⟨lists, models, covers⟩ := whole
  have within := lookup_place hash found
  have unlinked := models.unlink within
  have pool : (p.bucketNodeUnlink f).ovfPoolCap = p.ovfPoolCap := by
    rw [← unlinked.shows_.ovfPoolCap_eq, ← models.shows_.ovfPoolCap_eq]
    obtain ⟨i, place⟩ := f
    cases place with
    | zero =>
      simp only [HashTable.bucketNodeUnlink]
      split <;> rfl
    | succ k => rfl
  rw [models.next_eq, List.length_map] at within
  exact ⟨_, unlinked, by rw [pool]; exact covers_unlinked covers f within⟩

theorem Whole.putPrepare (whole : Whole p none [] t) (quiet : ∀ i, (g.ticks i).victims = []) : Whole (p.putPrepare hash g) none []
    (t.putPrepare g.grants) := by
  have idx : t.rehashIdx = p.rehashIdx := congrArg (·.2.2.2.1) whole.sizes
  have ticked : Whole (if p.rehashIdx.isSome then p.rehashTick hash g.ticks else p) none []
      (if t.rehashIdx.isSome then t.rehashTick g.grants.ticks else t) := by
    rw [idx]
    split
    · exact whole.rehashTick quiet
    · exact whole
  rw [NamedTable.putPrepare, HashTable.putPrepare]
  generalize (if p.rehashIdx.isSome then p.rehashTick hash g.ticks else p) = p at ticked ⊢
  generalize (if t.rehashIdx.isSome then t.rehashTick g.grants.ticks else t) = t at ticked ⊢
  have idx : t.rehashIdx = p.rehashIdx := congrArg (·.2.2.2.1) ticked.sizes
  have disabled : t.rehashDisabled = p.rehashDisabled := congrArg (·.2.2.2.2.1) ticked.sizes
  simp only [idx, disabled, PutGrowth.grants]
  split
  · exact ticked.rehashStart g.tableGrows
  · exact ticked

theorem Whole.remember (whole : Whole p none [] t) :
    Whole { p with used := p.used + 1 } none [] { t with used := t.used + 1 } := by
  refine whole.resize rfl rfl rfl rfl rfl rfl fun same => ?_
  simp only [HashTable.sizes, NamedTable.sizes, Prod.mk.injEq] at same ⊢
  obtain ⟨cap, oldCap, used, rest⟩ := same
  exact ⟨cap, oldCap, congrArg (· + 1) used, rest⟩

theorem Whole.putInto (whole : Whole p none [] t) (obj : RawObj) (expire : Nat) (flags : PutFlags) (grows : Bool) :
    Whole (p.putInto hash obj expire flags { grows := grows }).1 none [] (t.putInto hash obj expire flags grows).1 ∧
      (p.putInto hash obj expire flags { grows := grows }).2 = (t.putInto hash obj expire flags grows).2 := by
  have cap : p.cap = t.cap := (congrArg (·.1) whole.sizes).symm
  simp only [NamedTable.putInto, HashTable.putInto, whole.lookup_eq, cap]
  split
  · exact ⟨whole, rfl⟩
  · cases found : t.lookupKey hash obj.objKeyGet with
    | some f =>
      exact ⟨whole.setBucketAt found _, congrArg (fun b : Bucket => PutResult.replaced b.obj) (whole.bucketAt_eq found)⟩
    | none =>
      dsimp only
      generalize bucketIdx (metaFor hash obj.objKeyGet) t.cap = idx
      generalize ({ word := metaFor hash obj.objKeyGet, expire := expire, obj := some obj } : Bucket) = b
      have inserted : Whole (p.chainNodeInsert hash idx b { grows := grows }).1 none [] _ :=
        (whole.chainNodeInsert idx b grows).1
      have same : (p.chainNodeInsert hash idx b { grows := grows }).2 = _ := (whole.chainNodeInsert idx b grows).2
      generalize t.chainNodeInsert idx b grows = result at inserted same ⊢
      generalize p.chainNodeInsert hash idx b { grows := grows } = outcome at inserted same ⊢
      obtain ⟨p', done⟩ := outcome
      cases result with
      | none =>
        obtain rfl : done = false := same
        exact ⟨inserted, rfl⟩
      | some t' =>
        obtain rfl : done = true := same
        exact ⟨inserted.remember, rfl⟩

theorem Whole.step (whole : Whole p none [] t) (quiet : g.Quiet) (op : Op) :
    Whole (p.step hash g op).1 none [] (t.step hash g.grants op).1 ∧ (p.step hash g op).2 = (t.step hash g.grants op).2 := by
  cases op with
  | put obj expire flags load =>
    have prepared : Whole (p.putPrepare hash { g with load := load }) none [] _ :=
      whole.putPrepare quiet.ticks
    have only : g.insert = { grows := g.insert.grows } := by rw [← quiet.insert]
    have done : Whole (NamedTable.putInto hash _ obj.obj expire flags _).1 none [] _ ∧ _ :=
      prepared.putInto obj.obj expire flags g.insert.grows
    rw [← only] at done
    exact ⟨done.1, congrArg Result.put done.2⟩
  | get key now => exact ⟨whole, by rw [NamedTable.step, whole.counted_eq]; rfl⟩
  | getLazy key now =>
    simp only [NamedTable.step, HashTable.step, NamedTable.bucketGetLazy, HashTable.bucketGetLazy, whole.lookup_eq]
    cases found : t.lookupKey hash key with
    | none => exact ⟨whole, rfl⟩
    | some f =>
      simp only [whole.bucketAt_eq found]
      split
      · exact ⟨whole, rfl⟩
      · split
        · exact ⟨whole, rfl⟩
        · exact ⟨whole.unlink found, rfl⟩
  | take key =>
    simp only [NamedTable.step, HashTable.step, NamedTable.bucketTake, HashTable.bucketTake, whole.lookup_eq]
    cases found : t.lookupKey hash key with
    | none => exact ⟨whole, rfl⟩
    | some f => exact ⟨whole.unlink found, by simp only [whole.bucketAt_eq found]⟩
  | takeIfUnlocked key expected =>
    simp only [NamedTable.step, HashTable.step, NamedTable.bucketTakeIfUnlocked, HashTable.bucketTakeIfUnlocked,
      whole.lookup_eq]
    cases found : t.lookupKey hash key with
    | none => exact ⟨whole, rfl⟩
    | some f =>
      simp only [whole.bucketAt_eq found]
      split
      · exact ⟨whole, rfl⟩
      · split
        · exact ⟨whole, rfl⟩
        · exact ⟨whole.unlink found, rfl⟩
  | delete key =>
    simp only [NamedTable.step, HashTable.step, NamedTable.bucketDelete, HashTable.bucketDelete, whole.lookup_eq]
    cases found : t.lookupKey hash key with
    | none => exact ⟨whole, rfl⟩
    | some f => exact ⟨whole.unlink found, rfl⟩
  | setLockStatus key locked =>
    simp only [NamedTable.step, HashTable.step, NamedTable.bucketSetLockStatus, HashTable.bucketSetLockStatus,
      whole.lookup_eq]
    cases found : t.lookupKey hash key with
    | none => exact ⟨whole, rfl⟩
    | some f =>
      simp only [whole.bucketAt_eq found]
      exact ⟨whole.setBucketAt found _, trivial⟩
  | isLocked key => exact ⟨whole, by rw [NamedTable.step, whole.counted_eq]; rfl⟩
  | expireGet key => exact ⟨whole, by rw [NamedTable.step, whole.counted_eq]; rfl⟩

theorem Whole.run (whole : Whole p none [] t) (ops : List Op) :
    Whole (p.run hash ops).1 none [] (t.run hash ops).1 ∧ (p.run hash ops).2 = (t.run hash ops).2 := by
  induction ops generalizing p t with
  | nil => exact ⟨whole, rfl⟩
  | cons op ops ih =>
    have one : Whole (p.step hash {} op).1 none [] (t.step hash {} op).1 ∧ (p.step hash {} op).2 = (t.step hash {} op).2 :=
      whole.step ⟨fun _ => rfl, rfl⟩ op
    obtain ⟨rest, results⟩ := ih one.1
    exact ⟨rest, congrArg₂ List.cons one.2 results⟩

end Steps

section Create

theorem path_inOrder {link : Nat → Option Nat} {size : Nat} (next : ∀ n, link n = if n + 1 < size then some (n + 1) else none)
    (count : Nat) {first : Nat} (sum : first + count = size) :
    Path link (if first < size then some first else none) (List.range' first count) none := by
  induction count generalizing first with
  | zero => exact if_neg (by omega)
  | succ count ih =>
    rw [List.range'_succ]
    refine ⟨if_pos (by omega), ?_⟩
    rw [next]
    exact ih (by omega)

theorem Whole.newTable (cap : Nat) : Whole (NamedTable.newTable cap) none [] (HashTable.newTable cap) := by
  have atLeast (size : Nat) : 0 < if size < 16 then 16 else size := by split <;> omega
  have positive : 0 < (NamedTable.newTable cap).ovfPoolCap := atLeast _
  have next (n : Nat) : (NamedTable.newTable cap).link n =
      if n + 1 < (NamedTable.newTable cap).ovfPoolCap then some (n + 1) else none := rfl
  have path : Path (NamedTable.newTable cap).link (some 0)
      (List.range' 0 (NamedTable.newTable cap).ovfPoolCap) none := by
    have ordered := path_inOrder next (NamedTable.newTable cap).ovfPoolCap (Nat.zero_add _)
    rwa [if_pos positive] at ordered
  let lists : Slot → List Nat
    | .free => List.range' 0 (NamedTable.newTable cap).ovfPoolCap
    | _ => []
  have only {n : Nat} {s : Slot} (there : n ∈ lists s) : s = .free ∧ n < (NamedTable.newTable cap).ovfPoolCap := by
    cases s with
    | free => exact ⟨rfl, by simpa [lists] using there⟩
    | hand => cases there
    | chain i => cases there
  refine ⟨lists, ⟨⟨⟨fun s => ?_, fun first second => (only first).1.trans (only second).1.symm, fun there => (only there).2⟩,
    fun s => ?_⟩, fun i => rfl, rfl, rfl, ?_⟩, fun n inside => ⟨.free, ?_⟩⟩
  · cases s with
    | free => exact List.nodup_range'
    | hand => exact List.nodup_nil
    | chain i => exact List.nodup_nil
  · cases s with
    | free => exact path
    | hand => rfl
    | chain i => rfl
  · exact List.length_range'.symm
  · simpa [lists] using inside

theorem Whole.tableCreate {initialCap : BitVec 64} {p : NamedTable} (created : NamedTable.tableCreate initialCap = some p) :
    ∃ t, HashTable.tableCreate initialCap = some t ∧ Whole p none [] t := by
  simp only [NamedTable.tableCreate, Option.ite_none_right_eq_some, Option.some.injEq] at created
  obtain ⟨grown, rfl⟩ := created
  exact ⟨_, if_pos grown, .newTable _⟩

theorem named_refines_keyMap (hash : Bytes → BitVec 64) {initialCap : BitVec 64} (small : initialCap.toNat ≤ 2 ^ 58)
    {p : NamedTable} (created : NamedTable.tableCreate initialCap = some p) (ops : List Op) :
    let q := p.run hash ops
    q.2 = (KeyMap.empty.run ops).2 ∧ (∀ n < q.1.ovfPoolCap, n ∈ q.1.freeList ↔ ∀ i, n ∉ q.1.chain i) ∧
      ∀ n i j, n ∈ q.1.chain i → n ∈ q.1.chain j → i = j := by
  obtain ⟨t, counted, whole⟩ := Whole.tableCreate created
  obtain ⟨inv, empty⟩ := Inv.tableCreate hash small counted
  obtain ⟨⟨lists, ⟨names, shows_⟩, covers⟩, same⟩ : Whole _ none [] (t.run hash ops).1 ∧ _ := whole.run ops
  refine ⟨same.trans (inv.run_represents empty ops).1, fun n inside => ?_, fun n i j first second => ?_⟩
  · simp only [names.chain_eq, names.freeList_eq]
    refine ⟨fun free i there => Slot.noConfusion (names.spread.apart free there), fun unused => ?_⟩
    obtain ⟨s, there⟩ := covers n inside
    cases s with
    | free => exact there
    | hand => rw [List.map_eq_nil_iff.1 shows_.aside.symm] at there; cases there
    | chain i => exact absurd there (unused i)
  · rw [names.chain_eq] at first second
    exact Slot.chain.inj (names.spread.apart first second)

theorem named_refines_keyMap_crowd : NamedTable.tableCreate 16 = some (newTable 16) ∧
    ((newTable 16).run firstByte crowd).2 = (KeyMap.empty.run crowd).2 ∧
    ∀ n < ((newTable 16).run firstByte crowd).1.ovfPoolCap, n ∈ ((newTable 16).run firstByte crowd).1.freeList ↔
      ∀ i, n ∉ ((newTable 16).run firstByte crowd).1.chain i := by
  have created : NamedTable.tableCreate 16 = some (newTable 16) := rfl
  have refined := named_refines_keyMap firstByte (by decide) created crowd
  exact ⟨created, refined.1, refined.2.1⟩

end Create

end FreakV.NamedTable
