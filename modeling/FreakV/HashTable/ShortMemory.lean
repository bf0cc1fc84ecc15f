import FreakV.HashTable.Refinement

namespace FreakV.HashTable

def RoundGranted (t : HashTable) (i : Nat) (grows : Bool) : Prop :=
  htMetaEmpty (t.buckets i).pri.word = true ∨ bucketIdx (t.buckets i).pri.word t.cap = i ∨
    htMetaEmpty (t.buckets (bucketIdx (t.buckets i).pri.word t.cap)).pri.word = true ∨ t.ovfFree ≠ 0 ∨ grows = true

instance (t : HashTable) (i : Nat) (grows : Bool) : Decidable (t.RoundGranted i grows) :=
  inferInstanceAs (Decidable (_ ∨ _ ∨ _ ∨ _ ∨ _))

def Granted (grows : Nat → Bool) : Nat → HashTable → Prop
  | 0, _ => True
  | steps + 1, t =>
    match t.rehashIdx with
    | none => True
    | some i =>
      if i < t.oldCap then t.RoundGranted i (grows i) ∧ Granted grows steps (t.rehashBucket i (grows i)) else True

def lookupEntry (hash : Bytes → BitVec 64) (t : HashTable) (key : Bytes) : Option Entry :=
  (t.lookupKey hash key).bind fun f => (t.bucketAt f).entry

def findable (hash : Bytes → BitVec 64) (t : HashTable) : Set (Bytes × Entry) :=
  { p | p.1.length ≤ 65535 ∧ t.lookupEntry hash p.1 = some p.2 }

variable {hash : Bytes → BitVec 64} {t : HashTable} {i : Nat} {grows : Bool}

section Round

def setAside (t : HashTable) (i : Nat) : HashTable := (t.nextRound i).setChain i { (t.buckets i) with next := [] }

theorem rehashBucket_empty (empty : htMetaEmpty (t.buckets i).pri.word = true) : t.rehashBucket i grows = t.nextRound i := by
  unfold rehashBucket
  exact if_pos empty

theorem rehashBucket_occupied (occupied : ¬htMetaEmpty (t.buckets i).pri.word = true) : t.rehashBucket i grows =
    (t.buckets i).next.foldl relinkOverflow
      (if bucketIdx (t.buckets i).pri.word t.cap = i then t.setAside i
        else (t.setAside i).movePrimary i (bucketIdx (t.buckets i).pri.word t.cap) (t.buckets i).pri grows) := by
  unfold rehashBucket
  exact if_neg occupied

theorem setAside_other {j : Nat} (other : j ≠ i) : (t.setAside i).buckets j = t.buckets j :=
  Function.update_of_ne other _ _

theorem rehashBucket_granted (granted : t.RoundGranted i grows) : t.rehashBucket i grows = t.rehashBucket i true := by
  by_cases empty : htMetaEmpty (t.buckets i).pri.word = true
  · rw [rehashBucket_empty empty, rehashBucket_empty empty]
  · rw [rehashBucket_occupied empty, rehashBucket_occupied empty]
    split
    · rfl
    next away =>
      unfold movePrimary
      rw [setAside_other away]
      rcases granted with gone | here | vacant | free | rfl
      · exact absurd gone empty
      · exact absurd here away
      · simp only [vacant, if_true]
      · have free : (t.setAside i).ovfFree ≠ 0 := free
        simp only [chainNodeInsert, ovfBucketAlloc, free, if_false]
      · rfl

theorem rehashBucket_refused (refused : ¬t.RoundGranted i grows) :
    htMetaEmpty (t.buckets i).pri.word = false ∧
    t.rehashBucket i grows = (t.buckets i).next.foldl relinkOverflow ((t.setChain i {}).nextRound i) := by
  simp only [RoundGranted, not_or, not_not, Bool.not_eq_true] at refused
  obtain ⟨occupied, away, taken, none_, rfl⟩ := refused
  refine ⟨occupied, ?_⟩
  rw [rehashBucket_occupied (by simp [occupied]), if_neg away]
  congr 1
  have failed : (t.setAside i).chainNodeInsert (bucketIdx (t.buckets i).pri.word t.cap) (t.buckets i).pri false = none := by
    have none_ : (t.setAside i).ovfFree = 0 := none_
    simp only [chainNodeInsert, setAside_other away, taken, ovfBucketAlloc, none_, if_true, if_false, Option.map_none,
      Bool.false_eq_true]
  unfold movePrimary
  simp only [setAside_other away, taken, failed, Bool.false_eq_true, if_false, Option.getD_none]
  have emptied : ({ (t.setAside i).buckets i with pri := {} } : Chain) = {} := by
    rw [show (t.setAside i).buckets i = { (t.buckets i) with next := [] } from Function.update_self ..]
  rw [emptied]
  simp only [setAside, setChain, nextRound, Function.update_idem]

variable {t' : HashTable}

structure Moved (hash : Bytes → BitVec 64) (t t' : HashTable) (lost : List Bucket) : Prop where
  shape : Shape hash t'
  perm : (t'.content ++ lost).Perm t.content
  used : t'.used = t.used

theorem Moved.refl (shape : Shape hash t) : Moved hash t t [] := ⟨shape, by simp, rfl⟩

theorem Moved.trans {t'' : HashTable} {first second : List Bucket} (left : Moved hash t t' first)
    (right : Moved hash t' t'' second) : Moved hash t t'' (second ++ first) := by
  refine ⟨right.shape, ?_, right.used.trans left.used⟩
  rw [← List.append_assoc]
  exact (right.perm.append_right first).trans left.perm

theorem Shape.round_granted (shape : Shape hash t) (round : t.rehashIdx = some i) (inside : i < t.oldCap)
    (granted : t.RoundGranted i grows) : Moved hash t (t.rehashBucket i grows) [] := by
  have holding : Holding hash t.content t.used t [] := ⟨shape, by simp, by simp, rfl⟩
  rw [rehashBucket_granted granted]
  have moved := holding.rehashBucket round inside
  exact ⟨moved.shape, moved.perm, moved.used_eq⟩

theorem Shape.round_refused (shape : Shape hash t) (round : t.rehashIdx = some i) (inside : i < t.oldCap)
    (refused : ¬t.RoundGranted i grows) : Moved hash t (t.rehashBucket i grows) [(t.buckets i).pri] := by
  have holding : Holding hash t.content t.used t [] := ⟨shape, by simp, by simp, rfl⟩
  obtain ⟨occupied, result⟩ := rehashBucket_refused refused
  have taken := holding.takeChain round inside
  rw [Chain.live_of_occupied occupied] at taken
  have rest : Holding hash (((t.setChain i {}).nextRound i).content ++ (t.buckets i).next) t.used
      ((t.setChain i {}).nextRound i) (t.buckets i).next :=
    ⟨taken.shape, fun b member => taken.hand_sound b (List.mem_cons_of_mem _ member), .refl _, taken.used_eq⟩
  have moved := rest.relinkAll
  rw [result]
  refine ⟨moved.shape, ?_, moved.used_eq⟩
  have perm := moved.perm
  rw [List.append_nil] at perm
  refine (perm.append_right _).trans (List.Perm.trans ?_ taken.perm)
  rw [List.append_assoc]
  exact List.Perm.append_left _ List.perm_append_comm

end Round

section Tick

variable {steps : Nat}

theorem Shape.rounds (shape : Shape hash t) (grows : Nat → Bool) (steps : Nat) :
    ∃ lost, Moved hash t (rehashBuckets grows steps t) lost ∧ (lost = [] ↔ Granted grows steps t) := by
  induction steps generalizing t with
  | zero => exact ⟨[], .refl shape, by simp [Granted]⟩
  | succ steps ih =>
    cases round : t.rehashIdx with
    | none =>
      simp only [rehashBuckets, Granted, round]
      exact ⟨[], .refl shape, by simp⟩
    | some i =>
      by_cases inside : i < t.oldCap
      · simp only [rehashBuckets, Granted, round, inside, if_true]
        by_cases granted : t.RoundGranted i (grows i)
        · have first := shape.round_granted round inside granted
          obtain ⟨lost, later, none_⟩ := ih first.shape
          refine ⟨lost, ?_, by simp [granted, none_]⟩
          simpa using first.trans later
        · have first := shape.round_refused round inside granted
          obtain ⟨lost, later, -⟩ := ih first.shape
          exact ⟨_, first.trans later, by simp [granted]⟩
      · simp only [rehashBuckets, Granted, round, inside, if_false]
        exact ⟨[], .refl shape, by simp⟩

theorem Shape.tick (shape : Shape hash t) (grows : Nat → Bool) :
    ∃ lost, Moved hash t (t.rehashTick grows) lost ∧ (lost = [] ↔ Granted grows htRehashStep t) := by
  obtain ⟨lost, moved, none_⟩ := shape.rounds grows htRehashStep
  refine ⟨lost, ?_, none_⟩
  unfold rehashTick
  generalize rehashBuckets grows htRehashStep t = t' at moved
  simp only
  split
  · exact moved
  next r round =>
    split
    next last => exact ⟨moved.shape.finish round last, moved.perm, moved.used⟩
    · exact moved

end Tick

section Lookups

variable {key : Bytes}

theorem Inv.lookupEntry_eq_view (inv : Inv hash t) (short : key.length ≤ 65535) :
    t.lookupEntry hash key = t.view key := by
  rcases inv.lookup_cases ⟨key, short⟩ with ⟨missing, view⟩ | ⟨f, o, found, place, obj, view⟩
  · rw [lookupEntry, missing, view]
    rfl
  · rw [lookupEntry, found, view]
    simp [Bucket.entry, obj]

theorem Inv.mem_findable (inv : Inv hash t) (p : Bytes × Entry) : p ∈ findable hash t ↔ t.view p.1 = some p.2 := by
  constructor
  · rintro ⟨short, found⟩
    rwa [inv.lookupEntry_eq_view short] at found
  · intro found
    obtain ⟨fits, keyed⟩ := inv.view_short found
    have short : p.1.length ≤ 65535 := by
      rw [← keyed, RawObj.objKeyGet_length fits]
      exact fits.1
    exact ⟨short, by rw [inv.lookupEntry_eq_view short, found]⟩

theorem Inv.ncard_findable (inv : Inv hash t) : (findable hash t).ncard = t.content.length := by
  have keys : Prod.fst '' findable hash t = { key | t.view key ≠ none } := by
    ext key
    simp only [Set.mem_image, Set.mem_ofPred_eq, inv.mem_findable, Option.ne_none_iff_exists']
    constructor
    · rintro ⟨⟨_, v⟩, found, rfl⟩
      exact ⟨v, found⟩
    · rintro ⟨v, found⟩
      exact ⟨(key, v), found, rfl⟩
  have injective : Set.InjOn Prod.fst (findable hash t) := by
    rintro ⟨key, v⟩ first ⟨_, w⟩ second rfl
    rw [inv.mem_findable] at first second
    exact congrArg (Prod.mk key) (Option.some.inj (first.symm.trans second))
  rw [← injective.ncard_image, keys, ← inv.used_eq_ncard, inv.counted]

theorem findable_used (t : HashTable) (n : Nat) : findable hash { t with used := n } = findable hash t := rfl

end Lookups

theorem rehashTick_keeps_iff (inv : Inv hash t) (grows : Nat → Bool) :
    findable hash (t.rehashTick grows) = findable hash t ∧
      (t.rehashTick grows).used = (findable hash (t.rehashTick grows)).ncard ↔
    Granted grows htRehashStep t := by
  obtain ⟨lost, moved, none_⟩ := inv.shape.tick grows
  rw [← none_]
  generalize t.rehashTick grows = t' at moved
  have keys : ((t'.content ++ lost).map Bucket.key).Nodup := (moved.perm.map _).nodup_iff.2 inv.distinct
  rw [List.map_append] at keys
  have inv' : Inv hash { t' with used := t'.content.length } :=
    ⟨⟨moved.shape.pow, moved.shape.rehash, moved.shape.beyond, moved.shape.rooted, moved.shape.sound⟩,
      (List.nodup_append.1 keys).1, rfl⟩
  have number : (findable hash t').ncard = t'.content.length := inv'.ncard_findable
  have length := moved.perm.length_eq
  rw [List.length_append] at length
  rw [number, moved.used, inv.counted, ← length]
  constructor
  · rintro ⟨-, counted⟩
    exact List.eq_nil_of_length_eq_zero (by omega)
  · rintro rfl
    refine ⟨?_, by simp⟩
    have perm := moved.perm
    rw [List.append_nil] at perm
    ext p
    rw [← findable_used t' t'.content.length, inv'.mem_findable, inv.mem_findable]
    have same : ({ t' with used := t'.content.length } : HashTable).view p.1 = t.view p.1 :=
      view_of_perm inv'.distinct perm p.1
    rw [same]

section Runs

def firstByte (key : Bytes) : BitVec 64 := BitVec.ofNat 64 (256 * (key.headD 0).toNat)

def twoBytes (a b : UInt8) : ShortObj :=
  { obj := { addr := 256 * b.toNat, keyLen := 2, valLen := 1, data := [a, b, 118, 0] }
    keyLen_le := by norm_num
    keyLen_le_data := by simp }

def putAll (objs : List ShortObj) : List Op := objs.map fun o => .put o 0 .none false

-- The load test says yes for the first time at the 21st key.
def crowd : List Op :=
  putAll ((List.range 17).map fun n => twoBytes 17 (UInt8.ofNat n)) ++ putAll [twoBytes 2 0, twoBytes 3 0, twoBytes 4 0] ++
    [.put (twoBytes 17 100) 0 .none true]

def crowded : HashTable := ((newTable 16).run firstByte crowd).1

theorem inv_newTable16 : Inv firstByte (newTable 16) := .newTable firstByte ⟨4, by decide, rfl⟩

theorem Inv.crowded : Inv firstByte crowded := (inv_newTable16.run_refines crowd).1

theorem granted_of_growth (steps : Nat) (t : HashTable) : Granted (fun _ => true) steps t := by
  induction steps generalizing t with
  | zero => exact trivial
  | succ steps ih =>
    unfold Granted
    split
    · exact trivial
    · split
      · exact ⟨by simp [RoundGranted], ih _⟩
      · exact trivial

theorem rehashTick_keeps_crowded :
    findable firstByte (crowded.rehashTick fun _ => true) = findable firstByte crowded := by
  have inv := Inv.crowded
  generalize crowded = t at inv ⊢
  exact ((rehashTick_keeps_iff inv fun _ => true).2 (granted_of_growth htRehashStep t)).1

theorem rehashTick_loses_entry : crowded.rehashIdx = some 0 ∧
    (crowded.lookupEntry firstByte [17, 0]).map Entry.obj = some (twoBytes 17 0).obj ∧
    (crowded.rehashTick fun _ => false).lookupEntry firstByte [17, 0] = none ∧
    (crowded.rehashTick fun _ => false).used = 21 := by
  decide +kernel

end Runs

end FreakV.HashTable
