import FreakV.HashTable.Model
import FreakV.Lib.Buckets
import Mathlib.Data.Nat.Bitwise

namespace FreakV

section MetaWord

theorem htMetaLockBit_getLsbD (i : Nat) : htMetaLockBit.getLsbD i = decide (i = 7) := by
  by_cases inside : i < 64
  · revert i
    decide
  · rw [BitVec.getLsbD_of_ge _ _ (not_lt.1 inside)]
    simp
    omega

theorem htMetaLockClear_lockSet (word : BitVec 64) : htMetaLockClear (htMetaLockSet word) = htMetaLockClear word := by
  apply BitVec.eq_of_getLsbD_eq
  intro i inside
  simp only [htMetaLockSet, htMetaLockClear, BitVec.getLsbD_and, BitVec.getLsbD_or, BitVec.getLsbD_not,
    htMetaLockBit_getLsbD]
  grind -ring -linarith

theorem htMetaLockClear_lockClear (word : BitVec 64) :
    htMetaLockClear (htMetaLockClear word) = htMetaLockClear word := by
  unfold htMetaLockClear
  rw [BitVec.and_assoc, BitVec.and_self]

theorem htMetaIsLocked_lockSet (word : BitVec 64) : htMetaIsLocked (htMetaLockSet word) = true := by
  have bit : (htMetaLockSet word &&& htMetaLockBit).getLsbD 7 = true := by
    simp [htMetaLockSet, htMetaLockBit_getLsbD]
  unfold htMetaIsLocked
  rw [bne_iff_ne]
  intro none
  simp [none] at bit

theorem htMetaIsLocked_lockClear (word : BitVec 64) : htMetaIsLocked (htMetaLockClear word) = false := by
  have none : htMetaLockClear word &&& htMetaLockBit = 0 := by
    unfold htMetaLockClear
    rw [BitVec.and_assoc, BitVec.and_comm (~~~_), BitVec.and_not_self]
    simp
  simp [htMetaIsLocked, none]

theorem lockClear_shift (word : BitVec 64) : htMetaLockClear word >>> 8 = word >>> 8 := by
  apply BitVec.eq_of_getLsbD_eq
  intro i inside
  simp only [htMetaLockClear, BitVec.getLsbD_ushiftRight, BitVec.getLsbD_and, BitVec.getLsbD_not, htMetaLockBit_getLsbD]
  have apart : ¬8 + i = 7 := by omega
  by_cases short : 8 + i < 64
  · simp [short, apart]
  · simp [BitVec.getLsbD_of_ge word _ (not_lt.1 short)]

end MetaWord

namespace HashTable

theorem htMetaPack_ne_zero (hash : BitVec 64) (type : BitVec 8) : htMetaPack hash type ≠ 0 := by
  unfold htMetaPack
  simp only
  split
  next some => exact some
  · decide

theorem lockClear_htMetaPack (hash : BitVec 64) :
    htMetaLockClear (htMetaPack hash valTypeString) = htMetaPack hash valTypeString := by
  have string : valTypeString.setWidth 64 = 0#64 := by decide
  unfold htMetaPack htMetaLockClear
  simp only [string, BitVec.or_zero]
  split
  · rw [BitVec.and_assoc]
    congr 1
  · decide

theorem bucketIdx_lockClear (word : BitVec 64) (cap : Nat) : bucketIdx (htMetaLockClear word) cap = bucketIdx word cap := by
  unfold bucketIdx
  rw [lockClear_shift]

theorem bucketIdx_eq_mod (word : BitVec 64) (k : Nat) : bucketIdx word (2 ^ k) = (word >>> 8).toNat % 2 ^ k :=
  Nat.and_two_pow_sub_one_eq_mod _ k

theorem bucketIdx_lt (word : BitVec 64) (k : Nat) : bucketIdx word (2 ^ k) < 2 ^ k := by
  rw [bucketIdx_eq_mod]
  exact Nat.mod_lt _ (Nat.two_pow_pos k)

def Chain.live (c : Chain) : List Bucket := if htMetaEmpty c.pri.word then c.next else c.pri :: c.next

def Bucket.key (b : Bucket) : Bytes :=
  match b.obj with
  | some o => o.objKeyGet
  | none => []

def content (t : HashTable) : List Bucket := Buckets.gather (fun i => (t.buckets i).live) t.cap

def Chain.add (c : Chain) (b : Bucket) : Chain :=
  if htMetaEmpty c.pri.word then { c with pri := b } else { c with next := c.next ++ [b] }

end HashTable

def RawObj.Short (o : RawObj) : Prop := o.keyLen ≤ 65535 ∧ o.keyLen ≤ o.data.length

namespace HashTable

section Shape

variable (hash : Bytes → BitVec 64)

structure Bucket.Sound (b : Bucket) : Prop where
  obj : ∃ o, b.obj = some o ∧ o.Short
  word : htMetaLockClear b.word = metaFor hash b.key

def Home (t : HashTable) (word : BitVec 64) (i : Nat) : Prop :=
  i = bucketIdx word t.cap ∨
    ∃ r, t.rehashIdx = some r ∧ r ≤ bucketIdx word t.oldCap ∧ i = bucketIdx word t.oldCap

structure Shape (t : HashTable) : Prop where
  pow : ∃ k ≤ 30, t.cap = 2 ^ k
  rehash : ∀ r, t.rehashIdx = some r → (∃ k, t.oldCap = 2 ^ k) ∧ t.cap = t.oldCap * 2 ∧ r ≤ t.oldCap
  beyond : ∀ i, t.cap ≤ i → t.buckets i = {}
  rooted : ∀ i, htMetaEmpty (t.buckets i).pri.word = true → (t.buckets i).next = []
  sound : ∀ i, ∀ b ∈ (t.buckets i).live, b.Sound hash ∧ t.Home b.word i

end Shape

section ShapeLemmas

variable {hash : Bytes → BitVec 64} {t : HashTable} {b : Bucket} {i : Nat}

theorem Bucket.Sound.occupied (sound : b.Sound hash) : htMetaEmpty b.word = false := by
  unfold htMetaEmpty
  rw [beq_eq_false_iff_ne]
  intro zero
  have word := sound.word
  rw [zero] at word
  exact htMetaPack_ne_zero _ _ (word.symm.trans (by decide))

theorem Chain.live_of_occupied {c : Chain} (occupied : htMetaEmpty c.pri.word = false) : c.live = c.pri :: c.next := by
  simp [Chain.live, occupied]

theorem Chain.live_empty : ({} : Chain).live = [] := rfl

theorem Chain.live_add {c : Chain} (sound : b.Sound hash) (rooted : htMetaEmpty c.pri.word = true → c.next = []) :
    (c.add b).live = c.live ++ [b] := by
  unfold Chain.add
  split
  next empty => simp [Chain.live, sound.occupied, empty, rooted empty]
  next occupied => simp [Chain.live, occupied]

theorem live_setChain (t : HashTable) (i : Nat) (c : Chain) :
    (fun j => ((t.setChain i c).buckets j).live) = Function.update (fun j => (t.buckets j).live) i c.live := by
  funext j
  by_cases same : j = i
  · subst same
    simp [setChain]
  · simp [setChain, same]

theorem content_setChain (inside : i < t.cap) {c : Chain} {added removed : List Bucket}
    (change : (c.live ++ removed).Perm ((t.buckets i).live ++ added)) :
    ((t.setChain i c).content ++ removed).Perm (t.content ++ added) := by
  unfold content
  rw [live_setChain]
  exact Buckets.gather_update_perm inside change

theorem mem_content : b ∈ t.content ↔ ∃ i < t.cap, b ∈ (t.buckets i).live := Buckets.mem_gather

theorem Shape.bucketIdx_lt (shape : Shape hash t) (word : BitVec 64) : bucketIdx word t.cap < t.cap := by
  obtain ⟨k, -, pow⟩ := shape.pow
  rw [pow]
  exact HashTable.bucketIdx_lt word k

theorem Shape.live_lt (shape : Shape hash t) (member : b ∈ (t.buckets i).live) : i < t.cap := by
  by_contra outside
  rw [shape.beyond i (not_lt.1 outside), Chain.live_empty] at member
  cases member

theorem Shape.setChain (shape : Shape hash t) (inside : i < t.cap) {c : Chain}
    (rooted : htMetaEmpty c.pri.word = true → c.next = [])
    (sound : ∀ b ∈ c.live, b.Sound hash ∧ t.Home b.word i) : Shape hash (t.setChain i c) := by
  refine ⟨shape.pow, shape.rehash, fun j beyond => ?_, fun j => ?_, fun j => ?_⟩
  · have other : j ≠ i := by
      have outside : t.cap ≤ j := beyond
      omega
    simpa [HashTable.setChain, other] using shape.beyond j beyond
  · by_cases same : j = i
    · subst same
      simpa [HashTable.setChain] using rooted
    · simpa [HashTable.setChain, same] using shape.rooted j
  · intro b member
    by_cases same : j = i
    · subst same
      rw [show (t.setChain j c).buckets j = c from Function.update_self ..] at member
      exact sound b member
    · rw [show (t.setChain i c).buckets j = t.buckets j from Function.update_of_ne same ..] at member
      exact shape.sound j b member

theorem Shape.add (shape : Shape hash t) (sound : b.Sound hash) (at_home : i = bucketIdx b.word t.cap) :
    Shape hash (t.setChain i ((t.buckets i).add b)) ∧
      (t.setChain i ((t.buckets i).add b)).content.Perm (b :: t.content) := by
  have inside : i < t.cap := at_home ▸ shape.bucketIdx_lt b.word
  have live := Chain.live_add sound (shape.rooted i)
  constructor
  · refine shape.setChain inside (fun empty => ?_) fun b' member => ?_
    · unfold Chain.add at empty ⊢
      split at empty
      · simp [sound.occupied] at empty
      next occupied => exact absurd empty occupied
    · rw [live] at member
      rcases List.mem_append.1 member with old | new
      · exact shape.sound i b' old
      · rw [List.mem_singleton.1 new]
        exact ⟨sound, .inl at_home⟩
  · have change : (((t.buckets i).add b).live ++ []).Perm ((t.buckets i).live ++ [b]) := by rw [live, List.append_nil]
    have perm := content_setChain inside change
    rw [List.append_nil] at perm
    exact perm.trans (List.perm_append_singleton b t.content)

end ShapeLemmas

end HashTable

end FreakV
