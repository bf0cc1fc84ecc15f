import FreakV.HashTable.Chains

namespace FreakV.HashTable

variable {hash : Bytes → BitVec 64} {t : HashTable} {all hand : List Bucket} {used : Nat} {b : Bucket} {i : Nat}

structure Holding (hash : Bytes → BitVec 64) (all : List Bucket) (used : Nat) (t : HashTable) (hand : List Bucket) :
    Prop where
  shape : Shape hash t
  hand_sound : ∀ b ∈ hand, b.Sound hash
  perm : (t.content ++ hand).Perm all
  used_eq : t.used = used

theorem Chain.add_of_empty {c : Chain} (empty : htMetaEmpty c.pri.word = true) : c.add b = { c with pri := b } := by
  simp [Chain.add, empty]

theorem Chain.add_of_occupied {c : Chain} (occupied : ¬htMetaEmpty c.pri.word = true) :
    c.add b = { c with next := c.next ++ [b] } := by
  simp [Chain.add, occupied]

theorem Holding.add (holding : Holding hash all used t (b :: hand)) :
    Holding hash all used (t.setChain (bucketIdx b.word t.cap) ((t.buckets (bucketIdx b.word t.cap)).add b)) hand := by
  obtain ⟨shape, perm⟩ := holding.shape.add (holding.hand_sound b (by simp)) rfl
  refine ⟨shape, fun b' member => holding.hand_sound b' (by simp [member]), ?_, holding.used_eq⟩
  exact ((perm.append_right hand).trans List.perm_middle.symm).trans holding.perm

theorem Holding.relinkOverflow (holding : Holding hash all used t (b :: hand)) :
    Holding hash all used (t.relinkOverflow b) hand := by
  have added := holding.add
  unfold HashTable.relinkOverflow
  simp only
  split
  next empty =>
    rw [Chain.add_of_empty empty] at added
    exact ⟨⟨added.shape.pow, added.shape.rehash, added.shape.beyond, added.shape.rooted, added.shape.sound⟩,
      added.hand_sound, added.perm, added.used_eq⟩
  next occupied =>
    rw [Chain.add_of_occupied occupied] at added
    exact added

theorem Holding.relinkAll (holding : Holding hash all used t hand) :
    Holding hash all used (hand.foldl HashTable.relinkOverflow t) [] := by
  induction hand generalizing t with
  | nil => exact holding
  | cons b hand ih => exact ih holding.relinkOverflow

def nextRound (t : HashTable) (i : Nat) : HashTable := { t with rehashIdx := some (i + 1) }

theorem Shape.nextRound (shape : Shape hash t) (round : t.rehashIdx = some i) (inside : i < t.oldCap)
    (empty : (t.buckets i).live = []) : Shape hash (t.nextRound i) := by
  obtain ⟨oldPow, doubled, -⟩ := shape.rehash i round
  refine ⟨shape.pow, ?_, shape.beyond, shape.rooted, fun j b member => ?_⟩
  · rintro r next
    rw [← Option.some.inj next]
    exact ⟨oldPow, doubled, inside⟩
  · have other : j ≠ i := by
      rintro rfl
      rw [show (t.nextRound j).buckets = t.buckets from rfl, empty] at member
      cases member
    obtain ⟨sound, home⟩ := shape.sound j b member
    refine ⟨sound, ?_⟩
    rcases home with new | ⟨r, rehash, reached, old⟩
    · exact .inl new
    · -- an entry of the old chain `i` would sit in bucket `i`
      have next : i + 1 ≤ bucketIdx b.word t.oldCap := by
        rw [round] at rehash
        have := Option.some.inj rehash
        omega
      exact .inr ⟨i + 1, rfl, next, old⟩

theorem Holding.takeChain (holding : Holding hash all used t []) (round : t.rehashIdx = some i) (inside : i < t.oldCap) :
    Holding hash all used ((t.setChain i {}).nextRound i) (t.buckets i).live := by
  obtain ⟨-, doubled, -⟩ := holding.shape.rehash i round
  have within : i < t.cap := by omega
  have emptied : ((t.setChain i {}).buckets i).live = [] := by
    rw [show (t.setChain i {}).buckets i = {} from Function.update_self ..]
    rfl
  have shape : Shape hash (t.setChain i {}) := by
    refine holding.shape.setChain within (fun _ => rfl) fun b member => ?_
    rw [Chain.live_empty] at member
    cases member
  refine ⟨shape.nextRound round inside emptied, fun b member => (holding.shape.sound i b member).1, ?_, holding.used_eq⟩
  have change : (({} : Chain).live ++ (t.buckets i).live).Perm ((t.buckets i).live ++ []) := by
    rw [Chain.live_empty, List.nil_append, List.append_nil]
  have perm := content_setChain within change
  rw [List.append_nil] at perm
  have kept := holding.perm
  rw [List.append_nil] at kept
  exact perm.trans kept

theorem movePrimary_buckets {newIdx : Nat} (other : newIdx ≠ i) :
    (t.movePrimary i newIdx b true).buckets =
      Function.update (Function.update t.buckets i { t.buckets i with pri := {} }) newIdx ((t.buckets newIdx).add b) := by
  have place : (if htMetaEmpty (t.buckets newIdx).pri.word then t.setChain newIdx { t.buckets newIdx with pri := b }
      else (t.chainNodeInsert newIdx b true).getD t).buckets = Function.update t.buckets newIdx ((t.buckets newIdx).add b) := by
    split
    next empty => rw [Chain.add_of_empty empty]; rfl
    next occupied =>
      rw [Chain.add_of_occupied occupied]
      unfold chainNodeInsert ovfBucketAlloc
      simp only [occupied, if_true]
      by_cases none : t.ovfFree = 0 <;> simp [none, setChain]
  unfold movePrimary
  simp only
  generalize (if htMetaEmpty (t.buckets newIdx).pri.word then t.setChain newIdx { t.buckets newIdx with pri := b }
    else (t.chainNodeInsert newIdx b true).getD t) = moved at place ⊢
  change Function.update moved.buckets i { moved.buckets i with pri := {} } = _
  rw [place, Function.update_of_ne (Ne.symm other), Function.update_comm other]

theorem movePrimary_rest {newIdx : Nat} (t : HashTable) (i : Nat) (b : Bucket) (grows : Bool) :
    (t.movePrimary i newIdx b grows).cap = t.cap ∧ (t.movePrimary i newIdx b grows).oldCap = t.oldCap ∧
      (t.movePrimary i newIdx b grows).used = t.used ∧ (t.movePrimary i newIdx b grows).rehashIdx = t.rehashIdx := by
  unfold movePrimary chainNodeInsert ovfBucketAlloc
  simp only
  split
  · exact ⟨rfl, rfl, rfl, rfl⟩
  · by_cases none : t.ovfFree = 0 <;> cases grows <;> simp [none, setChain]

theorem Holding.congr {t' : HashTable} (holding : Holding hash all used t hand) (buckets : t'.buckets = t.buckets)
    (cap : t'.cap = t.cap) (oldCap : t'.oldCap = t.oldCap) (same : t'.used = t.used)
    (rehashIdx : t'.rehashIdx = t.rehashIdx) : Holding hash all used t' hand := by
  obtain ⟨shape, hand_sound, perm, used_eq⟩ := holding
  refine ⟨⟨?_, ?_, ?_, ?_, ?_⟩, hand_sound, ?_, same.trans used_eq⟩
  · rw [cap]
    exact shape.pow
  · rw [rehashIdx, oldCap, cap]
    exact shape.rehash
  · rw [cap, buckets]
    exact shape.beyond
  · rw [buckets]
    exact shape.rooted
  · unfold Home
    rw [buckets, cap, oldCap, rehashIdx]
    exact shape.sound
  · unfold content at perm ⊢
    rw [buckets, cap]
    exact perm

def placePrimary (t : HashTable) (i : Nat) (b : Bucket) : HashTable :=
  let t := (t.nextRound i).setChain i { (t.buckets i) with next := [] }
  if bucketIdx b.word t.cap = i then t else t.movePrimary i (bucketIdx b.word t.cap) b true

theorem placePrimary_buckets (pri : (t.buckets i).pri = b) :
    (t.placePrimary i b).buckets = Function.update (Function.update t.buckets i {}) (bucketIdx b.word t.cap)
      ((Function.update t.buckets i {} (bucketIdx b.word t.cap)).add b) := by
  unfold placePrimary
  simp only
  split
  next here =>
    have stays : bucketIdx b.word t.cap = i := here
    rw [stays, Function.update_self, Function.update_idem]
    have added : ({} : Chain).add b = { (t.buckets i) with next := [] } := by
      rw [Chain.add_of_empty rfl, ← pri]
    rw [added]
    rfl
  next away =>
    have leaves : bucketIdx b.word t.cap ≠ i := away
    rw [movePrimary_buckets away]
    change Function.update (Function.update (Function.update t.buckets i { (t.buckets i) with next := [] }) i _) _ _ = _
    rw [Function.update_idem]
    have emptied : (({ ((t.nextRound i).setChain i { (t.buckets i) with next := [] }).buckets i with pri := {} } : Chain)) = {} := by
      rw [show ((t.nextRound i).setChain i { (t.buckets i) with next := [] }).buckets i = { (t.buckets i) with next := [] } from
        Function.update_self ..]
    rw [emptied]
    congr 2
    change Function.update t.buckets i _ (bucketIdx b.word t.cap) = _
    rw [Function.update_of_ne leaves, Function.update_of_ne leaves]

theorem placePrimary_rest (t : HashTable) (i : Nat) (b : Bucket) :
    (t.placePrimary i b).cap = t.cap ∧ (t.placePrimary i b).oldCap = t.oldCap ∧ (t.placePrimary i b).used = t.used ∧
      (t.placePrimary i b).rehashIdx = some (i + 1) := by
  unfold placePrimary
  simp only
  split
  · exact ⟨rfl, rfl, rfl, rfl⟩
  · exact movePrimary_rest ..

theorem Holding.rehashBucket (holding : Holding hash all used t []) (round : t.rehashIdx = some i)
    (inside : i < t.oldCap) : Holding hash all used (t.rehashBucket i true) [] := by
  have rooted := holding.shape.rooted i
  unfold HashTable.rehashBucket
  simp only
  split
  next empty =>
    have live : (t.buckets i).live = [] := by simp [Chain.live, empty, rooted empty]
    exact ⟨holding.shape.nextRound round inside live, by simp, holding.perm, holding.used_eq⟩
  next occupied =>
    have taken := holding.takeChain round inside
    rw [Chain.live_of_occupied (by simpa using occupied)] at taken
    obtain ⟨cap, oldCap, used, rehashIdx⟩ := placePrimary_rest t i (t.buckets i).pri
    have placed : Holding hash all _ (t.placePrimary i (t.buckets i).pri) (t.buckets i).next :=
      taken.add.congr (placePrimary_buckets rfl) cap oldCap used rehashIdx
    exact placed.relinkAll

theorem Holding.rehashBuckets (steps : Nat) (holding : Holding hash all used t []) :
    Holding hash all used (HashTable.rehashBuckets (fun _ => true) steps t) [] := by
  induction steps generalizing t with
  | zero => exact holding
  | succ steps ih =>
    unfold HashTable.rehashBuckets
    split
    · exact holding
    next i round =>
      split
      next inside => exact ih (holding.rehashBucket round inside)
      · exact holding

theorem Shape.finish {r : Nat} (shape : Shape hash t) (round : t.rehashIdx = some r) (last : t.oldCap ≤ r) :
    Shape hash { t with oldCap := 0, rehashIdx := none } := by
  obtain ⟨⟨k, oldPow⟩, -, -⟩ := shape.rehash r round
  refine ⟨shape.pow, by simp, shape.beyond, shape.rooted, fun j b member => ?_⟩
  obtain ⟨sound, new | ⟨r', rehash, reached, -⟩⟩ := shape.sound j b member
  · exact ⟨sound, .inl new⟩
  · have short := HashTable.bucketIdx_lt b.word k
    rw [← oldPow] at short
    rw [round] at rehash
    have := Option.some.inj rehash
    omega

theorem Holding.rehashTick (holding : Holding hash all used t []) : Holding hash all used (t.rehashTick fun _ => true) [] := by
  have worked := holding.rehashBuckets htRehashStep
  unfold HashTable.rehashTick
  generalize HashTable.rehashBuckets (fun _ => true) htRehashStep t = t' at worked
  simp only
  split
  · exact worked
  next r round =>
    split
    next last => exact ⟨worked.shape.finish round last, by simp, worked.perm, worked.used_eq⟩
    · exact worked

theorem rehashStart_cases (pow : ∃ k ≤ 30, t.cap = 2 ^ k) (grows : Bool) :
    (∃ k ≤ 30, t.cap * 2 = 2 ^ k) ∧ t.rehashStart grows = { t with oldCap := t.cap, cap := t.cap * 2, rehashIdx := some 0 } ∨
      t.rehashStart grows = { t with rehashDisabled := true } := by
  obtain ⟨k, small, pow⟩ := pow
  have below : t.cap * 2 % 2 ^ 64 = t.cap * 2 := by
    have few : t.cap ≤ 2 ^ 30 := pow ▸ Nat.pow_le_pow_right (by decide) small
    omega
  simp only [HashTable.rehashStart, below]
  split
  next grown =>
    refine .inl ⟨⟨k + 1, ?_, by rw [pow, pow_succ]⟩, rfl⟩
    -- 2^31 buckets are more than the arena has room for
    by_contra last
    obtain rfl : k = 30 := by omega
    rw [pow] at grown
    revert grown
    cases grows <;> decide
  · exact .inr rfl

theorem Holding.rehashStart (holding : Holding hash all used t []) (idle : t.rehashIdx = none) (grows : Bool) :
    Holding hash all used (t.rehashStart grows) [] := by
  obtain ⟨shape, -, perm, used_eq⟩ := holding
  obtain ⟨k, -, pow⟩ := shape.pow
  rcases rehashStart_cases shape.pow grows with ⟨doubled, same⟩ | same <;> rw [same]
  · refine ⟨⟨doubled, ?_, fun i beyond => ?_, shape.rooted, fun j b member => ?_⟩, by simp, ?_, used_eq⟩
    · rintro r start
      rw [← Option.some.inj start]
      exact ⟨⟨k, pow⟩, rfl, Nat.zero_le _⟩
    · have doubled : t.cap * 2 ≤ i := beyond
      exact shape.beyond i (by omega)
    · obtain ⟨sound, new | ⟨r, rehash, -⟩⟩ := shape.sound j b member
      · exact ⟨sound, .inr ⟨0, rfl, Nat.zero_le _, new⟩⟩
      · rw [idle] at rehash
        cases rehash
    · rw [← perm.congr_right, List.append_nil, List.append_nil]
      refine List.Perm.of_eq (Buckets.gather_extend (Nat.le_mul_of_pos_right _ (by decide)) fun i beyond => ?_)
      rw [shape.beyond i beyond, Chain.live_empty]
  · exact ⟨⟨shape.pow, shape.rehash, shape.beyond, shape.rooted, shape.sound⟩, by simp, perm, used_eq⟩

theorem Holding.putPrepare (holding : Holding hash all used t []) (load tableGrows : Bool) :
    Holding hash all used (t.putPrepare { load := load, tableGrows := tableGrows }) [] := by
  unfold HashTable.putPrepare
  have ticked : Holding hash all used (if t.rehashIdx.isSome then t.rehashTick fun _ => true else t) [] := by
    split
    · exact holding.rehashTick
    · exact holding
  simp only
  generalize (if t.rehashIdx.isSome then t.rehashTick fun _ => true else t) = t' at ticked
  split
  next start => exact ticked.rehashStart start.2.1 tableGrows
  · exact ticked

end FreakV.HashTable
