import FreakV.HashTable.Refinement

namespace FreakV.HashTable

def Chain.objects (c : Chain) : List RawObj :=
  if htMetaEmpty c.pri.word then [] else (c.pri :: c.next).filterMap Bucket.obj

def flushChain (t : HashTable) (i : Nat) : HashTable :=
  if htMetaEmpty (t.buckets i).pri.word then t
  else { t.setChain i {} with ovfFree := t.ovfFree + (t.buckets i).next.length }

def tableFlush (t : HashTable) : Option (HashTable × List RawObj) :=
  let total := if t.oldCap = 0 then t.cap else t.oldCap + t.cap
  if t.committedBuckets < total then none
  else
    let (t', freed) := (List.range total).foldl
      (fun (t, freed) i => (t.flushChain i, freed ++ (t.buckets i).objects)) (t, [])
    some ({ t' with oldCap := 0, rehashIdx := if t.oldCap = 0 then t.rehashIdx else none, used := 0 }, freed)

section Loop

variable {t : HashTable}

theorem flushChain_buckets (t : HashTable) (i : Nat) : (t.flushChain i).buckets =
    Function.update t.buckets i (if htMetaEmpty (t.buckets i).pri.word then t.buckets i else {}) := by
  rw [flushChain]
  split
  · rw [Function.update_eq_self]
  · rfl

structure Flushed (t : HashTable) (n : Nat) (t' : HashTable) (freed : List RawObj) : Prop where
  buckets : ∀ i, t'.buckets i = if i < n ∧ htMetaEmpty (t.buckets i).pri.word = false then {} else t.buckets i
  freed : freed = (List.range n).flatMap fun i => (t.buckets i).objects
  cap : t'.cap = t.cap
  rehashIdx : t'.rehashIdx = t.rehashIdx

theorem flushed_loop (t : HashTable) (n : Nat) :
    let (t', freed) := (List.range n).foldl (fun (t, freed) i => (t.flushChain i, freed ++ (t.buckets i).objects)) (t, [])
    Flushed t n t' freed := by
  induction n with
  | zero => exact ⟨by simp, rfl, rfl, rfl⟩
  | succ n ih =>
    simp only [List.range_succ, List.foldl_append, List.foldl_cons, List.foldl_nil] at ih ⊢
    have same := ih.buckets n
    simp only [Nat.lt_irrefl, false_and, if_false] at same
    refine ⟨fun i => ?_, ?_, ?_, ?_⟩
    · rw [flushChain_buckets, Function.update_apply, same, ih.buckets i]
      by_cases here : i = n
      · subst here
        cases empty : htMetaEmpty (t.buckets i).pri.word <;> simp
      · have order : i < n + 1 ↔ i < n := by omega
        simp [here, order]
    · rw [same, ih.freed, List.range_succ, List.flatMap_append]
      simp
    · rw [flushChain]
      split <;> exact ih.cap
    · rw [flushChain]
      split <;> exact ih.rehashIdx

theorem Flushed.of_tableFlush {t' : HashTable} {freed : List RawObj} (done : t.tableFlush = some (t', freed)) :
    ∃ total, t.cap ≤ total ∧ ∃ last, Flushed t total last freed ∧
      t' = { last with oldCap := 0, rehashIdx := if t.oldCap = 0 then t.rehashIdx else none, used := 0 } := by
  simp only [tableFlush, Option.ite_none_left_eq_some, Option.some.injEq, Prod.mk.injEq] at done
  obtain ⟨-, rfl, rfl⟩ := done
  refine ⟨_, ?_, _, flushed_loop t _, rfl⟩
  split <;> omega

end Loop

section Empty

variable {hash : Bytes → BitVec 64} {t t' : HashTable} {freed : List RawObj}

theorem Shape.live_eq (shape : Shape hash t) (i : Nat) :
    (t.buckets i).live = if htMetaEmpty (t.buckets i).pri.word then [] else (t.buckets i).pri :: (t.buckets i).next := by
  rw [Chain.live]
  split
  next empty => exact shape.rooted i empty
  · rfl

theorem Shape.lookup_live (shape : Shape hash t) {key : Bytes} {f : Nat × Nat} (found : t.lookupKey hash key = some f) :
    t.bucketAt f ∈ t.content := by
  have chain : ∀ i, (chainNodeFind (t.buckets i) (metaFor hash key) key).map (fun place => (i, place)) = some f →
      t.bucketAt f ∈ t.content := by
    intro i found
    obtain ⟨place, at_place, rfl⟩ := Option.map_eq_some_iff.1 found
    obtain ⟨inside, holds, -⟩ := List.findIdx?_eq_some_iff_getElem.1 at_place
    have here : t.bucketAt (i, place) = ((t.buckets i).pri :: (t.buckets i).next)[place] := by
      rw [bucketAt, List.getD_eq_getElem _ _ inside]
    have live := (mem_live_of_mem_chain (List.getElem_mem inside) holds (shape.rooted i)).2
    rw [here]
    exact mem_content.2 ⟨i, shape.live_lt live, live⟩
  unfold lookupKey keyLookup at found
  simp only at found
  split at found
  · exact chain _ found
  · split at found
    · exact chain _ found
    · split at found
      next old => exact chain _ (old.trans found)
      · exact chain _ found

variable (inv : Inv hash t) (done : t.tableFlush = some (t', freed))

include inv done

theorem Inv.tableFlush : Inv hash t' ∧ t'.content = [] := by
  obtain ⟨total, covers, last, flushed, rfl⟩ := Flushed.of_tableFlush done
  have empty (i : Nat) : last.buckets i = {} ∨ last.buckets i = t.buckets i ∧ htMetaEmpty (t.buckets i).pri.word = true := by
    rw [flushed.buckets i]
    split
    · exact .inl rfl
    next kept =>
      by_cases inside : i < total
      · exact .inr ⟨rfl, by simpa [inside] using kept⟩
      · exact .inl (inv.shape.beyond i (by omega))
  have live (i : Nat) : (last.buckets i).live = [] := by
    obtain gone | ⟨same, vacant⟩ := empty i
    · rw [gone]
      rfl
    · rw [same, inv.shape.live_eq, if_pos vacant]
  have content : ({ last with oldCap := 0, rehashIdx := if t.oldCap = 0 then t.rehashIdx else none, used := 0 } :
      HashTable).content = [] := by
    rw [HashTable.content]
    simp only [live]
    simp [Buckets.gather]
  have idle : (if t.oldCap = 0 then t.rehashIdx else none) = none := by
    split
    next zero =>
      cases round : t.rehashIdx with
      | none => rfl
      | some r =>
        obtain ⟨⟨k, pow⟩, -⟩ := inv.shape.rehash r round
        exact absurd (zero.symm.trans pow) (Nat.ne_of_lt (Nat.two_pow_pos k))
    · rfl
  refine ⟨⟨⟨?_, ?_, ?_, ?_, ?_⟩, ?_, ?_⟩, content⟩
  · rw [flushed.cap]
    exact inv.shape.pow
  · intro r round
    rw [idle] at round
    cases round
  · intro i beyond
    obtain gone | ⟨same, -⟩ := empty i
    · exact gone
    · rw [flushed.cap] at beyond
      exact same.trans (inv.shape.beyond i beyond)
  · intro i vacant
    obtain gone | ⟨same, free⟩ := empty i
    · simp only [gone]
    · simp only [same]
      exact inv.shape.rooted i free
  · intro i b member
    simp only [live i] at member
    cases member
  · rw [content]
    exact List.nodup_nil
  · rw [content]
    rfl

theorem Inv.lookup_flushed (key : Bytes) : t'.lookupKey hash key = none := by
  obtain ⟨inv', empty⟩ := inv.tableFlush done
  cases found : t'.lookupKey hash key with
  | none => rfl
  | some f =>
    have member := inv'.shape.lookup_live found
    rw [empty] at member
    cases member

theorem Inv.mem_freed (o : RawObj) : o ∈ freed ↔ ∃ b ∈ t.content, b.obj = some o := by
  obtain ⟨total, covers, last, flushed, rfl⟩ := Flushed.of_tableFlush done
  have objects (i : Nat) : (t.buckets i).objects = (t.buckets i).live.filterMap Bucket.obj := by
    rw [Chain.objects, inv.shape.live_eq]
    split <;> rfl
  rw [flushed.freed]
  simp only [List.mem_flatMap, List.mem_range, objects, List.mem_filterMap, mem_content]
  constructor
  · rintro ⟨i, -, b, live, obj⟩
    exact ⟨b, ⟨i, inv.shape.live_lt live, live⟩, obj⟩
  · rintro ⟨b, ⟨i, inside, live⟩, obj⟩
    exact ⟨i, by omega, b, live, obj⟩

end Empty

end FreakV.HashTable
