import FreakV.HashTable.NamedRuns

namespace FreakV.NamedTable

open HashTable

def Evicts (victims : List RawObj) (b : Bucket) : Prop :=
  htMetaIsLocked b.word = false ∧ ∃ o ∈ victims, o.objKeyGet = b.key ∧ b.obj.map RawObj.addr = some o.addr

instance (victims : List RawObj) (b : Bucket) : Decidable (Evicts victims b) :=
  inferInstanceAs (Decidable (_ ∧ ∃ o ∈ victims, _))

def TailStays (victims : List RawObj) (c : Chain) : Prop :=
  ∀ last ∈ c.next.getLast?, ¬Evicts victims last ∧ ∃ b ∈ c.pri :: c.next.dropLast, ¬Evicts victims b

instance (victims : List RawObj) (c : Chain) : Decidable (TailStays victims c) :=
  inferInstanceAs (Decidable (∀ last ∈ c.next.getLast?, _))

variable {hash : Bytes → BitVec 64} {p : NamedTable} {lists : Slot → List Nat} {t t' t'' : HashTable} {victims : List RawObj}
  {o : RawObj} {b : Bucket} {i : Nat}

section Evicting

theorem evicts_cons : Evicts (o :: victims) b ↔ Evicts [o] b ∨ Evicts victims b := by
  simp only [Evicts, List.mem_cons, exists_eq_or_imp, List.not_mem_nil, or_false, exists_eq_left, and_or_left]

structure Evicted (hash : Bytes → BitVec 64) (victims : List RawObj) (t t' : HashTable) : Prop where
  inv : Inv hash t'
  fewer : ∀ i, (t'.buckets i).live.Sublist (t.buckets i).live
  mem : ∀ i, ∀ b ∈ (t.buckets i).live, b ∈ (t'.buckets i).live ↔ ¬Evicts victims b
  cap : t'.cap = t.cap
  pool : t'.ovfPoolCap = t.ovfPoolCap

theorem Evicted.refl (inv : Inv hash t) : Evicted hash [] t t :=
  ⟨inv, fun _ => .refl _, fun i b there => by simp [Evicts, there], rfl, rfl⟩

theorem Evicted.trans (first : Evicted hash [o] t t') (rest : Evicted hash victims t' t'') :
    Evicted hash (o :: victims) t t'' := by
  refine ⟨rest.inv, fun i => (rest.fewer i).trans (first.fewer i), fun i b there => ?_, rest.cap.trans first.cap,
    rest.pool.trans first.pool⟩
  rw [evicts_cons, not_or]
  by_cases stays : b ∈ (t'.buckets i).live
  · rw [rest.mem i b stays]
    simp only [(first.mem i b there).1 stays, not_false_eq_true, true_and]
  · have gone : Evicts [o] b := by
      by_contra kept
      exact stays ((first.mem i b there).2 kept)
    simp only [gone, not_true, false_and, iff_false]
    exact fun later => stays ((rest.fewer i).subset later)

theorem live_eq_of_key (inv : Inv hash t) {j : Nat} {b' : Bucket} (here : b ∈ (t.buckets i).live)
    (there : b' ∈ (t.buckets j).live) (same : b.key = b'.key) : b = b' :=
  List.inj_on_of_nodup_map inv.distinct (mem_content.2 ⟨i, inv.shape.live_lt here, here⟩)
    (mem_content.2 ⟨j, inv.shape.live_lt there, there⟩) same

theorem live_getElem? {key : Bytes} {f : Nat × Nat} (found : Found hash t key f) :
    (t.buckets f.1).live[f.2]? = some (t.bucketAt f) := by
  rw [Chain.live_of_occupied found.occupied, HashTable.bucketAt, List.getD_eq_getElem?_getD,
    List.getElem?_eq_getElem found.place]
  rfl

theorem bucketAt_live {key : Bytes} {f : Nat × Nat} (found : Found hash t key f) : t.bucketAt f ∈ (t.buckets f.1).live :=
  List.mem_of_getElem? (live_getElem? found)

theorem victim_cases (inv : Inv hash t) (short : o.Short) :
    (∀ i, ∀ b ∈ (t.buckets i).live, ¬Evicts [o] b) ∧
      (∀ f, t.lookupKey hash o.objKeyGet = some f → ¬Evicts [o] (t.bucketAt f)) ∨
    ∃ f, t.lookupKey hash o.objKeyGet = some f ∧ Found hash t o.objKeyGet f ∧ Evicts [o] (t.bucketAt f) := by
  have keyed {b : Bucket} (evicts : Evicts [o] b) : b.key = o.objKeyGet := by
    obtain ⟨-, o', one, same, -⟩ := evicts
    rw [← same, List.mem_singleton.1 one]
  rcases inv.lookup_cases ⟨o.objKeyGet, objKeyGet_short short⟩ with ⟨missing, -⟩ | ⟨f, -, lookup, found, -, -⟩
  · refine .inl ⟨fun i b there evicts => ?_, fun f found => ?_⟩
    · have inside := mem_content.2 ⟨i, inv.shape.live_lt there, there⟩
      exact inv.lookup_none (objKeyGet_short short) missing inside (keyed evicts)
    · cases missing.symm.trans found
  · by_cases evicts : Evicts [o] (t.bucketAt f)
    · exact .inr ⟨f, lookup, found, evicts⟩
    · refine .inl ⟨fun i b there again => evicts ?_, fun f' found' => ?_⟩
      · -- every other entry has another key
        rw [← live_eq_of_key inv there (bucketAt_live found) ((keyed again).trans found.keyed.symm)]
        exact again
      · cases lookup.symm.trans found'
        exact evicts

theorem Models.takeIfUnlocked_eq {start : Option Nat} {aside : List Bucket} (models : Models p start lists aside t)
    (inv : Inv hash t) (short : o.Short) : (p.bucketTakeIfUnlocked hash o.objKeyGet o.addr).1 =
      match t.lookupKey hash o.objKeyGet with
      | none => p
      | some f => if Evicts [o] (t.bucketAt f) then p.bucketNodeUnlink f else p := by
  rw [NamedTable.bucketTakeIfUnlocked, NamedTable.lookupKey, models.counted_eq]
  cases lookup : t.lookupKey hash o.objKeyGet with
  | none => rfl
  | some f =>
    have keyed := (inv.lookup_some (objKeyGet_short short) lookup).keyed
    simp only [models.bucketAt_eq (lookup_place hash lookup)]
    by_cases expected : (t.bucketAt f).obj.map RawObj.addr = some o.addr
    · cases locked : htMetaIsLocked (t.bucketAt f).word with
      | true => simp [expected, Evicts, locked]
      | false => simp [expected, Evicts, locked, keyed]
    · have kept : ¬Evicts [o] (t.bucketAt f) := by
        rintro ⟨-, o', one, -, same⟩
        exact expected (List.mem_singleton.1 one ▸ same)
      rw [if_pos expected, if_neg kept]

theorem unlink_buckets (inv : Inv hash t) {key : Bytes} {f : Nat × Nat} (found : Found hash t key f) (i : Nat) :
    ((t.bucketNodeUnlink f).buckets i).live = if i = f.1 then (t.buckets i).live.eraseIdx f.2 else (t.buckets i).live := by
  obtain ⟨c, free, unlinked, -, live⟩ := bucketNodeUnlink_live inv.shape found.occupied
  rw [unlinked]
  change (Function.update t.buckets f.1 c i).live = _
  rw [Function.update_apply]
  split
  next here => rw [live, here, Chain.live_of_occupied found.occupied]
  · rfl

theorem Evicted.unlink (inv : Inv hash t) {f : Nat × Nat} (found : Found hash t o.objKeyGet f)
    (evicts : Evicts [o] (t.bucketAt f)) : Evicted hash [o] t (t.bucketNodeUnlink f) := by
  obtain ⟨c, free, unlinked, -, -⟩ := bucketNodeUnlink_live inv.shape found.occupied
  have inv' := (inv.unlink found).1
  refine ⟨inv', fun i => ?_, fun i b there => ?_, by rw [unlinked]; rfl, by rw [unlinked]; rfl⟩
  · rw [unlink_buckets inv found]
    split
    · exact List.eraseIdx_sublist ..
    · exact .refl _
  · have keyed : o.objKeyGet = b.key → b = t.bucketAt f := fun same =>
      live_eq_of_key inv there (bucketAt_live found) (same.symm.trans found.keyed.symm)
    constructor
    · intro stays again
      obtain ⟨-, o', one, same, -⟩ := again
      obtain rfl := List.mem_singleton.1 one
      have bound : (t.bucketNodeUnlink f).view b.key = none := by
        rw [(inv.unlink found).2, ← same]
        exact Function.update_self ..
      obtain ⟨v, -, entry⟩ := (inv'.shape.sound i b stays).1.entry
      have inside := mem_content.2 ⟨i, inv'.shape.live_lt stays, stays⟩
      rw [view, (Buckets.find?_eq_some_iff_of_nodup inv'.distinct).2 ⟨inside, rfl⟩, Option.bind_some, entry] at bound
      cases bound
    · intro kept
      rw [unlink_buckets inv found]
      split
      next here =>
        subst here
        obtain ⟨j, inside, at_⟩ := List.mem_iff_getElem.1 there
        refine List.mem_eraseIdx_iff_getElem.2 ⟨j, inside, fun same => kept ?_, at_⟩
        subst same
        have found := live_getElem? found
        rw [List.getElem?_eq_getElem inside, at_] at found
        rw [Option.some.inj found]
        exact evicts
      · exact there

end Evicting

section Tail

variable {start : Option Nat} {aside : List Bucket} {n : Nat} {e : Bucket} {f : Nat × Nat} {key : Bytes}

/-- The bucket `n` held the last entry `e` of chain `i`. It is the end of the chain as long as `e` and one entry more are
in it, and free from then on: a primary bucket takes over the entry behind it. -/
def EndsOrFree (lists : Slot → List Nat) (t : HashTable) (i n : Nat) (e : Bucket) : Prop :=
  if 2 ≤ (t.buckets i).live.length ∧ e ∈ (t.buckets i).live then
    (lists (.chain i)).getLast? = some n ∧ (t.buckets i).live.getLast? = some e
  else n ∈ lists .free

theorem live_nodup (inv : Inv hash t) (i : Nat) : (t.buckets i).live.Nodup := by
  by_cases inside : i < t.cap
  · have split := (Buckets.gather_split (fun j => (t.buckets j).live) inside).map Bucket.key
    have distinct := split.nodup_iff.1 inv.distinct
    rw [List.map_append, List.nodup_append] at distinct
    exact distinct.1.of_map _
  · rw [inv.shape.beyond i (not_lt.1 inside), Chain.live_empty]
    exact List.nodup_nil

theorem getLast?_eraseIdx {A : Type} {l : List A} {j : Nat} (before : j + 1 < l.length) :
    (l.eraseIdx j).getLast? = l.getLast? := by
  rw [List.getLast?_eq_getElem?, List.getLast?_eq_getElem?, List.length_eraseIdx_of_lt (by omega),
    List.getElem?_eraseIdx_of_ge (by omega)]
  congr 1
  omega

theorem unlinked_chain (lists : Slot → List Nat) (f : Nat × Nat) (i : Nat) : unlinked lists f (.chain i) =
    if i = f.1 then (lists (.chain i)).eraseIdx (f.2 - 1) else lists (.chain i) := by
  unfold unlinked
  cases chain : lists (.chain f.1) with
  | nil =>
    dsimp only
    split
    next here => rw [here, chain, List.eraseIdx_nil]
    · rfl
  | cons n rest =>
    dsimp only
    rw [Function.update_of_ne (by simp), Function.update_apply]
    simp only [Slot.chain.injEq]
    split
    next here => rw [here, chain]
    · rfl

theorem unlinked_free (lists : Slot → List Nat) (f : Nat × Nat) : unlinked lists f .free =
    if lists (.chain f.1) = [] then lists .free else (lists (.chain f.1)).getD (f.2 - 1) 0 :: lists .free := by
  unfold unlinked
  cases chain : lists (.chain f.1) with
  | nil => rw [if_pos rfl]
  | cons n rest =>
    dsimp only
    rw [Function.update_self, if_neg (by simp)]

theorem mem_unlinked_free (lists : Slot → List Nat) (f : Nat × Nat) {n : Nat} (free : n ∈ lists .free) :
    n ∈ unlinked lists f .free := by
  rw [unlinked_free]
  split
  · exact free
  · exact List.mem_cons_of_mem _ free

theorem end_unlinked {entries : List Bucket} {names : List Nat} {j : Nat} (nodup : entries.Nodup)
    (length : entries.length = names.length + 1) (place : j < entries.length) (many : 2 ≤ entries.length)
    (last : names.getLast? = some n) (lastEntry : entries.getLast? = some e) :
    if 2 ≤ (entries.eraseIdx j).length ∧ e ∈ entries.eraseIdx j then
      (names.eraseIdx (j - 1)).getLast? = some n ∧ (entries.eraseIdx j).getLast? = some e
    else names.getD (j - 1) 0 = n := by
  have at_ : entries[entries.length - 1]? = some e := by rw [← List.getLast?_eq_getElem?, lastEntry]
  have lastName : names[names.length - 1]? = some n := by rw [← List.getLast?_eq_getElem?, last]
  have shorter := List.length_eraseIdx_of_lt place
  split
  next kept =>
    obtain ⟨k, inside, other, same⟩ := List.mem_eraseIdx_iff_getElem.1 kept.2
    have final : k = entries.length - 1 := by
      rw [List.getElem?_eq_getElem (by omega), ← same] at at_
      exact (nodup.getElem_inj_iff.1 (Option.some.inj at_)).symm
    exact ⟨(getLast?_eraseIdx (by omega)).trans last, (getLast?_eraseIdx (by omega)).trans lastEntry⟩
  next gone =>
    have index : j - 1 = names.length - 1 := by
      by_contra away
      refine gone ⟨by omega, List.mem_eraseIdx_iff_getElem.2 ⟨entries.length - 1, by omega, by omega, ?_⟩⟩
      rw [List.getElem?_eq_getElem (by omega)] at at_
      exact Option.some.inj at_
    rw [index, List.getD_eq_getElem?_getD, lastName]
    rfl

theorem EndsOrFree.unlink (models : Models p start lists aside t) (inv : Inv hash t) (found : Found hash t key f)
    (ends : EndsOrFree lists t i n e) : EndsOrFree (unlinked lists f) (t.bucketNodeUnlink f) i n e := by
  unfold EndsOrFree at ends ⊢
  rw [unlink_buckets inv found, unlinked_chain]
  by_cases here : i = f.1
  · subst here
    simp only [if_true]
    have place : f.2 < (t.buckets f.1).live.length := by
      rw [Chain.live_of_occupied found.occupied]
      exact found.place
    have length : (t.buckets f.1).live.length = (lists (.chain f.1)).length + 1 := by
      rw [Chain.live_of_occupied found.occupied, List.length_cons, models.next_eq, List.length_map]
    have nodup := live_nodup inv f.1
    split at ends
    next kept =>
      have changed := end_unlinked nodup length place kept.1 ends.1 ends.2
      split at changed
      next stays =>
        rw [if_pos stays]
        exact changed
      next gone =>
        have some_ : lists (.chain f.1) ≠ [] := fun none_ => by simp [none_] at ends
        rw [if_neg gone, unlinked_free, if_neg some_, changed]
        exact List.mem_cons_self
    next gone =>
      have less : ¬(2 ≤ ((t.buckets f.1).live.eraseIdx f.2).length ∧ e ∈ (t.buckets f.1).live.eraseIdx f.2) := by
        rintro ⟨two, stays⟩
        have sub := List.eraseIdx_sublist (t.buckets f.1).live f.2
        exact gone ⟨Nat.le_trans two sub.length_le, sub.subset stays⟩
      rw [if_neg less]
      exact mem_unlinked_free lists f ends
  · simp only [here, if_false]
    split at ends
    next kept =>
      rw [if_pos kept]
      exact ends
    next gone =>
      rw [if_neg gone]
      exact mem_unlinked_free lists f ends

theorem Models.evict (models : Models p start lists aside t) (inv : Inv hash t) (short : ∀ o ∈ victims, o.Short) :
    ∃ lists' t', Models (p.evict hash victims) start lists' aside t' ∧ Evicted hash victims t t' ∧
      (∀ i, (lists' (.chain i)).Sublist (lists (.chain i))) ∧
      ∀ i n e, EndsOrFree lists t i n e → EndsOrFree lists' t' i n e := by
  induction victims generalizing p lists t with
  | nil => exact ⟨lists, t, models, .refl inv, fun _ => .refl _, fun _ _ _ ends => ends⟩
  | cons o victims ih =>
    have first := short o List.mem_cons_self
    have taken := models.takeIfUnlocked_eq inv first
    change ∃ lists' t', Models ((p.bucketTakeIfUnlocked hash o.objKeyGet o.addr).1.evict hash victims) start lists' aside t' ∧ _
    rcases victim_cases inv first with ⟨none_, away⟩ | ⟨f, lookup, found, evicts⟩
    · have same : (p.bucketTakeIfUnlocked hash o.objKeyGet o.addr).1 = p := by
        rw [taken]
        cases lookup : t.lookupKey hash o.objKeyGet with
        | none => rfl
        | some f => exact if_neg (away f lookup)
      obtain ⟨lists', t', models', evicted, fewer, ends⟩ := ih models inv fun o' there => short o' (List.mem_cons_of_mem o there)
      rw [same]
      have nothing : Evicted hash [o] t t :=
        ⟨inv, fun _ => .refl _, fun i b there => by simp [there, none_ i b there], rfl, rfl⟩
      exact ⟨lists', t', models', nothing.trans evicted, fewer, ends⟩
    · have unlinked : (p.bucketTakeIfUnlocked hash o.objKeyGet o.addr).1 = p.bucketNodeUnlink f := by
        rw [taken, lookup]
        exact if_pos evicts
      have one := Evicted.unlink inv found evicts
      obtain ⟨lists', t', models', evicted, fewer, ends⟩ := ih (models.unlink (lookup_place hash lookup)) one.inv
        fun o' there => short o' (List.mem_cons_of_mem o there)
      rw [unlinked]
      refine ⟨lists', t', models', one.trans evicted, fun i => (fewer i).trans ?_, fun i n e before =>
        ends i n e (before.unlink models inv found)⟩
      rw [unlinked_chain]
      split
      · exact List.eraseIdx_sublist ..
      · exact .refl _

end Tail

end FreakV.NamedTable
