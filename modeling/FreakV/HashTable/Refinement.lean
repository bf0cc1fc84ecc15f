import FreakV.HashTable.Lookup
import FreakV.HashTable.KeyMap
import Mathlib.Data.Set.Card

namespace FreakV.HashTable

variable {hash : Bytes → BitVec 64} {t : HashTable} {key : Bytes} {b : Bucket} {f : Nat × Nat}

def Bucket.entry (b : Bucket) : Option Entry :=
  b.obj.map fun o => { obj := o, expire := b.expire, locked := htMetaIsLocked b.word }

def view (t : HashTable) : KeyMap := fun key => (t.content.find? fun b => b.key = key).bind Bucket.entry

theorem view_of_perm (distinct : (t.content.map Bucket.key).Nodup) {entries : List Bucket} (perm : t.content.Perm entries)
    (key : Bytes) : t.view key = (entries.find? fun b => b.key = key).bind Bucket.entry := by
  unfold view
  rw [Buckets.find?_perm distinct perm.symm]

theorem Inv.of_perm {entries : List Bucket} (shape : Shape hash t) (perm : t.content.Perm entries)
    (distinct : (entries.map Bucket.key).Nodup) (counted : t.used = entries.length) : Inv hash t :=
  ⟨shape, (perm.map _).nodup_iff.2 distinct, by rw [counted, perm.length_eq]⟩

theorem setBucketAt_live (occupied : htMetaEmpty (t.buckets f.1).pri.word = false) (new : htMetaEmpty b.word = false) :
    ∃ c, t.setBucketAt f b = t.setChain f.1 c ∧ htMetaEmpty c.pri.word = false ∧
      c.live = ((t.buckets f.1).pri :: (t.buckets f.1).next).set f.2 b := by
  obtain ⟨i, place⟩ := f
  cases place with
  | zero => exact ⟨{ (t.buckets i) with pri := b }, rfl, new, by simp [Chain.live, new]⟩
  | succ place =>
    exact ⟨{ (t.buckets i) with next := (t.buckets i).next.set place b }, rfl, occupied, by simpa [Chain.live] using occupied⟩

theorem bucketNodeUnlink_live (shape : Shape hash t) (occupied : htMetaEmpty (t.buckets f.1).pri.word = false) :
    ∃ c free, t.bucketNodeUnlink f = { t.setChain f.1 c with used := t.used - 1, ovfFree := free } ∧
      (htMetaEmpty c.pri.word = true → c.next = []) ∧
      c.live = ((t.buckets f.1).pri :: (t.buckets f.1).next).eraseIdx f.2 := by
  obtain ⟨i, place⟩ := f
  have rooted : htMetaEmpty (t.buckets i).pri.word = false := occupied
  cases place with
  | zero =>
    cases next : (t.buckets i).next with
    | nil =>
      refine ⟨{ (t.buckets i) with pri := {} }, t.ovfFree, ?_, fun _ => next, ?_⟩
      · simp [bucketNodeUnlink, next, setChain]
      · simp [Chain.live, next, htMetaEmpty]
    | cons s rest =>
      -- the successor holds an entry too
      have live : s ∈ (t.buckets i).live := by simp [Chain.live, rooted, next]
      have sOccupied := ((shape.sound i s live).1).occupied
      refine ⟨{ pri := s, next := rest }, t.ovfFree + 1, ?_, ?_, ?_⟩
      · simp [bucketNodeUnlink, next, setChain, ovfBucketRelease]
      · simp [sOccupied]
      · simp [Chain.live, sOccupied]
  | succ place =>
    refine ⟨{ (t.buckets i) with next := (t.buckets i).next.eraseIdx place }, t.ovfFree + 1, rfl, ?_, ?_⟩
    · simp [rooted]
    · simp [Chain.live, rooted]

theorem Found.split (found : Found hash t key f) (shape : Shape hash t) :
    ∃ others, t.content.Perm (t.bucketAt f :: others) ∧
      (∀ b', htMetaEmpty b'.word = false → (t.setBucketAt f b').content.Perm (b' :: others)) ∧
      (t.bucketNodeUnlink f).content.Perm others := by
  have live := Chain.live_of_occupied found.occupied
  have place := found.place
  have at_place : t.bucketAt f = ((t.buckets f.1).pri :: (t.buckets f.1).next)[f.2] := List.getD_eq_getElem _ _ place
  let rest := Buckets.gather (Function.update (fun j => (t.buckets j).live) f.1 []) t.cap
  have changed : ∀ c, (t.setChain f.1 c).content.Perm (c.live ++ rest) := by
    intro c
    unfold content
    rw [live_setChain]
    exact Buckets.gather_update _ found.inside _
  refine ⟨((t.buckets f.1).pri :: (t.buckets f.1).next).eraseIdx f.2 ++ rest, ?_, fun b' new => ?_, ?_⟩
  · refine (Buckets.gather_split (fun j => (t.buckets j).live) found.inside).trans ?_
    rw [live, at_place, ← List.cons_append]
    exact (List.getElem_cons_eraseIdx_perm place).symm.append_right _
  · obtain ⟨c, set, -, cLive⟩ := setBucketAt_live found.occupied new
    rw [set, ← List.cons_append]
    refine (changed c).trans ?_
    rw [cLive]
    exact (List.set_perm_cons_eraseIdx place b').append_right _
  · obtain ⟨c, free, unlinked, -, cLive⟩ := bucketNodeUnlink_live shape found.occupied
    rw [unlinked, ← cLive]
    exact changed c

theorem Found.mem_live (found : Found hash t key f) :
    ∀ b' ∈ (t.buckets f.1).pri :: (t.buckets f.1).next, b' ∈ (t.buckets f.1).live := by
  intro b' member
  rw [Chain.live_of_occupied found.occupied]
  exact member

theorem Found.shape_set (found : Found hash t key f) (shape : Shape hash t) (sound : b.Sound hash)
    (home : t.Home b.word f.1) : Shape hash (t.setBucketAt f b) := by
  obtain ⟨c, set, occupied, cLive⟩ := setBucketAt_live found.occupied sound.occupied
  rw [set]
  refine shape.setChain found.inside (fun empty => by simp [occupied] at empty) fun b' member => ?_
  rw [cLive] at member
  rcases List.mem_or_eq_of_mem_set member with old | rfl
  · exact shape.sound f.1 b' (found.mem_live b' old)
  · exact ⟨sound, home⟩

theorem Found.shape_unlink (found : Found hash t key f) (shape : Shape hash t) : Shape hash (t.bucketNodeUnlink f) := by
  obtain ⟨c, free, unlinked, rooted, cLive⟩ := bucketNodeUnlink_live shape found.occupied
  have changed : Shape hash (t.setChain f.1 c) := by
    refine shape.setChain found.inside rooted fun b' member => ?_
    rw [cLive] at member
    exact shape.sound f.1 b' (found.mem_live b' (List.mem_of_mem_eraseIdx member))
  rw [unlinked]
  exact ⟨changed.pow, changed.rehash, changed.beyond, changed.rooted, changed.sound⟩

theorem chainNodeInsert_eq {i : Nat} : ∃ pool free, t.chainNodeInsert i b true =
    some { t.setChain i ((t.buckets i).add b) with ovfPoolCap := pool, ovfFree := free } := by
  unfold chainNodeInsert
  simp only
  split
  next empty => exact ⟨t.ovfPoolCap, t.ovfFree, by rw [Chain.add_of_empty empty]; rfl⟩
  next occupied =>
    rw [Chain.add_of_occupied occupied]
    unfold ovfBucketAlloc
    simp only [if_true]
    split
    · exact ⟨_, _, rfl⟩
    · exact ⟨_, _, rfl⟩

theorem view_missing (missing : ∀ b ∈ t.content, b.key ≠ key) : t.view key = none := by
  have absent : (t.content.find? fun b => b.key = key) = none := List.find?_eq_none.2 (by simpa using missing)
  simp [view, absent]

section View

variable (inv : Inv hash t)

include inv

theorem Inv.view_found (found : Found hash t key f) : t.view key = (t.bucketAt f).entry := by
  obtain ⟨others, perm, -, -⟩ := found.split inv.shape
  rw [view_of_perm inv.distinct perm]
  simp [found.keyed]

theorem Inv.view_short {v : Entry} (entry : t.view key = some v) : v.obj.Short ∧ v.obj.objKeyGet = key := by
  obtain ⟨b, found, bound⟩ := Option.bind_eq_some_iff.1 entry
  obtain ⟨i, -, live⟩ := mem_content.1 (List.mem_of_find?_eq_some found)
  obtain ⟨o, obj, short⟩ := (inv.shape.sound i b live).1.obj
  have keyed : b.key = key := by simpa using List.find?_some found
  simp only [Bucket.entry, obj, Option.map_some, Option.some.injEq] at bound
  subst bound
  exact ⟨short, by rw [← keyed]; simp [Bucket.key, obj]⟩

theorem Inv.set (found : Found hash t key f) (sound : b.Sound hash) (keyed : b.key = key) (home : t.Home b.word f.1) :
    Inv hash (t.setBucketAt f b) ∧ (t.setBucketAt f b).view = Function.update t.view key b.entry := by
  obtain ⟨others, perm, replaced, -⟩ := found.split inv.shape
  have after := replaced b sound.occupied
  have before : ((t.bucketAt f :: others).map Bucket.key).Nodup := (perm.map _).nodup_iff.1 inv.distinct
  have distinct : ((b :: others).map Bucket.key).Nodup := by
    simpa only [List.map_cons, keyed, found.keyed] using before
  have used : (t.setBucketAt f b).used = (b :: others).length := by
    have kept : (t.setBucketAt f b).used = t.used := by
      obtain ⟨c, set, -⟩ := setBucketAt_live found.occupied sound.occupied
      rw [set]
      rfl
    rw [kept, inv.counted, perm.length_eq]
    rfl
  have inv' := Inv.of_perm (found.shape_set inv.shape sound home) after distinct used
  refine ⟨inv', funext fun k => ?_⟩
  rw [view_of_perm inv'.distinct after]
  by_cases same : k = key
  · subst same
    simp [keyed]
  · rw [Function.update_of_ne same, view_of_perm inv.distinct perm]
    simp [keyed, found.keyed, Ne.symm same]

theorem Inv.unlink (found : Found hash t key f) :
    Inv hash (t.bucketNodeUnlink f) ∧ (t.bucketNodeUnlink f).view = t.view.remove key := by
  obtain ⟨others, perm, -, after⟩ := found.split inv.shape
  have before : ((t.bucketAt f :: others).map Bucket.key).Nodup := (perm.map _).nodup_iff.1 inv.distinct
  rw [List.map_cons, List.nodup_cons, found.keyed] at before
  have used : (t.bucketNodeUnlink f).used = others.length := by
    obtain ⟨c, free, unlinked, -⟩ := bucketNodeUnlink_live inv.shape found.occupied
    rw [unlinked]
    change t.used - 1 = _
    rw [inv.counted, perm.length_eq]
    rfl
  have inv' := Inv.of_perm (found.shape_unlink inv.shape) after before.2 used
  refine ⟨inv', funext fun k => ?_⟩
  rw [view_of_perm inv'.distinct after, KeyMap.remove]
  by_cases same : k = key
  · subst same
    have absent : (others.find? fun b => b.key = k) = none :=
      List.find?_eq_none.2 fun b member => by
        have other : b.key ≠ k := fun equal => before.1 (equal ▸ List.mem_map_of_mem member)
        simpa using other
    simp [absent]
  · rw [Function.update_of_ne same, view_of_perm inv.distinct perm]
    simp [found.keyed, Ne.symm same]

theorem Inv.insert (missing : ∀ b ∈ t.content, b.key ≠ key) (sound : b.Sound hash) (keyed : b.key = key) :
    ∃ t', t.chainNodeInsert (bucketIdx b.word t.cap) b true = some t' ∧ Inv hash { t' with used := t'.used + 1 } ∧
      ({ t' with used := t'.used + 1 } : HashTable).view = Function.update t.view key b.entry := by
  obtain ⟨shape, perm⟩ := inv.shape.add sound rfl
  obtain ⟨pool, free, inserted⟩ := chainNodeInsert_eq (t := t) (b := b) (i := bucketIdx b.word t.cap)
  have distinct : ((b :: t.content).map Bucket.key).Nodup := by
    rw [List.map_cons, List.nodup_cons, keyed]
    refine ⟨fun member => ?_, inv.distinct⟩
    obtain ⟨b', inside, same⟩ := List.mem_map.1 member
    exact missing b' inside same
  refine ⟨_, inserted, ?_⟩
  generalize result : ({ t.setChain (bucketIdx b.word t.cap) ((t.buckets (bucketIdx b.word t.cap)).add b) with
    used := t.used + 1, ovfPoolCap := pool, ovfFree := free } : HashTable) = t'
  have perm' : t'.content.Perm (b :: t.content) := by
    rw [← result]
    exact perm
  have shape' : Shape hash t' := by
    rw [← result]
    exact ⟨shape.pow, shape.rehash, shape.beyond, shape.rooted, shape.sound⟩
  have used : t'.used = (b :: t.content).length := by
    rw [← result, List.length_cons, ← inv.counted]
  have inv' := Inv.of_perm shape' perm' distinct used
  subst result
  refine ⟨inv', funext fun k => (view_of_perm inv'.distinct perm' k).trans ?_⟩
  by_cases same : k = key
  · subst same
    simp [keyed]
  · rw [Function.update_of_ne same]
    simp [view, keyed, Ne.symm same]

end View

def Refines (hash : Bytes → BitVec 64) (t : HashTable) (op : Op) : Prop :=
  Inv hash (t.step hash {} op).1 ∧ ((t.step hash {} op).1.view, (t.step hash {} op).2) = t.view.step op

theorem Bucket.Sound.entry (sound : b.Sound hash) : ∃ o, b.obj = some o ∧
    b.entry = some { obj := o, expire := b.expire, locked := htMetaIsLocked b.word } := by
  obtain ⟨o, obj, -⟩ := sound.obj
  exact ⟨o, obj, by simp [Bucket.entry, obj]⟩

theorem Inv.lookup_cases (inv : Inv hash t) (key : ShortKey) :
    (t.lookupKey hash key = none ∧ t.view key = none) ∨
    ∃ f o, t.lookupKey hash key = some f ∧ Found hash t key f ∧ (t.bucketAt f).obj = some o ∧
      t.view key = some { obj := o, expire := (t.bucketAt f).expire, locked := htMetaIsLocked (t.bucketAt f).word } := by
  cases lookup : t.lookupKey hash key with
  | none => exact .inl ⟨rfl, view_missing fun b member => inv.lookup_none key.2 lookup member⟩
  | some f =>
    have found := inv.lookup_some key.2 lookup
    obtain ⟨o, obj, entry⟩ := found.sound.entry
    exact .inr ⟨f, o, rfl, found, obj, (inv.view_found found).trans entry⟩

section Steps

variable (inv : Inv hash t) (key : ShortKey)

include inv

theorem Inv.get_refines (now : Nat) : Refines hash t (.get key now) := by
  refine ⟨inv, ?_⟩
  rcases inv.lookup_cases key with ⟨lookup, view⟩ | ⟨f, o, lookup, found, obj, view⟩
  · simp [step, bucketGet, lookup, KeyMap.step, view]
  · by_cases stale : (t.bucketAt f).expire ≠ 0 ∧ now ≠ 0 ∧ (t.bucketAt f).expire ≤ now
    · simp [step, bucketGet, lookup, KeyMap.step, view, Entry.stale, stale, Option.filter]
    · simp only [step, bucketGet, lookup, stale, if_false, obj, KeyMap.step, view, Entry.stale]
      simp [Option.filter, stale]

theorem Inv.getLazy_cases (now : Nat) :
    (∃ v t', t.view key = some v ∧ v.stale now ∧ v.locked = false ∧
      t.bucketGetLazy hash key now = (t', none, some v.obj) ∧ Inv hash t' ∧ t'.view = t.view.remove key) ∨
    (∀ v, t.view key = some v → v.stale now → v.locked = true) ∧
      t.bucketGetLazy hash key now = (t, (t.view key).map Entry.obj, none) := by
  rcases inv.lookup_cases key with ⟨lookup, view⟩ | ⟨f, o, lookup, found, obj, view⟩
  · simp [bucketGetLazy, lookup, view]
  · obtain ⟨removed, gone⟩ := inv.unlink found
    have stale (locked : Bool) : ({ obj := o, expire := (t.bucketAt f).expire, locked := locked } : Entry).stale now ↔
        ¬((t.bucketAt f).expire = 0 ∨ now = 0 ∨ now < (t.bucketAt f).expire) := by
      simp only [Entry.stale]
      omega
    by_cases live : (t.bucketAt f).expire = 0 ∨ now = 0 ∨ now < (t.bucketAt f).expire
    · simp [bucketGetLazy, lookup, view, stale, live, obj]
    · cases locked : htMetaIsLocked (t.bucketAt f).word with
      | true => simp [bucketGetLazy, lookup, view, live, obj, locked]
      | false =>
        exact .inl ⟨_, _, view, (stale _).2 live, locked, by simp [bucketGetLazy, lookup, live, obj, locked], removed, gone⟩

theorem Inv.getLazy_refines (now : Nat) : Refines hash t (.getLazy key now) := by
  unfold Refines
  rcases inv.getLazy_cases key now with ⟨v, t', view, late, free, taken, inv', view'⟩ | ⟨lasting, kept⟩
  · simp [step, KeyMap.step, view, late, free, taken, inv', view']
  · cases view : t.view key with
    | none => simp [step, KeyMap.step, view, kept, inv]
    | some v =>
      have stays : ¬(v.stale now ∧ ¬v.locked) := by simpa using lasting v view
      simp only [step, KeyMap.step, view, kept, if_neg stays, inv]
      simp

theorem Inv.take_refines : Refines hash t (.take key) := by
  unfold Refines
  rcases inv.lookup_cases key with ⟨lookup, view⟩ | ⟨f, o, lookup, found, obj, view⟩
  · have same : t.view.remove key = t.view := by rw [KeyMap.remove, ← view, Function.update_eq_self]
    simp [step, bucketTake, lookup, KeyMap.step, view, inv, same]
  · obtain ⟨removed, gone⟩ := inv.unlink found
    simp [step, bucketTake, lookup, KeyMap.step, view, removed, gone, obj]

theorem Inv.takeIfUnlocked_cases (expected : Nat) :
    (∃ v t', t.view key = some v ∧ v.obj.addr = expected ∧ v.locked = false ∧
      t.bucketTakeIfUnlocked hash key expected = (t', some v.obj, false) ∧ Inv hash t' ∧ t'.view = t.view.remove key) ∨
    (∀ v, t.view key = some v → v.obj.addr = expected → v.locked = true) ∧
      t.bucketTakeIfUnlocked hash key expected = (t, none, (t.view key).any fun v => v.obj.addr = expected) := by
  rcases inv.lookup_cases key with ⟨lookup, view⟩ | ⟨f, o, lookup, found, obj, view⟩
  · simp [bucketTakeIfUnlocked, lookup, view]
  · obtain ⟨removed, gone⟩ := inv.unlink found
    by_cases other : o.addr = expected
    · cases locked : htMetaIsLocked (t.bucketAt f).word with
      | true => simp [bucketTakeIfUnlocked, lookup, view, obj, other, locked]
      | false =>
        exact .inl ⟨_, _, view, other, locked, by simp [bucketTakeIfUnlocked, lookup, obj, other, locked], removed, gone⟩
    · simp [bucketTakeIfUnlocked, lookup, view, obj, other]

theorem Inv.takeIfUnlocked_refines (expected : Nat) : Refines hash t (.takeIfUnlocked key expected) := by
  unfold Refines
  rcases inv.takeIfUnlocked_cases key expected with ⟨v, t', view, same, free, taken, inv', view'⟩ | ⟨locked, kept⟩
  · simp [step, KeyMap.step, view, same, free, taken, inv', view']
  · cases view : t.view key with
    | none => simp [step, KeyMap.step, view, kept, inv]
    | some v =>
      have stays := locked v view
      by_cases same : v.obj.addr = expected <;> simp_all [step, KeyMap.step]

theorem Inv.delete_refines : Refines hash t (.delete key) := by
  unfold Refines
  rcases inv.lookup_cases key with ⟨lookup, view⟩ | ⟨f, o, lookup, found, obj, view⟩
  · have same : t.view.remove key = t.view := by rw [KeyMap.remove, ← view, Function.update_eq_self]
    simp [step, bucketDelete, lookup, KeyMap.step, view, inv, same]
  · obtain ⟨removed, gone⟩ := inv.unlink found
    simp [step, bucketDelete, lookup, KeyMap.step, view, removed, gone]

theorem Inv.setLockStatus_refines (locked : Bool) : Refines hash t (.setLockStatus key locked) := by
  unfold Refines
  rcases inv.lookup_cases key with ⟨lookup, view⟩ | ⟨f, o, lookup, found, obj, view⟩
  · have same : Function.update t.view key.1 none = t.view := by rw [← view, Function.update_eq_self]
    simp [step, bucketSetLockStatus, lookup, KeyMap.step, view, inv, same]
  · let word := if locked then htMetaLockSet (t.bucketAt f).word else htMetaLockClear (t.bucketAt f).word
    have clear : htMetaLockClear word = htMetaLockClear (t.bucketAt f).word := by
      cases locked
      · exact htMetaLockClear_lockClear _
      · exact htMetaLockClear_lockSet _
    have bit : htMetaIsLocked word = locked := by
      cases locked
      · exact htMetaIsLocked_lockClear _
      · exact htMetaIsLocked_lockSet _
    have sound : ({ t.bucketAt f with word := word } : Bucket).Sound hash :=
      ⟨found.sound.obj, clear.trans found.sound.word⟩
    obtain ⟨inv', changed⟩ := inv.set found sound found.keyed (found.home.congr clear.symm)
    have entry : ({ t.bucketAt f with word := word } : Bucket).entry =
        some { obj := o, expire := (t.bucketAt f).expire, locked := locked } := by
      simp [Bucket.entry, obj, bit]
    rw [entry] at changed
    simp only [step, bucketSetLockStatus, lookup, KeyMap.step, view]
    exact ⟨inv', by rw [changed]; rfl⟩

theorem Inv.isLocked_refines : Refines hash t (.isLocked key) := by
  refine ⟨inv, ?_⟩
  rcases inv.lookup_cases key with ⟨lookup, view⟩ | ⟨f, o, lookup, found, obj, view⟩ <;>
    simp [step, bucketIsLocked, lookup, KeyMap.step, view]

theorem Inv.expireGet_refines : Refines hash t (.expireGet key) := by
  refine ⟨inv, ?_⟩
  rcases inv.lookup_cases key with ⟨lookup, view⟩ | ⟨f, o, lookup, found, obj, view⟩ <;>
    simp [step, HashTable.expireGet, lookup, KeyMap.step, view]

theorem Inv.putPrepare (load tableGrows : Bool) :
    Inv hash (t.putPrepare { load := load, tableGrows := tableGrows }) ∧
      (t.putPrepare { load := load, tableGrows := tableGrows }).view = t.view := by
  have holding : Holding hash t.content t.used t [] := ⟨inv.shape, by simp, by simp, rfl⟩
  obtain ⟨shape, -, perm, used⟩ := holding.putPrepare load tableGrows
  rw [List.append_nil] at perm
  have inv' := Inv.of_perm shape perm inv.distinct (used.trans inv.counted)
  exact ⟨inv', funext fun k => view_of_perm inv'.distinct perm k⟩

end Steps

theorem ShortObj.short (o : ShortObj) : o.obj.Short := ⟨o.keyLen_le, o.keyLen_le_data⟩

def ShortObj.bucket (hash : Bytes → BitVec 64) (o : ShortObj) (expire : Nat) : Bucket :=
  { word := metaFor hash o.obj.objKeyGet, expire := expire, obj := some o.obj }

theorem ShortObj.sound_bucket (o : ShortObj) (expire : Nat) : (o.bucket hash expire).Sound hash :=
  ⟨⟨o.obj, rfl, o.short⟩, lockClear_htMetaPack _⟩

theorem ShortObj.entry_bucket (o : ShortObj) (expire : Nat) :
    (o.bucket hash expire).entry = some { obj := o.obj, expire := expire, locked := false } := by
  have unlocked : htMetaIsLocked (metaFor hash o.obj.objKeyGet) = false :=
    (congrArg htMetaIsLocked (lockClear_htMetaPack _)).symm.trans (htMetaIsLocked_lockClear _)
  simp [Bucket.entry, bucket, unlocked]

theorem Inv.put_refines (inv : Inv hash t) (obj : ShortObj) (expire : Nat) (flags : PutFlags) (load : Bool) :
    Refines hash t (.put obj expire flags load) := by
  obtain ⟨inv', same⟩ := inv.putPrepare load true
  unfold Refines
  simp only [step, bucketPut, putInto, KeyMap.step, KeyMap.put]
  rw [← same]
  generalize t.putPrepare { load := load } = t' at inv' ⊢
  have sound : (obj.bucket hash expire).Sound hash := obj.sound_bucket expire
  have keyed : (obj.bucket hash expire).key = obj.obj.objKeyGet := rfl
  rcases inv'.lookup_cases obj.key with ⟨lookup, view⟩ | ⟨f, o, lookup, found, old, view⟩
  · have missing : t'.lookupKey hash obj.obj.objKeyGet = none := lookup
    have absent : t'.view obj.obj.objKeyGet = none := view
    obtain ⟨t'', inserted, inv'', changed⟩ :=
      inv'.insert (fun b' member => inv'.lookup_none obj.key.2 lookup member) sound keyed
    simp only [missing, absent, Option.isSome_none, Option.isNone_none]
    split
    · exact ⟨inv', rfl⟩
    · simp only [show t'.chainNodeInsert (bucketIdx (metaFor hash obj.obj.objKeyGet) t'.cap)
        { word := metaFor hash obj.obj.objKeyGet, expire := expire, obj := some obj.obj } true = some t'' from inserted]
      exact ⟨inv'', by rw [changed, obj.entry_bucket]; rfl⟩
  · have present : t'.lookupKey hash obj.obj.objKeyGet = some f := lookup
    have bound : t'.view obj.obj.objKeyGet = some _ := view
    have home : t'.Home (obj.bucket hash expire).word f.1 := by
      have moved := found.sound.home found.home
      rw [found.keyed] at moved
      exact moved
    obtain ⟨inv'', changed⟩ := inv'.set found sound keyed home
    simp only [present, bound, Option.isSome_some, Option.isNone_some]
    split
    · exact ⟨inv', rfl⟩
    · rw [obj.entry_bucket] at changed
      exact ⟨inv'', by rw [old]; exact congrArg₂ Prod.mk changed rfl⟩

theorem Inv.step_refines (inv : Inv hash t) (op : Op) : Refines hash t op := by
  cases op with
  | put obj expire flags load => exact inv.put_refines obj expire flags load
  | get key now => exact inv.get_refines key now
  | getLazy key now => exact inv.getLazy_refines key now
  | take key => exact inv.take_refines key
  | takeIfUnlocked key expected => exact inv.takeIfUnlocked_refines key expected
  | delete key => exact inv.delete_refines key
  | setLockStatus key locked => exact inv.setLockStatus_refines key locked
  | isLocked key => exact inv.isLocked_refines key
  | expireGet key => exact inv.expireGet_refines key

theorem Inv.run_refines (inv : Inv hash t) (ops : List Op) :
    Inv hash (t.run hash ops).1 ∧ ((t.run hash ops).1.view, (t.run hash ops).2) = t.view.run ops := by
  induction ops generalizing t with
  | nil => exact ⟨inv, rfl⟩
  | cons op ops ih =>
    obtain ⟨inv', one⟩ := inv.step_refines op
    obtain ⟨inv'', rest⟩ := ih inv'
    have view : (t.step hash {} op).1.view = (t.view.step op).1 := congrArg Prod.fst one
    have result : (t.step hash {} op).2 = (t.view.step op).2 := congrArg Prod.snd one
    rw [view] at rest
    simp only [HashTable.run, KeyMap.run, ← rest, result]
    exact ⟨inv'', trivial⟩

section Create

def Spread (w : Nat) (x y : BitVec 64) : Prop := ∀ i, y.getLsbD i = true ↔ ∃ d < w, x.getLsbD (i + d) = true

theorem Spread.refl (x : BitVec 64) : Spread 1 x x := by
  intro i
  constructor
  · exact fun bit => ⟨0, by omega, bit⟩
  · rintro ⟨d, zero, bit⟩
    rwa [show d = 0 by omega] at bit

theorem Spread.double {w : Nat} {x y : BitVec 64} (spread : Spread w x y) : Spread (w + w) x (y ||| y >>> w) := by
  intro i
  rw [BitVec.getLsbD_or, BitVec.getLsbD_ushiftRight, Bool.or_eq_true, spread i, spread (w + i)]
  constructor
  · rintro (⟨d, inside, bit⟩ | ⟨d, inside, bit⟩)
    · exact ⟨d, by omega, bit⟩
    · exact ⟨w + d, by omega, by rwa [show i + (w + d) = w + i + d by omega]⟩
  · rintro ⟨d, inside, bit⟩
    by_cases near : d < w
    · exact .inl ⟨d, near, bit⟩
    · exact .inr ⟨d - w, by omega, by rwa [show w + i + (d - w) = i + d by omega]⟩

theorem Spread.pow {x y : BitVec 64} (spread : Spread 64 x y) :
    ∃ k, y.toNat + 1 = 2 ^ k ∧ x.toNat < 2 ^ k ∧ (k = 0 ∨ 2 ^ (k - 1) ≤ x.toNat) := by
  by_cases zero : x.toNat = 0
  · refine ⟨0, ?_, by omega, .inl rfl⟩
    have none : y = 0 := by
      apply BitVec.eq_of_getLsbD_eq
      intro i inside
      have bit : ¬y.getLsbD i = true := by
        rw [spread i]
        rintro ⟨d, -, bit⟩
        simp [BitVec.getLsbD, zero] at bit
      simpa using bit
    simp [none]
  · refine ⟨x.toNat.log2 + 1, ?_, Nat.lt_log2_self, .inr (Nat.log2_self_le zero)⟩
    have top : x.toNat.log2 < 64 := (Nat.log2_lt zero).2 x.isLt
    have word : y.toNat = 2 ^ (x.toNat.log2 + 1) - 1 := by
      apply Nat.eq_of_testBit_eq
      intro i
      rw [Nat.testBit_two_pow_sub_one]
      have bit : y.toNat.testBit i = true ↔ ∃ d < 64, x.toNat.testBit (i + d) = true := spread i
      by_cases below : i < x.toNat.log2 + 1
      · have set : y.toNat.testBit i = true :=
          bit.2 ⟨x.toNat.log2 - i, by omega, by
            rw [show i + (x.toNat.log2 - i) = x.toNat.log2 by omega]
            exact Nat.testBit_log2 zero⟩
        rw [set, decide_eq_true below]
      · have clear : ¬y.toNat.testBit i = true := by
          rw [bit]
          rintro ⟨d, -, set⟩
          have small : x.toNat < 2 ^ (i + d) :=
            lt_of_lt_of_le Nat.lt_log2_self (Nat.pow_le_pow_right (by omega) (by omega))
          rw [Nat.testBit_lt_two_pow small] at set
          cases set
        rw [decide_eq_false below]
        simpa using clear
    rw [word, Nat.sub_add_cancel (Nat.one_le_two_pow)]

theorem pow2Next_spec {n : BitVec 64} (some : n ≠ 0) :
    ∃ k, (pow2Next n).toNat = 2 ^ k % 2 ^ 64 ∧ (n.toNat ≤ 2 ^ 58 ↔ k ≤ 58) := by
  obtain ⟨k, word, below, least⟩ := (Spread.refl (n - 1)).double.double.double.double.double.double.pow
  have positive : 0 < n.toNat := Nat.pos_of_ne_zero fun zero => some (BitVec.eq_of_toNat_eq zero)
  have before : (n - 1).toNat = n.toNat - 1 := BitVec.toNat_sub_of_le (BitVec.le_def.2 positive)
  rw [before] at below least
  refine ⟨k, ?_, fun small => ?_, fun small => ?_⟩
  · rw [pow2Next, if_neg some, ← word]
    exact BitVec.toNat_add _ _
  · rcases least with zero | least
    · omega
    · have exponent : 2 ^ (k - 1) < 2 ^ 58 := by omega
      have := (Nat.pow_lt_pow_iff_right (by decide)).1 exponent
      omega
  · have := Nat.pow_le_pow_right (show 0 < 2 by decide) small
    omega

theorem initialBuckets_spec (initialCap : BitVec 64) :
    ∃ k, initialBuckets initialCap = 2 ^ k % 2 ^ 64 ∧ (initialCap.toNat ≤ 2 ^ 58 ↔ k ≤ 58) := by
  unfold initialBuckets
  split
  next small =>
    obtain ⟨k, cap, bound⟩ := pow2Next_spec (n := htMinBuckets) (by decide)
    refine ⟨k, cap, iff_of_true ?_ (bound.1 (by decide))⟩
    have less : initialCap.toNat < 16 := small
    omega
  next large =>
    refine pow2Next_spec fun zero => large ?_
    rw [zero]
    decide

variable {initialCap : BitVec 64}

theorem tableCreate_of_le (small : initialCap.toNat ≤ 2 ^ 58) (created : tableCreate initialCap = some t) :
    ∃ k ≤ 30, t = newTable (2 ^ k) := by
  obtain ⟨k, cap, bound⟩ := initialBuckets_spec initialCap
  have few : 2 ^ k ≤ 2 ^ 58 := Nat.pow_le_pow_right (by decide) (bound.1 small)
  rw [Nat.mod_eq_of_lt (by omega)] at cap
  simp only [tableCreate, cap, linearArenaGrow, bucketBytes, Option.ite_none_right_eq_some, Option.some.injEq, Bool.or_eq_true,
    Bool.and_true, decide_eq_true_eq, Nat.mod_eq_of_lt (show 2 ^ k * 32 < 2 ^ 64 by omega)] at created
  obtain ⟨fits, rfl⟩ := created
  have room : 2 ^ k < 2 ^ 31 := by
    have positive := Nat.two_pow_pos k
    have : arenaHalf < 2 ^ 36 := by decide
    omega
  exact ⟨k, Nat.le_of_lt_succ ((Nat.pow_lt_pow_iff_right (by decide)).1 room), rfl⟩

theorem tableCreate_of_lt (large : 2 ^ 58 < initialCap.toNat) (created : tableCreate initialCap = some t) :
    t.cap = 0 ∨ t.committedBuckets = 0 := by
  obtain ⟨k, cap, bound⟩ := initialBuckets_spec initialCap
  have many : 59 ≤ k := by omega
  simp only [tableCreate, Option.ite_none_right_eq_some, Option.some.injEq] at created
  obtain ⟨-, rfl⟩ := created
  by_cases all : 64 ≤ k
  · refine .inl (cap.trans (Nat.mod_eq_zero_of_dvd (Nat.pow_dvd_pow 2 all)))
  · have less : 2 ^ k < 2 ^ 64 := Nat.pow_lt_pow_right (by decide) (by omega)
    rw [Nat.mod_eq_of_lt less] at cap
    -- the 64 bits of the size are all shifted out
    have none : bucketBytes (2 ^ k) = 0 := by
      rw [bucketBytes, show 32 = 2 ^ 5 from rfl, ← pow_add]
      exact Nat.mod_eq_zero_of_dvd (Nat.pow_dvd_pow 2 (by omega))
    refine .inr ?_
    simp only [committedBuckets, newTable, cap, committedBytes, none]
    decide

theorem Shape.inside (shape : Shape hash t) : 0 < t.cap ∧ t.cap ≤ t.committedBuckets := by
  obtain ⟨k, small, pow⟩ := shape.pow
  have positive := Nat.two_pow_pos k
  have few : 2 ^ k ≤ 2 ^ 30 := Nat.pow_le_pow_right (by decide) small
  rw [committedBuckets, committedBytes, bucketBytes, pow]
  omega

theorem Inv.newTable (hash : Bytes → BitVec 64) {cap : Nat} (pow : ∃ k ≤ 30, cap = 2 ^ k) : Inv hash (newTable cap) := by
  have empty : (HashTable.newTable cap).content = [] := by
    unfold content Buckets.gather
    rw [List.flatMap_eq_nil_iff]
    intro i _
    rfl
  refine ⟨⟨pow, ?_, fun _ _ => rfl, fun _ _ => rfl, fun i b member => ?_⟩, ?_, ?_⟩
  · rintro r rehash
    cases rehash
  · cases member
  · simp [empty]
  · rw [empty]
    rfl

theorem view_newTable (cap : Nat) : (newTable cap).view = KeyMap.empty := by
  funext key
  have none : (newTable cap).content = [] := by
    unfold content Buckets.gather
    rw [List.flatMap_eq_nil_iff]
    intro i _
    rfl
  simp [view, none, KeyMap.empty]

theorem Inv.tableCreate (hash : Bytes → BitVec 64) (small : initialCap.toNat ≤ 2 ^ 58)
    (created : tableCreate initialCap = some t) : Inv hash t ∧ t.view = KeyMap.empty := by
  obtain ⟨k, few, rfl⟩ := tableCreate_of_le small created
  exact ⟨.newTable hash ⟨k, few, rfl⟩, view_newTable _⟩

end Create

def Occupied (t : HashTable) (f : Nat × Nat) : Prop :=
  f.2 < ((t.buckets f.1).pri :: (t.buckets f.1).next).length ∧ htMetaEmpty (t.bucketAt f).word = false

section Occupied

variable (inv : Inv hash t) {g : Nat × Nat}

include inv

theorem Inv.occupied_live (occupied : t.Occupied f) : (t.buckets f.1).live = (t.buckets f.1).pri :: (t.buckets f.1).next ∧
    t.bucketAt f ∈ (t.buckets f.1).live ∧ f.1 < t.cap := by
  obtain ⟨place, word⟩ := occupied
  have at_place : t.bucketAt f = ((t.buckets f.1).pri :: (t.buckets f.1).next)[f.2] := List.getD_eq_getElem _ _ place
  have rooted : htMetaEmpty (t.buckets f.1).pri.word = false := by
    cases empty : htMetaEmpty (t.buckets f.1).pri.word with
    | false => rfl
    | true =>
      have short := place
      rw [inv.shape.rooted f.1 empty, List.length_singleton, Nat.lt_one_iff] at short
      rw [at_place] at word
      simp only [short, List.getElem_cons_zero, empty] at word
      exact word
  have live := Chain.live_of_occupied rooted
  have member : t.bucketAt f ∈ (t.buckets f.1).live := by
    rw [live, at_place]
    exact List.getElem_mem place
  exact ⟨live, member, inv.shape.live_lt member⟩

theorem Inv.chain_of_key (first : t.Occupied f) (second : t.Occupied g) (same : (t.bucketAt f).key = (t.bucketAt g).key) :
    f.1 = g.1 := by
  obtain ⟨-, member, inside⟩ := inv.occupied_live first
  obtain ⟨-, member', inside'⟩ := inv.occupied_live second
  by_contra apart
  have split := (Buckets.gather_split (fun j => (t.buckets j).live) inside).map Bucket.key
  have distinct := split.nodup_iff.1 inv.distinct
  rw [List.map_append, List.nodup_append] at distinct
  refine distinct.2.2 _ (List.mem_map_of_mem member) _ (List.mem_map_of_mem ?_) same
  refine Buckets.mem_gather.2 ⟨g.1, inside', ?_⟩
  rw [Function.update_of_ne (Ne.symm apart)]
  exact member'

theorem Inv.place_of_key (first : t.Occupied f) (second : t.Occupied g) (same : (t.bucketAt f).key = (t.bucketAt g).key) :
    f = g := by
  have chain := inv.chain_of_key first second same
  obtain ⟨i, place⟩ := f
  obtain ⟨j, place'⟩ := g
  simp only at chain
  subst chain
  obtain ⟨live, -, inside⟩ := inv.occupied_live first
  have split := (Buckets.gather_split (fun j => (t.buckets j).live) inside).map Bucket.key
  have distinct := split.nodup_iff.1 inv.distinct
  rw [List.map_append, List.nodup_append] at distinct
  have nodup := distinct.1
  simp only [live] at nodup
  have bound := first.1
  have bound' := second.1
  simp only at bound bound'
  have at_first : t.bucketAt (i, place) = ((t.buckets i).pri :: (t.buckets i).next)[place] := List.getD_eq_getElem _ _ bound
  have at_second : t.bucketAt (i, place') = ((t.buckets i).pri :: (t.buckets i).next)[place'] :=
    List.getD_eq_getElem _ _ bound'
  rw [at_first, at_second] at same
  have inMap : place < (((t.buckets i).pri :: (t.buckets i).next).map Bucket.key).length := by
    rw [List.length_map]
    exact bound
  have inMap' : place' < (((t.buckets i).pri :: (t.buckets i).next).map Bucket.key).length := by
    rw [List.length_map]
    exact bound'
  have keys : (((t.buckets i).pri :: (t.buckets i).next).map Bucket.key)[place] =
      (((t.buckets i).pri :: (t.buckets i).next).map Bucket.key)[place'] := by
    rw [List.getElem_map, List.getElem_map]
    exact same
  have equal := nodup.getElem_inj_iff.1 keys
  rw [equal]

theorem Inv.keys_eq : { key | t.view key ≠ none } = ((t.content.map Bucket.key).toFinset : Set Bytes) := by
  ext key
  simp only [Set.mem_ofPred_eq, List.coe_toFinset, List.mem_map]
  constructor
  · intro bound
    unfold view at bound
    cases found : t.content.find? fun b => b.key = key with
    | none => simp [found] at bound
    | some b => exact ⟨b, List.mem_of_find?_eq_some found, by simpa using List.find?_some found⟩
  · rintro ⟨b, member, rfl⟩
    obtain ⟨i, -, live⟩ := mem_content.1 member
    obtain ⟨o, -, entry⟩ := (inv.shape.sound i b live).1.entry
    have found := (Buckets.find?_eq_some_iff_of_nodup inv.distinct).2 ⟨member, rfl⟩
    simp [view, found, entry]

theorem Inv.finite_keys : { key | t.view key ≠ none }.Finite := inv.keys_eq ▸ Finset.finite_toSet _

theorem Inv.used_eq_ncard : t.used = { key | t.view key ≠ none }.ncard := by
  rw [inv.keys_eq, Set.ncard_coe_finset, List.toFinset_card_of_nodup inv.distinct, List.length_map, inv.counted]

end Occupied

structure Represents (t : HashTable) (m : KeyMap) : Prop where
  single : ∀ f g, t.Occupied f → t.Occupied g → (t.bucketAt f).key = (t.bucketAt g).key → f = g
  rooted : ∀ i, htMetaEmpty (t.buckets i).pri.word = true → (t.buckets i).next = []
  counted : t.used = { key | m key ≠ none }.ncard

theorem Inv.run_represents (inv : Inv hash t) (empty : t.view = KeyMap.empty) (ops : List Op) :
    (t.run hash ops).2 = (KeyMap.empty.run ops).2 ∧ (t.run hash ops).1.Represents (KeyMap.empty.run ops).1 := by
  obtain ⟨inv', same⟩ := inv.run_refines ops
  rw [empty] at same
  refine ⟨congrArg Prod.snd same, fun f g => inv'.place_of_key, inv'.shape.rooted, ?_⟩
  rw [inv'.used_eq_ncard, ← show _ = (KeyMap.empty.run ops).1 from congrArg Prod.fst same]

/-- After every sequence of operations: the array has a bucket and is committed as far as `cap` says, the results were
those of the map, each key has one place, an empty primary bucket has no chain, and the count is right. -/
structure Serves (hash : Bytes → BitVec 64) (t : HashTable) : Prop where
  inside : ∀ ops, 0 < (t.run hash ops).1.cap ∧ (t.run hash ops).1.cap ≤ (t.run hash ops).1.committedBuckets
  results : ∀ ops, (t.run hash ops).2 = (KeyMap.empty.run ops).2
  represents : ∀ ops, (t.run hash ops).1.Represents (KeyMap.empty.run ops).1

theorem tableCreate_serves_iff (hash : Bytes → BitVec 64) {initialCap : BitVec 64}
    (created : tableCreate initialCap = some t) : Serves hash t ↔ initialCap.toNat ≤ 2 ^ 58 := by
  constructor
  · intro serves
    by_contra large
    have inside : 0 < t.cap ∧ t.cap ≤ t.committedBuckets := serves.inside []
    rcases tableCreate_of_lt (Nat.lt_of_not_le large) created with zero | none <;> omega
  · intro small
    obtain ⟨inv, empty⟩ := Inv.tableCreate hash small created
    exact ⟨fun ops => (inv.run_refines ops).1.shape.inside, fun ops => (inv.run_represents empty ops).1,
      fun ops => (inv.run_represents empty ops).2⟩

theorem tableCreate_serves : ∃ t, tableCreate 8192 = some t ∧ Serves (fun _ => 0) t :=
  ⟨newTable 8192, rfl, (tableCreate_serves_iff _ (show tableCreate 8192 = _ from rfl)).2 (by decide)⟩

theorem tableCreate_uncommitted : ∃ t, tableCreate 0x800000000000000 = some t ∧ t.cap = 2 ^ 59 ∧ t.committedBuckets = 0 ∧
    ∀ hash, ¬Serves hash t := by
  have cap : initialBuckets 0x800000000000000 = 2 ^ 59 := by decide
  have grown : linearArenaGrow 0 (bucketBytes (2 ^ 59)) true = true := by decide
  have none : (newTable (2 ^ 59)).committedBuckets = 0 := by decide
  refine ⟨newTable (2 ^ 59), by simp only [tableCreate, cap, grown, if_true], rfl, none, fun hash serves => ?_⟩
  have inside : 2 ^ 59 ≤ (newTable (2 ^ 59)).committedBuckets := (serves.inside []).2
  rw [none] at inside
  exact absurd inside (by decide)

end FreakV.HashTable
