import FreakV.HashTable.Eviction

namespace FreakV.HashTable

variable {hash : Bytes → BitVec 64} {t : HashTable} {b : Bucket} {i : Nat} {key : Bytes}

theorem lookupEntry_congr {t' : HashTable} (buckets : t'.buckets = t.buckets) (cap : t'.cap = t.cap)
    (oldCap : t'.oldCap = t.oldCap) (rehashIdx : t'.rehashIdx = t.rehashIdx) (key : Bytes) :
    t'.lookupEntry hash key = t.lookupEntry hash key := by
  unfold lookupEntry lookupKey keyLookup bucketAt
  rw [buckets, cap, oldCap, rehashIdx]

def hungAt (t : HashTable) (i : Nat) (b : Bucket) : HashTable :=
  t.setChain i { t.buckets i with next := (t.buckets i).next ++ [b] }

def routes (t : HashTable) (word : BitVec 64) : List Nat :=
  match t.rehashIdx with
  | none => [bucketIdx word t.cap]
  | some r =>
    if bucketIdx word t.oldCap < r then [bucketIdx word t.cap] else [bucketIdx word t.oldCap, bucketIdx word t.cap]

theorem keyLookup_eq (t : HashTable) (word : BitVec 64) (key : Bytes) : t.keyLookup word key =
    (t.routes word).findSome? fun idx => (chainNodeFind (t.buckets idx) word key).map fun place => (idx, place) := by
  have single (idx : Nat) : [idx].findSome? (fun idx => (chainNodeFind (t.buckets idx) word key).map fun place => (idx, place)) =
      (chainNodeFind (t.buckets idx) word key).map fun place => (idx, place) := by
    rw [List.findSome?_cons, List.findSome?_nil]
    cases (chainNodeFind (t.buckets idx) word key).map fun place => (idx, place) <;> rfl
  unfold keyLookup routes
  cases t.rehashIdx with
  | none => exact (single _).symm
  | some r =>
    dsimp only
    split
    · exact (single _).symm
    · rw [List.findSome?_cons, single]
      cases (chainNodeFind (t.buckets (bucketIdx word t.oldCap)) word key).map _ <;> rfl

theorem mem_routes (t : HashTable) (word : BitVec 64) : bucketIdx word t.cap ∈ t.routes word := by
  unfold routes
  split
  · simp
  · split <;> simp

theorem chainNodeFind_hung (c : Chain) (b : Bucket) (word : BitVec 64) (key : Bytes) :
    chainNodeFind { c with next := c.next ++ [b] } word key =
      (chainNodeFind c word key).or (if b.holds word key then some (c.next.length + 1) else none) := by
  unfold chainNodeFind
  rw [← List.cons_append, List.findIdx?_append]
  congr 1
  cases holds : b.holds word key <;> simp [holds]

theorem find_hungAt (t : HashTable) (i j : Nat) (b : Bucket) (word : BitVec 64) (key : Bytes) :
    chainNodeFind ((t.hungAt i b).buckets j) word key = (chainNodeFind (t.buckets j) word key).or
      (if j = i ∧ b.holds word key then some ((t.buckets i).next.length + 1) else none) := by
  change chainNodeFind (Function.update t.buckets i _ j) word key = _
  by_cases here : j = i
  · subst here
    rw [Function.update_self, chainNodeFind_hung]
    simp
  · rw [Function.update_of_ne here]
    simp [here]

theorem findSome?_only {A B : Type} {g : A → Option B} {l : List A} {x : A} {v : B} (there : x ∈ l) (found : g x = some v)
    (only : ∀ y ∈ l, ∀ w, g y = some w → w = v) : l.findSome? g = some v := by
  cases result : l.findSome? g with
  | none => rw [List.findSome?_eq_none_iff.1 result x there] at found; cases found
  | some w =>
    obtain ⟨y, inside, at_⟩ := List.exists_of_findSome?_eq_some result
    rw [only y inside w at_]

theorem bucketAt_hungAt {f : Nat × Nat} (within : f.2 ≤ (t.buckets f.1).next.length) :
    (t.hungAt i b).bucketAt f = t.bucketAt f := by
  unfold bucketAt
  change ((Function.update t.buckets i _ f.1).pri :: (Function.update t.buckets i _ f.1).next).getD f.2 {} = _
  by_cases here : f.1 = i
  · rw [here] at within ⊢
    rw [Function.update_self, ← List.cons_append, List.getD_append _ _ _ _ (Nat.lt_succ_iff.2 within)]
  · rw [Function.update_of_ne here]

theorem bucketAt_hungAt_new : (t.hungAt i b).bucketAt (i, (t.buckets i).next.length + 1) = b := by
  unfold bucketAt
  change ((Function.update t.buckets i _ i).pri :: (Function.update t.buckets i _ i).next).getD _ {} = _
  rw [Function.update_self, List.getD_cons_succ, List.getD_append_right _ _ _ _ (Nat.le_refl _), Nat.sub_self]
  rfl

theorem lookupEntry_hungAt (sound : b.Sound hash) (missing : t.lookupKey hash b.key = none) (short : key.length ≤ 65535)
    (home : i = bucketIdx (metaFor hash b.key) t.cap) :
    (t.hungAt i b).lookupEntry hash key = if key = b.key then b.entry else t.lookupEntry hash key := by
  have holds := Bucket.holds_iff sound short
  unfold lookupEntry
  split
  next same =>
    subst same
    have absent (j : Nat) (there : j ∈ t.routes (metaFor hash b.key)) :
        chainNodeFind (t.buckets j) (metaFor hash b.key) b.key = none := by
      rw [lookupKey, keyLookup_eq] at missing
      exact Option.map_eq_none_iff.1 (List.findSome?_eq_none_iff.1 missing j there)
    have found : (t.hungAt i b).lookupKey hash b.key = some (i, (t.buckets i).next.length + 1) := by
      rw [lookupKey, keyLookup_eq]
      have there : i ∈ t.routes (metaFor hash b.key) := home ▸ mem_routes t _
      refine findSome?_only there ?_ fun j inside w at_ => ?_
      · rw [find_hungAt, absent i there, if_pos ⟨rfl, holds.2 rfl⟩]
        rfl
      · rw [find_hungAt, absent j inside, Option.none_or] at at_
        split at at_
        next here =>
          rw [here.1] at at_
          exact (Option.some.inj at_).symm
        · cases at_
    rw [found, Option.bind_some, bucketAt_hungAt_new]
  next other =>
    have differs : b.holds (metaFor hash key) key = false := by
      cases same : b.holds (metaFor hash key) key with
      | false => rfl
      | true => exact absurd (holds.1 same).symm other
    have lookup : (t.hungAt i b).lookupKey hash key = t.lookupKey hash key := by
      rw [lookupKey, lookupKey, keyLookup_eq, keyLookup_eq]
      simp only [find_hungAt, differs, Bool.false_eq_true, and_false, if_false, Option.or_none]
      rfl
    rw [lookup]
    cases found : t.lookupKey hash key with
    | none => rfl
    | some f => rw [Option.bind_some, Option.bind_some, bucketAt_hungAt (lookup_place hash found)]

end FreakV.HashTable

namespace FreakV.NamedTable

open HashTable Linked Threads

variable {hash : Bytes → BitVec 64} {p : NamedTable} {lists : Slot → List Nat} {t t' : HashTable} {victims : List RawObj}
  {b e : Bucket} {i n : Nat}

section Entries

def Gone (victims : List RawObj) (e : Bytes × Entry) : Prop :=
  e.2.locked = false ∧ ∃ o ∈ victims, o.objKeyGet = e.1 ∧ e.2.obj.addr = o.addr

theorem mem_findable_iff (inv : Inv hash t) (e : Bytes × Entry) :
    e ∈ findable hash t ↔ ∃ b ∈ t.content, b.key = e.1 ∧ b.entry = some e.2 := by
  rw [inv.mem_findable]
  constructor
  · intro found
    obtain ⟨b, there, entry⟩ := Option.bind_eq_some_iff.1 found
    exact ⟨b, List.mem_of_find?_eq_some there, by simpa using List.find?_some there, entry⟩
  · rintro ⟨b, inside, keyed, entry⟩
    rw [view, (Buckets.find?_eq_some_iff_of_nodup inv.distinct).2 ⟨inside, keyed⟩]
    exact entry

theorem evicts_iff_gone {v : Entry} (entry : b.entry = some v) : Evicts victims b ↔ Gone victims (b.key, v) := by
  obtain ⟨o, obj, rfl⟩ := Option.map_eq_some_iff.1 entry
  simp only [Evicts, Gone, obj, Option.map_some, Option.some.injEq]

theorem Evicted.mem_content (inv : Inv hash t) (evicted : Evicted hash victims t t') :
    b ∈ t'.content ↔ b ∈ t.content ∧ ¬Evicts victims b := by
  simp only [HashTable.mem_content]
  constructor
  · rintro ⟨i, inside, there⟩
    have before := (evicted.fewer i).subset there
    exact ⟨⟨i, inv.shape.live_lt before, before⟩, (evicted.mem i b before).1 there⟩
  · rintro ⟨⟨i, inside, there⟩, stays⟩
    have after := (evicted.mem i b there).2 stays
    exact ⟨i, evicted.inv.shape.live_lt after, after⟩

theorem Evicted.findable_eq (inv : Inv hash t) (evicted : Evicted hash victims t t') :
    findable hash t' = { e ∈ findable hash t | ¬Gone victims e } := by
  ext e
  rw [mem_findable_iff evicted.inv]
  simp only [evicted.mem_content inv, mem_findable_iff inv]
  constructor
  · rintro ⟨b, ⟨inside, stays⟩, keyed, entry⟩
    refine ⟨⟨b, inside, keyed, entry⟩, ?_⟩
    rw [evicts_iff_gone entry, keyed] at stays
    exact stays
  · rintro ⟨⟨b, inside, keyed, entry⟩, stays⟩
    refine ⟨b, ⟨inside, ?_⟩, keyed, entry⟩
    rw [evicts_iff_gone entry, keyed]
    exact stays

theorem finite_findable (inv : Inv hash t) : (findable hash t).Finite := by
  refine (List.finite_toSet (t.content.filterMap fun b => b.entry.map fun v => (b.key, v))).subset fun e there => ?_
  obtain ⟨b, inside, keyed, entry⟩ := (mem_findable_iff inv e).1 there
  exact List.mem_filterMap.2 ⟨b, inside, by rw [entry, keyed]; rfl⟩

theorem tailStays_iff (inv : Inv hash t) (evicted : Evicted hash victims t t')
    (occupied : htMetaEmpty (t.buckets i).pri.word = false) (last : (t.buckets i).next.getLast? = some e) :
    TailStays victims (t.buckets i) ↔ 2 ≤ (t'.buckets i).live.length ∧ e ∈ (t'.buckets i).live := by
  obtain ⟨front, next⟩ := List.getLast?_eq_some_iff.1 last
  have live : (t.buckets i).live = ((t.buckets i).pri :: front) ++ [e] := by
    rw [Chain.live_of_occupied occupied, next]
    rfl
  have nodup := live_nodup inv i
  have stays := evicted.mem i
  have sub := evicted.fewer i
  have nodup' := nodup.sublist sub
  rw [live] at nodup stays sub
  have other {b : Bucket} (there : b ∈ (t.buckets i).pri :: front) : b ≠ e :=
    (List.nodup_append.1 nodup).2.2 b there e (List.mem_singleton_self e)
  have unfold_ : TailStays victims (t.buckets i) ↔
      ¬Evicts victims e ∧ ∃ b ∈ (t.buckets i).pri :: front, ¬Evicts victims b := by
    simp [TailStays, next]
  rw [unfold_, ← stays e (by simp)]
  generalize (t'.buckets i).live = left at *
  constructor
  · rintro ⟨kept, b, there, evicts⟩
    refine ⟨?_, kept⟩
    have inside := (stays b (List.mem_append_left _ there)).2 evicts
    have apart := other there
    rcases left with _ | ⟨x, _ | ⟨y, rest⟩⟩
    · cases kept
    · exact absurd ((List.mem_singleton.1 inside).trans (List.mem_singleton.1 kept).symm) apart
    · simp
  · rintro ⟨two, kept⟩
    refine ⟨kept, ?_⟩
    obtain ⟨b, inside, apart⟩ : ∃ b ∈ left, b ≠ e := by
      rcases left with _ | ⟨x, _ | ⟨y, rest⟩⟩
      · simp at two
      · simp at two
      · by_cases same : x = e
        · refine ⟨y, by simp, fun again => ?_⟩
          exact (List.nodup_cons.1 nodup').1 (by simp [same, again])
        · exact ⟨x, by simp, same⟩
    have before := sub.subset inside
    refine ⟨b, ?_, (stays b before).1 inside⟩
    exact (List.mem_append.1 before).resolve_right fun final => apart (List.mem_singleton.1 final)

end Entries

section Put

variable {start : Option Nat} {aside : List Bucket} {m : Nat} {front back : List Nat}

theorem Models.hangFree (models : Models p start lists aside t) (loose : Loose p lists n) (ends : p.link n = none)
    (free : lists .free = front ++ m :: back) :
    Models (p.setNext (.ovf m) (some n)) start (Function.update lists .free (front ++ [m] ++ [n])) aside
      { t with ovfFree := (front ++ [m] ++ [n]).length } := by
  obtain ⟨names, shows_⟩ := models
  have path := names.path .free
  have nodup := names.spread.nodup .free
  rw [free] at path nodup
  have there : m ∈ lists .free := by rw [free]; simp
  have links {k : Nat} (other : k ≠ m) : (p.setNext (.ovf m) (some n)).link k = p.link k := by
    rw [setNext_link, if_neg (by simpa using other.symm)]
  have shorter := names.spread.shorten (show (front ++ [m]).Sublist (lists .free) by
    rw [free]
    exact List.Sublist.append_left (by simp) front)
  have spread : Spread (· < p.ovfPoolCap) (Function.update lists .free (front ++ [m] ++ [n])) := by
    have absent (s : Slot) : n ∉ Function.update lists .free (front ++ [m]) s := by
      rw [mem_update]
      split
      · intro member
        refine loose.absent .free ?_
        rw [free]
        simp only [List.mem_append, List.mem_cons] at member ⊢
        tauto
      · exact loose.absent s
    have entered := shorter.enter absent loose.inside
      (List.perm_append_singleton n (Function.update lists .free (front ++ [m]) .free))
    rwa [Function.update_self, Function.update_idem] at entered
  have names' : Names (p.setNext (.ovf m) (some n)) start (Function.update lists .free (front ++ [m] ++ [n])) := by
    refine names.change spread ?_ (fun s away => ?_) (fun {s k} away inside => links ?_) rfl
    · obtain ⟨middle, ahead, rfl, -⟩ := path_append.1 path
      have apart (k : Nat) (inside : k ∈ front) : k ≠ m := (List.nodup_append.1 nodup).2.2 k inside m List.mem_cons_self
      refine path_concat.2 ⟨path_concat.2 ⟨ahead.congr fun k inside => links (apart k inside), ?_⟩, ?_⟩
      · rw [setNext_link, if_pos rfl]
      · have other : n ≠ m := fun same => loose.absent .free (by rw [same]; exact there)
        rw [links other]
        exact ends
    · cases s with
      | free => exact absurd rfl away
      | hand => rfl
      | chain j => rfl
    · rintro rfl
      exact away (names.spread.apart inside there)
  have result := Models.keepChains ⟨names, shows_⟩ names' rfl shows_.aside (fun _ there => there)
    (fun j => Function.update_of_ne (by simp) _ _) (fun j => rfl) fun _ _ => setNext_ovf_bucket _ _ _ _
  rw [Function.update_self] at result
  exact result

theorem Models.insertBehind (models : Models p start lists aside t) (top : lists .free = n :: back) (behind : m ∈ back)
    (b : Bucket) : ∃ lists' count, Models (p.insertAt n (.ovf m) b) start lists' aside { t with ovfFree := count } := by
  obtain ⟨front, rest, split⟩ := List.append_of_mem behind
  have loose : Loose p _ _ := models.names.loose (show lists .free = [] ++ n :: back from top) rfl
  have filled := (models.popFree top).fill ⟨loose.inside, loose.absent⟩ { bucket := b, next := none }
  have ends : ((p.popFree n).setOvf n { bucket := b, next := none }).link n = none := by
    change (Function.update (p.popFree n).ovf _ _ _).next = none
    rw [Function.update_self]
  exact ⟨_, _, filled.hangFree ⟨loose.inside, loose.absent⟩ ends ((Function.update_self ..).trans split)⟩

structure Survives (hash : Bytes → BitVec 64) (p p' : NamedTable) (victims : List RawObj) (new : Bytes × Entry) : Prop where
  entries : findable hash p'.counted = insert new { e ∈ findable hash p.counted | ¬Gone victims e }
  used : p'.used = (findable hash p'.counted).ncard
  apart : ∀ i, ∀ n ∈ p'.chain i, n ∉ p'.freeList

theorem Evicted.missing (inv : Inv hash t) (evicted : Evicted hash victims t t') {key : Bytes} (short : key.length ≤ 65535)
    (missing : t.lookupKey hash key = none) : t'.lookupKey hash key = none := by
  cases found : t'.lookupKey hash key with
  | none => rfl
  | some f =>
    have found := evicted.inv.lookup_some short found
    have there := (evicted.fewer f.1).subset (bucketAt_live found)
    exact absurd found.keyed (inv.lookup_none short missing (HashTable.mem_content.2 ⟨f.1, inv.shape.live_lt there, there⟩))

theorem survives_hung {p' : NamedTable} {lists' : Slot → List Nat} {count pool : Nat} (inv : Inv hash t)
    (evicted : Evicted hash victims t t') (sound : b.Sound hash) {v : Entry} (entry : b.entry = some v)
    (missing : t.lookupKey hash b.key = none) (counted : p.counted = t)
    (models : Models p' none lists' [] { t'.hungAt (bucketIdx (metaFor hash b.key) t'.cap) b with
      used := t'.used + 1, ovfPoolCap := pool, ovfFree := count }) :
    Survives hash p p' victims (b.key, v) := by
  have short := sound.key_short
  have gone := evicted.missing inv short missing
  have table := models.counted_eq
  have lookup {key : Bytes} (fits : key.length ≤ 65535) : p'.counted.lookupEntry hash key =
      if key = b.key then b.entry else t'.lookupEntry hash key := by
    rw [table, ← lookupEntry_hungAt sound gone fits rfl]
    exact lookupEntry_congr rfl rfl rfl rfl key
  have absent : t'.lookupEntry hash b.key = none := by rw [lookupEntry, gone]; rfl
  have all : findable hash p'.counted = insert (b.key, v) (findable hash t') := by
    ext ⟨key, w⟩
    simp only [findable, Set.mem_ofPred_eq, Set.mem_insert_iff, Prod.mk.injEq]
    constructor
    · rintro ⟨fits, found⟩
      rw [lookup fits] at found
      split at found
      next same =>
        rw [entry] at found
        exact .inl ⟨same, (Option.some.inj found).symm⟩
      · exact .inr ⟨fits, found⟩
    · rintro (⟨rfl, rfl⟩ | ⟨fits, found⟩)
      · exact ⟨short, by rw [lookup short, if_pos rfl, entry]⟩
      · refine ⟨fits, ?_⟩
        rw [lookup fits, if_neg, found]
        rintro rfl
        rw [absent] at found
        cases found
  have new : (b.key, v) ∉ findable hash t' := by
    rintro ⟨-, found⟩
    rw [absent] at found
    cases found
  refine ⟨?_, ?_, fun i n there free => ?_⟩
  · rw [all, evicted.findable_eq inv, counted]
  · rw [all, Set.ncard_insert_of_notMem new (finite_findable evicted.inv), evicted.inv.ncard_findable, ← evicted.inv.counted]
    exact models.shows_.used_eq.symm
  · rw [models.names.chain_eq] at there
    rw [models.names.freeList_eq] at free
    cases models.names.spread.apart there free

theorem not_survives {p' : NamedTable} {lists' : Slot → List Nat} {count pool : Nat} (inv : Inv hash t)
    (evicted : Evicted hash victims t t') {v : Entry} (short : b.key.length ≤ 65535)
    (missing : t.lookupKey hash b.key = none)
    (models : Models p' none lists' [] { t' with used := t'.used + 1, ovfPoolCap := pool, ovfFree := count }) :
    ¬Survives hash p p' victims (b.key, v) := by
  intro survives
  have there : (b.key, v) ∈ findable hash p'.counted := by rw [survives.entries]; exact Set.mem_insert _ _
  have lookup : p'.counted.lookupEntry hash b.key = t'.lookupEntry hash b.key := by
    rw [models.counted_eq]
    exact lookupEntry_congr rfl rfl rfl rfl b.key
  have found : p'.counted.lookupEntry hash b.key = some v := there.2
  rw [lookup, lookupEntry, evicted.missing inv short missing] at found
  cases found

theorem Models.remember (models : Models p start lists aside t) :
    Models { p with used := p.used + 1 } start lists aside { t with used := t.used + 1 } := by
  have shows_ := models.shows_
  refine models.resize rfl rfl rfl (Nat.le_refl _) rfl ?_ rfl
  simp only [HashTable.sizes, NamedTable.sizes, shows_.used_eq, shows_.cap_eq, shows_.oldCap_eq,
    shows_.rehashIdx_eq, shows_.rehashDisabled_eq, shows_.ovfPoolCap_eq]

theorem Models.evict_pool (models : Models p start lists aside t) (inv : Inv hash t) (short : ∀ o ∈ victims, o.Short) :
    (p.evict hash victims).ovfPoolCap = p.ovfPoolCap := by
  obtain ⟨listsE, tE, modelsE, evicted, -, -⟩ := models.evict inv short
  rw [← modelsE.shows_.ovfPoolCap_eq, evicted.pool, models.shows_.ovfPoolCap_eq]

theorem Models.grown_top (models : Models p start lists aside t) (inv : Inv hash t) (short : ∀ o ∈ victims, o.Short) :
    ((p.evict hash victims).growPool p.grownCap).ovfFree = some (p.grownCap - 1) := by
  obtain ⟨listsE, tE, modelsE, -, -, -⟩ := models.evict inv short
  have wider : (p.evict hash victims).ovfPoolCap < p.grownCap := models.evict_pool inv short ▸ p.lt_grownCap
  obtain ⟨others, top⟩ := grownFree_eq wider (listsE .free)
  have path := (modelsE.growPool wider.le).names.path .free
  rw [top, Function.update_self] at path
  exact path.1

theorem insert_survives_iff {growth : PoolGrowth} (models : Models p none lists [] t) (inv : Inv hash t)
    (short : ∀ o ∈ growth.victims, o.Short) (grows : growth.grows = true)
    (occupied : htMetaEmpty (p.pri i).bucket.word = false) (full : p.ovfFree = none) (sound : b.Sound hash)
    {v : Entry} (entry : b.entry = some v) (missing : t.lookupKey hash b.key = none)
    (home : i = bucketIdx (metaFor hash b.key) p.cap) :
    Survives hash p { (p.chainNodeInsert hash i b growth).1 with used := (p.chainNodeInsert hash i b growth).1.used + 1 }
      growth.victims (b.key, v) ↔ TailStays growth.victims (t.buckets i) := by
  obtain ⟨listsE, tE, modelsE, evicted, fewer, ends⟩ := models.evict inv short
  have wider : (p.evict hash growth.victims).ovfPoolCap < p.grownCap := models.evict_pool inv short ▸ p.lt_grownCap
  have grown := modelsE.growPool wider.le
  obtain ⟨others, top⟩ := grownFree_eq wider (listsE .free)
  rw [top] at grown
  rw [chainNodeInsert_grown hash growth occupied full grows (models.grown_top inv short)]
  have cap : p.cap = tE.cap := by rw [evicted.cap, models.shows_.cap_eq]
  rw [cap] at home
  generalize (p.evict hash growth.victims).growPool p.grownCap = q at grown ⊢
  -- the end of the chain is still its end
  have good (same : q.tail i = p.tail i) : Survives hash p
      { q.insertAt (p.grownCap - 1) (p.tail i) b with used := (q.insertAt (p.grownCap - 1) (p.tail i) b).used + 1 }
      growth.victims (b.key, v) := by
    have inserted := (grown.insertTop (Function.update_self ..) i b).remember
    rw [same] at inserted
    subst home
    exact survives_hung inv evicted sound entry missing models.counted_eq inserted
  -- it is free
  have bad {m : Nat} (last : p.tail i = .ovf m) (free : m ∈ listsE .free) : ¬Survives hash p
      { q.insertAt (p.grownCap - 1) (p.tail i) b with used := (q.insertAt (p.grownCap - 1) (p.tail i) b).used + 1 }
      growth.victims (b.key, v) := by
    have there : m ∈ (p.grownCap - 1) :: others := by rw [← top]; exact List.mem_append_right _ free
    have other : m ≠ p.grownCap - 1 := by
      have inside := modelsE.names.spread.inside free
      omega
    obtain ⟨lists', count, hung⟩ :=
      grown.insertBehind (Function.update_self ..) ((List.mem_cons.1 there).resolve_left other) b
    rw [last]
    exact not_survives inv evicted sound.key_short missing hung.remember
  have chain : Function.update listsE .free ((p.grownCap - 1) :: others) (.chain i) = listsE (.chain i) :=
    Function.update_of_ne (by simp) _ _
  rw [models.names.tail_eq] at good bad
  rw [grown.names.tail_eq, chain] at good
  have names := models.next_eq i
  have pri := models.pri_eq i
  rcases List.eq_nil_or_concat' (lists (.chain i)) with empty | ⟨front, m, concat⟩
  · -- the primary bucket is the end
    have none_ : listsE (.chain i) = [] := List.sublist_nil.1 (empty ▸ fewer i)
    rw [empty, List.map_nil] at names
    refine ⟨fun _ => by simp [TailStays, names], fun _ => ?_⟩
    rw [models.names.tail_eq]
    exact good (by rw [none_, empty])
  · rw [concat, List.map_append, List.map_cons, List.map_nil] at names
    have last : (t.buckets i).next.getLast? = some (p.ovf m).bucket := by rw [names, List.getLast?_concat]
    have live := Chain.live_of_occupied (show htMetaEmpty (t.buckets i).pri.word = false from pri ▸ occupied)
    have before : EndsOrFree lists t i m (p.ovf m).bucket := by
      rw [EndsOrFree, live, names, if_pos ⟨by simp, by simp⟩, concat]
      exact ⟨by simp, by rw [← List.cons_append, List.getLast?_concat]⟩
    have after := ends i m _ before
    rw [tailStays_iff inv evicted (pri ▸ occupied) last, models.names.tail_eq]
    rw [EndsOrFree] at after
    split at after
    next kept =>
      obtain ⟨others, still⟩ := List.getLast?_eq_some_iff.1 after.1
      exact iff_of_true (good (by rw [still, concat, lastOf_concat, lastOf_concat])) kept
    next gone => exact iff_of_false (bad (by rw [concat, lastOf_concat]) after) gone

def newIdx (hash : Bytes → BitVec 64) (p : NamedTable) (obj : RawObj) : Nat := bucketIdx (metaFor hash obj.objKeyGet) p.cap

theorem bucketPut_survives_iff (whole : Whole p none [] p.counted) (inv : Inv hash p.counted) (obj : ShortObj) (expire : Nat)
    {flags : PutFlags} (inserts : flags ≠ .xx) {g : PutGrowth} (ticks : ∀ i, g.ticks i = {}) (grows : g.insert.grows = true)
    (short : ∀ o ∈ g.insert.victims, o.Short) (new : p.lookupKey hash obj.obj.objKeyGet = none)
    (occupied : htMetaEmpty ((p.putPrepare hash g).pri (newIdx hash (p.putPrepare hash g) obj.obj)).bucket.word = false)
    (full : (p.putPrepare hash g).ovfFree = none) :
    Survives hash p (p.bucketPut hash obj.obj expire flags g).1 g.insert.victims
        (obj.obj.objKeyGet, { obj := obj.obj, expire := expire, locked := false }) ↔
      TailStays g.insert.victims ((p.putPrepare hash g).counted.buckets (newIdx hash (p.putPrepare hash g) obj.obj)) := by
  have prepared : Whole (p.putPrepare hash g) none [] _ := whole.putPrepare fun i => by rw [ticks i]
  have all : (fun i => (g.ticks i).grows) = fun _ => true := funext fun i => by rw [ticks i]
  have plain : p.counted.putPrepare g.grants = p.counted.putPrepare { load := g.load, tableGrows := g.tableGrows } := by
    rw [PutGrowth.grants, all]
    rfl
  rw [plain] at prepared
  obtain ⟨inv', same⟩ := inv.putPrepare g.load g.tableGrows
  rw [prepared.counted_eq]
  generalize p.counted.putPrepare { load := g.load, tableGrows := g.tableGrows } = t at *
  have missing : t.lookupKey hash obj.obj.objKeyGet = none := by
    rcases inv'.lookup_cases obj.key with ⟨none_, -⟩ | ⟨f, o, -, -, -, bound⟩
    · exact none_
    · rcases inv.lookup_cases obj.key with ⟨-, absent⟩ | ⟨f', -, found, -⟩
      · rw [same, absent] at bound
        cases bound
      · cases new.symm.trans found
  have entries : findable hash p.counted = findable hash (p.putPrepare hash g).counted := by
    ext e
    rw [prepared.counted_eq, inv.mem_findable, inv'.mem_findable, same]
  rw [NamedTable.bucketPut]
  generalize p.putPrepare hash g = q at *
  let b : Bucket := { word := metaFor hash obj.obj.objKeyGet, expire := expire, obj := some obj.obj }
  have sound : b.Sound hash := obj.sound_bucket expire
  have lookup : q.lookupKey hash obj.obj.objKeyGet = none := (prepared.lookup_eq _).trans missing
  obtain ⟨lists, models, -⟩ := prepared
  have done := chainNodeInsert_grown (b := b) hash g.insert occupied full grows (models.grown_top inv' short)
  have result : (q.putInto hash obj.obj expire flags g.insert).1 =
      { (q.chainNodeInsert hash (newIdx hash q obj.obj) b g.insert).1 with
        used := (q.chainNodeInsert hash (newIdx hash q obj.obj) b g.insert).1.used + 1 } := by
    simp only [NamedTable.putInto, lookup, Option.isSome_none, Option.isNone_none, Bool.false_eq_true, and_false, inserts,
      false_and, or_false, if_false]
    rw [show q.chainNodeInsert hash (bucketIdx (metaFor hash obj.obj.objKeyGet) q.cap) b g.insert = _ from done, done]
  have iff_ := insert_survives_iff models inv' short grows occupied full sound (obj.entry_bucket expire) missing rfl
  rw [← result] at iff_
  rw [← iff_]
  constructor
  · rintro ⟨found, used, apart⟩
    exact ⟨found.trans (by rw [entries]; rfl), used, apart⟩
  · rintro ⟨found, used, apart⟩
    exact ⟨found.trans (by rw [entries]; rfl), used, apart⟩

end Put

section Runs

def fullPool : NamedTable :=
  ((newTable 16).run firstByte (putAll ((List.range 17).map fun n => twoBytes 17 (UInt8.ofNat n)))).1

theorem Whole.fullPool : Whole fullPool none [] fullPool.counted ∧ Inv firstByte fullPool.counted := by
  have ran : Whole NamedTable.fullPool none [] _ := ((Whole.newTable 16).run _).1
  have inv := (inv_newTable16.run_refines (putAll ((List.range 17).map fun n => twoBytes 17 (UInt8.ofNat n)))).1
  rw [← ran.counted_eq] at inv ran
  exact ⟨ran, inv⟩

def putEvicting (victim : UInt8) : NamedTable × PutResult :=
  fullPool.bucketPut firstByte (twoBytes 17 100).obj 0 .none { insert := { victims := [(twoBytes 17 victim).obj] } }

theorem bucketPut_survives_first : Survives firstByte fullPool (putEvicting 0).1 [(twoBytes 17 0).obj]
    ((twoBytes 17 100).obj.objKeyGet, { obj := (twoBytes 17 100).obj, expire := 0, locked := false }) := by
  let g : PutGrowth := { insert := { victims := [(twoBytes 17 0).obj] } }
  obtain ⟨whole, inv⟩ := Whole.fullPool
  have new : fullPool.lookupKey firstByte (twoBytes 17 100).obj.objKeyGet = none := by decide +kernel
  have occupied : htMetaEmpty ((fullPool.putPrepare firstByte g).pri
      (newIdx firstByte (fullPool.putPrepare firstByte g) (twoBytes 17 100).obj)).bucket.word = false := by decide +kernel
  have full : (fullPool.putPrepare firstByte g).ovfFree = none := by decide +kernel
  have stays : TailStays [(twoBytes 17 0).obj] ((fullPool.putPrepare firstByte g).counted.buckets
      (newIdx firstByte (fullPool.putPrepare firstByte g) (twoBytes 17 100).obj)) := by decide +kernel
  rw [putEvicting]
  generalize fullPool = p at *
  have short : ∀ o ∈ g.insert.victims, o.Short := by
    intro o there
    rw [List.mem_singleton.1 there]
    exact (twoBytes 17 0).short
  exact (bucketPut_survives_iff whole inv (twoBytes 17 100) 0 (by decide) (fun _ => rfl) rfl short new occupied full).2 stays

theorem bucketPut_loses_entry : fullPool.ovfFree = none ∧ fullPool.used = 17 ∧
    (fullPool.counted.lookupEntry firstByte [17, 16]).map (fun v => (v.obj, v.locked)) = some ((twoBytes 17 16).obj, false) ∧
    (putEvicting 16).2 = .inserted ∧ (putEvicting 16).1.used = 17 ∧
    (putEvicting 16).1.counted.lookupEntry firstByte [17, 100] = none := by
  decide +kernel

end Runs

end FreakV.NamedTable
