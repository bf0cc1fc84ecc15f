import FreakV.HashTable.NamedRuns
import FreakV.HashTable.Flush
import FreakV.Lib.Transition

namespace FreakV.HashTable

variable {hash : Bytes → BitVec 64} {t t' : HashTable} {n : Nat}

def recount (t : HashTable) (n : Nat) : HashTable := { t with used := n }

structure Kept (hash : Bytes → BitVec 64) (t : HashTable) : Prop where
  shape : Shape hash t
  distinct : (t.content.map Bucket.key).Nodup
  settled : t.rehashIdx = none → t.oldCap = 0

theorem Kept.inv (kept : Kept hash t) : Inv hash (t.recount t.content.length) :=
  ⟨⟨kept.shape.pow, kept.shape.rehash, kept.shape.beyond, kept.shape.rooted, kept.shape.sound⟩, kept.distinct, rfl⟩

theorem Kept.of_inv (inv : Inv hash (t.recount n)) (settled : t.rehashIdx = none → t.oldCap = 0) : Kept hash t :=
  ⟨⟨inv.shape.pow, inv.shape.rehash, inv.shape.beyond, inv.shape.rooted, inv.shape.sound⟩, inv.distinct, settled⟩

section Recount

variable (t) (n)

structure Apart (first second : HashTable) : Prop where
  same : ∃ m, first = second.recount m
  rehashIdx : second.rehashIdx = t.rehashIdx
  oldCap : second.oldCap = t.oldCap

theorem apart_refl : Apart t (t.recount n) t := ⟨⟨n, rfl⟩, rfl, rfl⟩

theorem apart_unlink (f : Nat × Nat) : Apart t ((t.recount n).bucketNodeUnlink f) (t.bucketNodeUnlink f) := by
  obtain ⟨i, place⟩ := f
  cases place with
  | zero =>
    have same : ((t.recount n).buckets i).next = (t.buckets i).next := rfl
    simp only [bucketNodeUnlink, same]
    cases (t.buckets i).next with
    | nil => exact ⟨⟨n - 1, rfl⟩, rfl, rfl⟩
    | cons s rest => exact ⟨⟨n - 1, rfl⟩, rfl, rfl⟩
  | succ k => exact ⟨⟨n - 1, rfl⟩, rfl, rfl⟩

theorem apart_setBucketAt (f : Nat × Nat) (b : Bucket) : Apart t ((t.recount n).setBucketAt f b) (t.setBucketAt f b) := by
  obtain ⟨i, place⟩ := f
  cases place <;> exact ⟨⟨n, rfl⟩, rfl, rfl⟩

theorem apart_step {op : Op} (notPut : ∀ obj expire flags load, op ≠ .put obj expire flags load) :
    Apart t ((t.recount n).step hash {} op).1 (t.step hash {} op).1 := by
  have lookup (key : Bytes) : (t.recount n).lookupKey hash key = t.lookupKey hash key := rfl
  have bucket (f : Nat × Nat) : (t.recount n).bucketAt f = t.bucketAt f := rfl
  cases op with
  | put obj expire flags load => exact absurd rfl (notPut obj expire flags load)
  | get key now => exact apart_refl t n
  | getLazy key now =>
    simp only [step, bucketGetLazy, lookup, bucket]
    cases t.lookupKey hash key with
    | none => exact apart_refl t n
    | some f =>
      dsimp only
      split
      · exact apart_refl t n
      · split
        · exact apart_refl t n
        · exact apart_unlink t n f
  | take key =>
    simp only [step, bucketTake, lookup]
    cases t.lookupKey hash key with
    | none => exact apart_refl t n
    | some f => exact apart_unlink t n f
  | takeIfUnlocked key expected =>
    simp only [step, bucketTakeIfUnlocked, lookup, bucket]
    cases t.lookupKey hash key with
    | none => exact apart_refl t n
    | some f =>
      dsimp only
      split
      · exact apart_refl t n
      · split
        · exact apart_refl t n
        · exact apart_unlink t n f
  | delete key =>
    simp only [step, bucketDelete, lookup]
    cases t.lookupKey hash key with
    | none => exact apart_refl t n
    | some f => exact apart_unlink t n f
  | setLockStatus key locked =>
    simp only [step, bucketSetLockStatus, lookup, bucket]
    cases t.lookupKey hash key with
    | none => exact apart_refl t n
    | some f => exact apart_setBucketAt t n f _
  | isLocked key => exact apart_refl t n
  | expireGet key => exact apart_refl t n

end Recount

theorem Kept.apart {first second : HashTable} (kept : Kept hash t) (apart : Apart t first second) (inv : Inv hash first) :
    Kept hash second := by
  obtain ⟨⟨m, rfl⟩, rehashIdx, oldCap⟩ := apart
  refine .of_inv inv fun idle => ?_
  rw [oldCap]
  exact kept.settled (rehashIdx ▸ idle)

section Put

variable {grows : Bool}

theorem relinkAll_rehashIdx (chain : List Bucket) (t : HashTable) :
    (chain.foldl relinkOverflow t).rehashIdx = t.rehashIdx := by
  induction chain generalizing t with
  | nil => rfl
  | cons b chain ih =>
    refine (ih (t.relinkOverflow b)).trans ?_
    unfold relinkOverflow
    dsimp only
    split <;> rfl

theorem rehashBucket_rehashIdx (t : HashTable) (i : Nat) (grows : Bool) : (t.rehashBucket i grows).rehashIdx = some (i + 1) := by
  by_cases vacant : htMetaEmpty (t.buckets i).pri.word = true
  · rw [rehashBucket_empty vacant]
    rfl
  · rw [rehashBucket_occupied vacant, relinkAll_rehashIdx]
    split
    · rfl
    · exact (movePrimary_rest (t.setAside i) i (t.buckets i).pri grows).2.2.2

theorem rounds_idle {ticks : Nat → Bool} {steps : Nat} (idle : (rehashBuckets ticks steps t).rehashIdx = none) :
    rehashBuckets ticks steps t = t := by
  induction steps generalizing t with
  | zero => rfl
  | succ steps ih =>
    rw [rehashBuckets] at idle ⊢
    cases round : t.rehashIdx with
    | none => rfl
    | some i =>
      simp only [round] at idle ⊢
      split
      next inside =>
        rw [if_pos inside] at idle
        have same := ih idle
        rw [same, rehashBucket_rehashIdx] at idle
        cases idle
      · rfl

theorem Kept.rehashTick (kept : Kept hash t) (ticks : Nat → Bool) : Kept hash (t.rehashTick ticks) := by
  obtain ⟨lost, moved, -⟩ := kept.shape.tick ticks
  refine ⟨moved.shape, ?_, ?_⟩
  · have keys : (((t.rehashTick ticks).content ++ lost).map Bucket.key).Nodup :=
      (moved.perm.map _).nodup_iff.2 kept.distinct
    rw [List.map_append] at keys
    exact (List.nodup_append.1 keys).1
  · intro idle
    unfold HashTable.rehashTick at idle ⊢
    cases round : (rehashBuckets ticks htRehashStep t).rehashIdx with
    | none =>
      have same := rounds_idle round
      rw [same] at round
      simp only [same, round]
      exact kept.settled round
    | some i =>
      simp only [round] at idle ⊢
      split
      · rfl
      next going =>
        rw [if_neg going, round] at idle
        cases idle

theorem Kept.rehashStart (kept : Kept hash t) (idle : t.rehashIdx = none) (grows : Bool) : Kept hash (t.rehashStart grows) := by
  have holding : Holding hash t.content t.used t [] := ⟨kept.shape, by simp, by simp, rfl⟩
  have started := holding.rehashStart idle grows
  have perm := started.perm
  rw [List.append_nil] at perm
  refine ⟨started.shape, (perm.map _).nodup_iff.2 kept.distinct, fun none_ => ?_⟩
  rcases rehashStart_cases kept.shape.pow grows with ⟨-, same⟩ | same <;> rw [same] at none_ ⊢
  · cases none_
  · exact kept.settled none_

theorem Kept.putPrepare (kept : Kept hash t) (g : Growth) : Kept hash (t.putPrepare g) := by
  have ticked : Kept hash (if t.rehashIdx.isSome then t.rehashTick g.ticks else t) := by
    split
    · exact kept.rehashTick g.ticks
    · exact kept
  rw [HashTable.putPrepare]
  generalize (if t.rehashIdx.isSome then t.rehashTick g.ticks else t) = t' at ticked ⊢
  split
  next start => exact ticked.rehashStart start.2.1 g.tableGrows
  · exact ticked

theorem insert_recount (t : HashTable) (n i : Nat) (b : Bucket) (grows : Bool) :
    (t.recount n).chainNodeInsert i b grows = (t.chainNodeInsert i b grows).map fun t => t.recount n := by
  have same : (t.recount n).buckets = t.buckets := rfl
  have free : (t.recount n).ovfFree = t.ovfFree := rfl
  simp only [chainNodeInsert, ovfBucketAlloc, same, free]
  split
  · rfl
  · split
    · cases grows <;> rfl
    · rfl

theorem insert_granted {i : Nat} {b : Bucket} (inserted : t.chainNodeInsert i b grows = some t') :
    t.chainNodeInsert i b true = some t' ∧ t'.rehashIdx = t.rehashIdx ∧ t'.oldCap = t.oldCap := by
  have rest : t'.rehashIdx = t.rehashIdx ∧ t'.oldCap = t.oldCap := by
    unfold chainNodeInsert ovfBucketAlloc at inserted
    dsimp only at inserted
    split at inserted
    · cases inserted; exact ⟨rfl, rfl⟩
    · obtain ⟨t₁, alloc, rfl⟩ := Option.map_eq_some_iff.1 inserted
      split at alloc
      · split at alloc
        · cases alloc; exact ⟨rfl, rfl⟩
        · cases alloc
      · cases alloc; exact ⟨rfl, rfl⟩
  refine ⟨?_, rest⟩
  cases grows with
  | true => exact inserted
  | false =>
    cases vacant : htMetaEmpty (t.buckets i).pri.word with
    | true => rw [NamedTable.counted_insert_vacant vacant] at inserted ⊢; exact inserted
    | false =>
      by_cases free : t.ovfFree = 0
      · rw [NamedTable.counted_insert_refused vacant free] at inserted
        cases inserted
      · rw [NamedTable.counted_insert_top vacant free] at inserted ⊢
        exact inserted

theorem Kept.putInto (kept : Kept hash t) (obj : ShortObj) (expire : Nat) (flags : PutFlags) (grows : Bool) :
    Kept hash (t.putInto hash obj.obj expire flags grows).1 := by
  let b : Bucket := { word := metaFor hash obj.obj.objKeyGet, expire := expire, obj := some obj.obj }
  have sound : b.Sound hash := obj.sound_bucket expire
  have inv := kept.inv
  have lookup : (t.recount t.content.length).lookupKey hash obj.obj.objKeyGet = t.lookupKey hash obj.obj.objKeyGet := rfl
  unfold HashTable.putInto
  dsimp only
  split
  · exact kept
  · rcases inv.lookup_cases obj.key with ⟨missing, -⟩ | ⟨f, o, present, found, -, -⟩
    · have missing' := missing
      rw [show (obj.key : Bytes) = obj.obj.objKeyGet from rfl, lookup] at missing'
      rw [missing']
      dsimp only
      cases inserted : t.chainNodeInsert (bucketIdx (metaFor hash obj.obj.objKeyGet) t.cap) b grows with
      | none => exact kept
      | some t' =>
        obtain ⟨granted, rehashIdx, oldCap⟩ := insert_granted inserted
        obtain ⟨t'', done, inv', -⟩ := inv.insert (fun b' member => inv.lookup_none obj.key.2 missing member) sound rfl
        have copied := insert_recount t t.content.length (bucketIdx b.word t.cap) b true
        rw [granted, Option.map_some] at copied
        cases copied.symm.trans done
        refine .of_inv inv' fun idle => ?_
        exact oldCap.trans (kept.settled (rehashIdx ▸ idle))
    · have present' := present
      rw [show (obj.key : Bytes) = obj.obj.objKeyGet from rfl, lookup] at present'
      rw [present']
      have home : (t.recount t.content.length).Home b.word f.1 := by
        have moved := found.sound.home found.home
        rw [found.keyed] at moved
        exact moved
      exact kept.apart (apart_setBucketAt t _ f b) (inv.set found sound rfl home).1

theorem Kept.step (kept : Kept hash t) (g : Growth) (op : Op) : Kept hash (t.step hash g op).1 := by
  have others (notPut : ∀ obj expire flags load, op ≠ .put obj expire flags load) : Kept hash (t.step hash {} op).1 :=
    kept.apart (apart_step t _ notPut) (kept.inv.step_refines op).1
  cases op with
  | put obj expire flags load => exact (kept.putPrepare _).putInto obj expire flags g.insert
  | _ => exact others (by simp)

end Put

end FreakV.HashTable

namespace FreakV.HashTable

variable {hash : Bytes → BitVec 64} {t t' : HashTable} {freed : List RawObj}

section Flush

theorem flushLoop_recount (ns : List Nat) (t : HashTable) (n : Nat) (freed : List RawObj) :
    ns.foldl (fun (t, freed) i => (t.flushChain i, freed ++ (t.buckets i).objects)) (t.recount n, freed) =
      ((ns.foldl (fun (t, freed) i => (t.flushChain i, freed ++ (t.buckets i).objects)) (t, freed)).1.recount n,
        (ns.foldl (fun (t, freed) i => (t.flushChain i, freed ++ (t.buckets i).objects)) (t, freed)).2) := by
  induction ns generalizing t freed with
  | nil => rfl
  | cons i ns ih =>
    have same : (t.recount n).flushChain i = (t.flushChain i).recount n := by
      unfold flushChain
      rw [show ((t.recount n).buckets i).pri.word = (t.buckets i).pri.word from rfl]
      split <;> rfl
    simp only [List.foldl_cons, same]
    exact ih (t.flushChain i) (freed ++ (t.buckets i).objects)

theorem tableFlush_recount (t : HashTable) (n : Nat) : (t.recount n).tableFlush = t.tableFlush := by
  simp only [tableFlush, flushLoop_recount]
  rfl

theorem Kept.tableFlush_settled (kept : Kept hash t) (settled : t.oldCap = 0) :
    ∃ t' freed, t.tableFlush = some (t', freed) := by
  unfold tableFlush
  rw [if_pos settled, if_neg kept.shape.inside.2.not_gt]
  exact ⟨_, _, rfl⟩

theorem Kept.flushed (kept : Kept hash t) (done : t.tableFlush = some (t', freed)) : Inv hash t' ∧ t'.content = [] :=
  kept.inv.tableFlush ((tableFlush_recount t _).trans done)

theorem Kept.freed_eq (kept : Kept hash t) (settled : t.oldCap = 0) (done : t.tableFlush = some (t', freed)) :
    freed = t.content.filterMap Bucket.obj := by
  have loop := flushed_loop t t.cap
  unfold tableFlush at done
  rw [if_pos settled] at done
  simp only [Option.ite_none_left_eq_some, Option.some.injEq, Prod.mk.injEq] at done
  obtain ⟨-, -, rfl⟩ := done
  rw [loop.freed, content, Buckets.gather, List.filterMap_flatMap]
  congr 1
  funext i
  rw [Chain.objects, kept.shape.live_eq]
  split <;> rfl

theorem view_eq_empty (none_ : t.content = []) : t.view = KeyMap.empty := by
  funext key
  rw [view, none_]
  rfl

end Flush

end FreakV.HashTable

namespace FreakV.NamedTable

open HashTable Linked Threads

variable {hash : Bytes → BitVec 64} {p : NamedTable} {start : Option Nat} {lists : Slot → List Nat} {aside : List Bucket}
  {t : HashTable} {i : Nat}

section Flush

theorem Models.clear (models : Models p start lists aside t) (i : Nat) :
    Models (p.setPri i {}) start (Function.update lists (.chain i) []) aside (t.setChain i {}) :=
  models.setPri (List.nil_sublist _) rfl

theorem release_setPri (ns : List Nat) (p : NamedTable) (i : Nat) (node : Node) :
    (ns.foldl ovfBucketRelease p).setPri i node = ns.foldl ovfBucketRelease (p.setPri i node) := by
  induction ns generalizing p with
  | nil => rfl
  | cons n ns ih => exact ih (p.ovfBucketRelease n)

theorem Whole.flushChain (whole : Whole p none [] t) (i : Nat) : Whole (p.flushChain i) none [] (t.flushChain i) := by
  have pri := whole.pri_eq i
  rw [NamedTable.flushChain, HashTable.flushChain, pri]
  split
  · exact whole
  · obtain ⟨lists, models, covers⟩ := whole
    have names := models.names
    rw [names.chain_eq, release_setPri]
    have chain : Function.update lists (.chain i) [] .free = lists .free := Function.update_of_ne (by simp) _ _
    have released := (models.clear i).releaseAll (names.spread.nodup (.chain i)) fun n there => by
      refine ⟨names.spread.inside there, fun s member => ?_⟩
      rw [mem_update] at member
      split at member
      · cases member
      next away => exact away (names.spread.apart member there)
    have pool : ((lists (.chain i)).foldl ovfBucketRelease (p.setPri i {})).ovfPoolCap = p.ovfPoolCap :=
      released.shows_.ovfPoolCap_eq.symm.trans models.shows_.ovfPoolCap_eq
    have length : (t.buckets i).next.length = (lists (.chain i)).length := by rw [models.next_eq, List.length_map]
    rw [length]
    refine ⟨_, released, ?_⟩
    rw [pool]
    intro n inside
    obtain ⟨s, there⟩ := covers n inside
    by_cases here : s = .chain i
    · refine ⟨.free, ?_⟩
      rw [Function.update_self, List.mem_append, List.mem_reverse]
      exact .inl (here ▸ there)
    · refine ⟨s, mem_update.2 ?_⟩
      split
      next isFree =>
        rw [chain]
        exact List.mem_append_right _ (isFree ▸ there)
      · rw [Function.update_of_ne here]
        exact there

theorem Whole.flushObjects_eq (whole : Whole p none [] t) (i : Nat) : p.flushObjects i = (t.buckets i).objects := by
  obtain ⟨lists, models, -⟩ := whole
  rw [NamedTable.flushObjects, Chain.objects, models.shows_.buckets, models.names.chain_eq]

theorem Whole.flushLoop (whole : Whole p none [] t) (ns : List Nat) (freed : List RawObj) :
    Whole (ns.foldl (fun (p, freed) i => (p.flushChain i, freed ++ p.flushObjects i)) (p, freed)).1 none []
      (ns.foldl (fun (t, freed) i => (t.flushChain i, freed ++ (t.buckets i).objects)) (t, freed)).1 ∧
    (ns.foldl (fun (p, freed) i => (p.flushChain i, freed ++ p.flushObjects i)) (p, freed)).2 =
      (ns.foldl (fun (t, freed) i => (t.flushChain i, freed ++ (t.buckets i).objects)) (t, freed)).2 := by
  induction ns generalizing p t freed with
  | nil => exact ⟨whole, rfl⟩
  | cons i ns ih =>
    have next := ih (whole.flushChain i) (freed ++ (t.buckets i).objects)
    simp only [List.foldl_cons, whole.flushObjects_eq i]
    exact next

theorem Whole.tableFlush (whole : Whole p none [] t) (settled : t.oldCap = 0) {t' : HashTable} {freed : List RawObj}
    (done : t.tableFlush = some (t', freed)) : Whole p.tableFlush.1 none [] t' ∧ p.tableFlush.2 = freed := by
  have sizes := whole.sizes
  simp only [HashTable.sizes, NamedTable.sizes, Prod.mk.injEq] at sizes
  obtain ⟨cap, oldCap, -, rehashIdx, -, -⟩ := sizes
  have rounds : p.flushRounds = t.cap := by rw [flushRounds, ← oldCap, if_neg (by simp [settled]), cap]
  obtain ⟨emptied, same⟩ := whole.flushLoop (List.range t.cap) []
  unfold HashTable.tableFlush at done
  rw [if_pos settled] at done
  simp only [Option.ite_none_left_eq_some, Option.some.injEq, Prod.mk.injEq] at done
  obtain ⟨-, rfl, rfl⟩ := done
  unfold NamedTable.tableFlush
  rw [rounds]
  refine ⟨emptied.resize rfl rfl rfl rfl rfl rfl fun after => ?_, same⟩
  simp only [HashTable.sizes, NamedTable.sizes, Prod.mk.injEq] at after ⊢
  obtain ⟨cap', -, -, -, rest⟩ := after
  exact ⟨cap', trivial, trivial, by rw [oldCap, rehashIdx], rest⟩

theorem flushChain_pool (p : NamedTable) (i : Nat) : (p.flushChain i).ovfPoolCap = p.ovfPoolCap := by
  have released (ns : List Nat) (p : NamedTable) : (ns.foldl ovfBucketRelease p).ovfPoolCap = p.ovfPoolCap := by
    induction ns generalizing p with
    | nil => rfl
    | cons n ns ih => exact ih (p.ovfBucketRelease n)
  rw [NamedTable.flushChain]
  split
  · rfl
  · exact released _ p

theorem tableFlush_pool (p : NamedTable) : p.tableFlush.1.ovfPoolCap = p.ovfPoolCap := by
  have loop (ns : List Nat) (p : NamedTable) (freed : List RawObj) :
      (ns.foldl (fun (p, freed) i => (p.flushChain i, freed ++ p.flushObjects i)) (p, freed)).1.ovfPoolCap = p.ovfPoolCap := by
    induction ns generalizing p freed with
    | nil => rfl
    | cons i ns ih => exact (ih (p.flushChain i) (freed ++ p.flushObjects i)).trans (flushChain_pool p i)
  exact loop (List.range p.flushRounds) p []

theorem Whole.freeList_perm (whole : Whole p none [] t) (empty : ∀ i, (t.buckets i).next = []) :
    p.freeList.Perm (List.range p.ovfPoolCap) ∧ ∀ i, p.chain i = [] := by
  obtain ⟨lists, models, covers⟩ := whole
  have names := models.names
  have chain (i : Nat) : lists (.chain i) = [] := by
    have none_ := models.next_eq i
    rw [empty] at none_
    exact List.map_eq_nil_iff.1 none_.symm
  have hand : lists .hand = [] := List.map_eq_nil_iff.1 models.shows_.aside.symm
  refine ⟨?_, fun i => (names.chain_eq i).trans (chain i)⟩
  rw [names.freeList_eq]
  refine (List.perm_ext_iff_of_nodup (names.spread.nodup .free) List.nodup_range).2 fun n => ?_
  rw [List.mem_range]
  refine ⟨fun there => names.spread.inside there, fun inside => ?_⟩
  obtain ⟨s, there⟩ := covers n inside
  cases s with
  | free => exact there
  | hand => rw [hand] at there; cases there
  | chain i => rw [chain] at there; cases there

end Flush

structure FlushWorks (hash : Bytes → BitVec 64) (p : NamedTable) : Prop where
  inside : ∀ i < p.flushRounds, i < p.cap
  freed : p.tableFlush.2.Perm (p.counted.content.filterMap Bucket.obj)
  returned : p.tableFlush.1.freeList.Perm (List.range p.ovfPoolCap)
  chains : ∀ i, p.tableFlush.1.chain i = []
  used : p.tableFlush.1.used = 0
  missing : ∀ key, p.tableFlush.1.lookupKey hash key = none
  fresh : ∀ ops, (p.tableFlush.1.run hash ops).2 = ((newTable p.cap).run hash ops).2

section Reachable

inductive Move
  | op (op : Op) (g : PutGrowth)
  | flush

def move (hash : Bytes → BitVec 64) (p : NamedTable) : Move → Option NamedTable
  | .op op g => some (p.step hash g op).1
  | .flush => some p.tableFlush.1

-- used / cap > HT_LOAD_MAX, which is 1.2; cap is a power of two, so the division of the doubles is exact
def overloaded (p : NamedTable) : Bool := decide (6 * p.cap < 5 * p.used)

def tested (p : NamedTable) : Op → Bool
  | .put _ _ _ load => load == p.overloaded
  | _ => true

def Calm (p : NamedTable) : Move → Prop
  | .op op g => g.Quiet ∧ p.tested op
  | .flush => p.rehashIdx = none

structure Sound (hash : Bytes → BitVec 64) (p : NamedTable) : Prop where
  whole : Whole p none [] p.counted
  kept : Kept hash p.counted

theorem Sound.flushWorks (sound : Sound hash p) (idle : p.rehashIdx = none) : FlushWorks hash p := by
  obtain ⟨whole, kept⟩ := sound
  have settled : p.counted.oldCap = 0 := kept.settled idle
  obtain ⟨t', freed, done⟩ := kept.tableFlush_settled settled
  obtain ⟨flushed, objects⟩ := whole.tableFlush settled done
  obtain ⟨inv, empty⟩ := kept.flushed done
  have next (i : Nat) : (t'.buckets i).next = [] := by
    have live : (t'.buckets i).live = [] := by
      by_contra some_
      obtain ⟨b, there⟩ := List.exists_mem_of_ne_nil _ some_
      have member := mem_content.2 ⟨i, inv.shape.live_lt there, there⟩
      rw [empty] at member
      cases member
    unfold Chain.live at live
    split at live
    · exact live
    · cases live
  obtain ⟨free, chains⟩ := flushed.freeList_perm next
  rw [tableFlush_pool] at free
  refine ⟨fun i inside => ?_, ?_, free, chains, rfl, fun key => ?_, fun ops => ?_⟩
  · have zero : p.oldCap = 0 := settled
    rwa [flushRounds, if_neg (by simp [zero])] at inside
  · rw [objects, kept.freed_eq settled done]
  · rw [flushed.lookup_eq]
    exact kept.inv.lookup_flushed ((tableFlush_recount _ _).trans done) key
  · have new : Inv hash (HashTable.newTable p.cap) := .newTable hash kept.shape.pow
    rw [(flushed.run ops).2, ((Whole.newTable p.cap).run ops).2, congrArg Prod.snd (inv.run_refines ops).2,
      congrArg Prod.snd (new.run_refines ops).2, view_eq_empty empty, view_newTable]

theorem Sound.tableCreate {initialCap : BitVec 64} (small : initialCap.toNat ≤ 2 ^ 58)
    (created : NamedTable.tableCreate initialCap = some p) : Sound hash p := by
  obtain ⟨t, created', whole⟩ := Whole.tableCreate created
  obtain ⟨k, few, rfl⟩ := tableCreate_of_le small created'
  have inv : Inv hash (HashTable.newTable (2 ^ k)) := .newTable hash ⟨k, few, rfl⟩
  have settled : (HashTable.newTable (2 ^ k)).oldCap = 0 := rfl
  rw [← whole.counted_eq] at inv settled whole
  exact ⟨whole, inv.shape, inv.distinct, fun _ => settled⟩

theorem Sound.move {p' : NamedTable} {action : Move} (sound : Sound hash p) (calm : p.Calm action)
    (moved : p.move hash action = some p') : Sound hash p' := by
  cases action with
  | op op g =>
    cases moved
    have whole : Whole (p.step hash g op).1 none [] _ := (sound.whole.step calm.1 op).1
    have kept := sound.kept.step g.grants op
    rw [← whole.counted_eq] at kept whole
    exact ⟨whole, kept⟩
  | flush =>
    cases moved
    have settled : p.counted.oldCap = 0 := sound.kept.settled calm
    obtain ⟨t', freed, done⟩ := sound.kept.tableFlush_settled settled
    obtain ⟨whole, -⟩ := sound.whole.tableFlush settled done
    have kept : Kept hash t' := by
      obtain ⟨inv, -⟩ := sound.kept.flushed done
      obtain ⟨-, -, last, -, rfl⟩ := Flushed.of_tableFlush done
      exact ⟨inv.shape, inv.distinct, fun _ => rfl⟩
    rw [← whole.counted_eq] at kept whole
    exact ⟨whole, kept⟩

theorem flushWorks_iff {initialCap : BitVec 64} {created : NamedTable} (small : initialCap.toNat ≤ 2 ^ 58)
    (creates : NamedTable.tableCreate initialCap = some created)
    (run : Transition.Reaches (NamedTable.move hash) Calm created p) : FlushWorks hash p ↔ p.rehashIdx = none := by
  have sound : Sound hash p :=
    run.invariant (Sound.tableCreate small creates) fun before calm moved => before.move calm moved
  refine ⟨fun works => ?_, sound.flushWorks⟩
  cases round : p.rehashIdx with
  | none => rfl
  | some r =>
    obtain ⟨⟨k, pow⟩, -, -⟩ := sound.kept.shape.rehash r round
    have old : 0 < p.oldCap := by
      rw [show p.oldCap = 2 ^ k from pow]
      exact Nat.two_pow_pos k
    have beyond := works.inside p.cap (by rw [flushRounds, if_pos old.ne']; omega)
    exact absurd beyond (Nat.lt_irrefl _)

def allTested (hash : Bytes → BitVec 64) (p : NamedTable) : List Op → Bool
  | [] => true
  | op :: ops => p.tested op && allTested hash (p.step hash {} op).1 ops

theorem reaches_run {ops : List Op} (tested : allTested hash p ops) :
    Transition.Reaches (NamedTable.move hash) Calm p (p.run hash ops).1 := by
  induction ops generalizing p with
  | nil => exact .refl
  | cons op ops ih =>
    rw [allTested, Bool.and_eq_true] at tested
    have first : Transition.Reaches (NamedTable.move hash) Calm p (p.step hash {} op).1 :=
      .tail .refl (show Calm p (.op op {}) from ⟨⟨fun _ => rfl, rfl⟩, tested.1⟩) rfl
    exact first.trans (ih tested.2)

theorem flushWorks_full : NamedTable.tableCreate 16 = some (newTable 16) ∧
    FlushWorks firstByte ((newTable 16).run firstByte (crowd.take 20)).1 := by
  have created : NamedTable.tableCreate 16 = some (newTable 16) := rfl
  have reached : Transition.Reaches (NamedTable.move firstByte) Calm (newTable 16)
      ((newTable 16).run firstByte (crowd.take 20)).1 := reaches_run (by decide +kernel)
  exact ⟨created, (flushWorks_iff (by decide) created reached).2 (by decide +kernel)⟩

theorem flush_past_end : NamedTable.tableCreate 16 = some (newTable 16) ∧
    Transition.Reaches (NamedTable.move firstByte) Calm (newTable 16) ((newTable 16).run firstByte crowd).1 ∧
    ((newTable 16).run firstByte crowd).1.cap = 32 ∧ ((newTable 16).run firstByte crowd).1.flushRounds = 48 :=
  ⟨rfl, reaches_run (by decide +kernel), by decide +kernel, by decide +kernel⟩

end Reachable

end FreakV.NamedTable
