import FreakV.Commands.Agreement
import FreakV.Snapshot.Epoch
import FreakV.Snapshot.Flush

namespace FreakV.Snapshot

open HashTable (Bucket Inv)
open Commands (Arg Dispatcher Env ShardApi)

abbrev World := Nat → Node

section Flush

theorem respDispatchProxy_flush (d : Dispatcher) (isLocked : Bytes → Bool) {name : Arg} {rest : List Arg}
    (known : Commands.nameOf name.text = some .flushall ∨ Commands.nameOf name.text = some .flushdb) :
    d.respDispatchProxy isLocked (name :: rest) = .here := by
  obtain known | known := known <;>
    obtain ⟨notGet, notSet⟩ := Commands.not_fast known (by decide) <;>
    simp [Dispatcher.respDispatchProxy, notGet, notSet, known]

theorem respDispatch_flush {σ : Type} (api : ShardApi σ) (env : Env) (s : σ) {name : Arg} {rest : List Arg}
    (known : Commands.nameOf name.text = some .flushall ∨ Commands.nameOf name.text = some .flushdb) :
    Commands.respDispatch api env (name :: rest) s = (api.flush s, .written (Net.ascii "+OK\r\n")) := by
  obtain known | known := known <;> simp [Commands.respDispatch, known]

def World.accept (w : World) (api : ShardApi (Option Node)) (env : Env) (d : Dispatcher) (args : List Arg) :
    Option (World × Bytes) :=
  match d.respDispatchProxy (api.isLocked (some (w d.self))) args with
  | .here =>
    let (s, a) := Commands.respDispatch api env args (some (w d.self))
    s.map fun node => (Function.update w d.self node, a.bytes)
  | _ => none

theorem World.accept_here {w : World} {api : ShardApi (Option Node)} {env : Env} {d : Dispatcher} {args : List Arg}
    {s : Option Node} {a : Commands.Answer} (here : d.respDispatchProxy (api.isLocked (some (w d.self))) args = .here)
    (ran : Commands.respDispatch api env args (some (w d.self)) = (s, a)) :
    w.accept api env d args = s.map fun node => (Function.update w d.self node, a.bytes) := by
  simp only [World.accept, here, ran]

end Flush

section Get

variable {hash : Bytes → BitVec 64} {t : HashTable} {b : Bucket} {now : Nat}

def Gone (b : Bucket) (now : Nat) : Prop :=
  b.expire ≠ 0 ∧ now ≠ 0 ∧ b.expire ≤ now ∧ htMetaIsLocked b.word = false

instance (b : Bucket) (now : Nat) : Decidable (Gone b now) :=
  inferInstanceAs (Decidable (b.expire ≠ 0 ∧ now ≠ 0 ∧ b.expire ≤ now ∧ htMetaIsLocked b.word = false))

theorem getLazy_eq_none (found : b.obj ≠ none) {key : Bytes} {f : Nat × Nat} (lookup : t.lookupKey hash key = some f)
    (here : t.bucketAt f = b) : (t.bucketGetLazy hash key now).2.1 = none ↔ Gone b now := by
  rw [HashTable.bucketGetLazy, lookup]
  simp only [here, Gone]
  by_cases lasting : b.expire = 0 ∨ now = 0 ∨ now < b.expire
  · rw [if_pos lasting]
    simp only [found, false_iff]
    omega
  · rw [if_neg lasting]
    cases locked : htMetaIsLocked b.word
    · simp only [Bool.false_eq_true, if_false, true_iff, and_true]
      omega
    · simp [found]

theorem Inv.getLazy_none_iff (inv : Inv hash t) :
    (∀ key, (t.bucketGetLazy hash key now).2.1 = none) ↔ ∀ b ∈ t.content, Gone b now := by
  have some (b : Bucket) (member : b ∈ t.content) : ∃ o, b.obj = some o ∧ o.Short := by
    obtain ⟨i, -, live⟩ := HashTable.mem_content.1 member
    exact (inv.shape.sound i b live).1.obj
  constructor
  · intro unseen b member
    obtain ⟨o, obj, short⟩ := some b member
    have size : b.key.length ≤ 65535 := by
      rw [HashTable.Bucket.key, obj]
      exact HashTable.RawObj.objKeyGet_length short ▸ short.1
    cases lookup : t.lookupKey hash b.key with
    | none => exact absurd rfl (inv.lookup_none size lookup member)
    | some f =>
      have found := inv.lookup_some size lookup
      have same : t.bucketAt f = b :=
        List.inj_on_of_nodup_map inv.distinct (inv.shape.lookup_live lookup) member found.keyed
      exact (getLazy_eq_none (by simp [obj]) lookup same).1 (unseen b.key)
  · intro gone key
    cases lookup : t.lookupKey hash key with
    | none => simp [HashTable.bucketGetLazy, lookup]
    | some f =>
      have member := inv.shape.lookup_live lookup
      obtain ⟨o, obj, -⟩ := some _ member
      exact (getLazy_eq_none (by simp [obj]) lookup rfl).2 (gone _ member)

end Get

section ForGood

variable (hash : Bytes → BitVec 64)

structure Node.Sound (node : Node) : Prop extends node.Writable where
  table : Inv hash node.ht
  layout : node.heap.Layout
  used : ∀ b ∈ node.ht.content, ∀ o ∈ b.obj, node.heap.used o.addr = true

structure World.ForGood (n : Nat) (before after : World) (now later : Nat) : Prop where
  unseen : ∀ i < n, ∀ key, ((after i).ht.bucketGetLazy hash key now).2.1 = none
  gone : ∀ i < n, ∃ last, (after i).NextEpoch last ∧
    ∀ j < n, ∀ key, (before j).ht.view key ≠ none →
      KeyMap.ofList (snapEngineRestore later last.files.base last.files.deltas) key = none

def Node.addrs (node : Node) : List Nat := (node.ht.content.filterMap Bucket.obj).map RawObj.addr

def World.spared (w : World) (reader i : Nat) : Shard :=
  if i = reader then (w i).heap.dropPages ((w i).heap.dropped (w i).addrs) else (w i).heap

structure World.Forgotten (n reader : Nat) (w : World) (now later : Nat) : Prop where
  others : ∀ i < n, i ≠ reader → ∀ b ∈ (w i).ht.content, Gone b now
  records : ∀ i < n, ∀ pos e, (w.spared reader i).remains (w i).files pos = some e → e.deleted = false →
    e.expired later = false → ∀ j < n, (w j).ht.view e.key = none

variable {hash} {w w' : World} {n self now later : Nat}

theorem ofList_eq_none {entries : List Entry} {key : Bytes} :
    KeyMap.ofList entries key = none ↔ ∀ e ∈ entries, e.key ≠ key := by
  rw [KeyMap.ofList]
  induction entries using List.reverseRecOn with
  | nil => simp
  | append_singleton entries e ih =>
    rw [List.foldl_append, List.foldl_cons, List.foldl_nil, KeyMap.set]
    by_cases here : key = e.key
    · subst here
      simp
    · rw [Function.update_of_ne here, ih]
      simp only [List.mem_append, List.mem_singleton, or_imp, forall_and, forall_eq]
      exact (and_iff_left (Ne.symm here)).symm

theorem Node.Sound.flush {node node' : Node} (now : Nat) (sound : node.Sound hash) (done : node.flush = some node') :
    node'.Writable ∧ (∀ key, (node'.ht.bucketGetLazy hash key now).2.1 = none) ∧ node'.files = node.files ∧
      ∀ pos, node'.heap.remains node.files pos =
        (node.heap.dropPages (node.heap.dropped node.addrs)).remains node.files pos := by
  obtain ⟨⟨ht, freed⟩, flushed, rfl⟩ := Option.map_eq_some_iff.1 done
  have addrs (ptr : Nat) : ptr ∈ freed.map RawObj.addr ↔ ptr ∈ node.addrs := by
    simp only [Node.addrs, List.mem_map, List.mem_filterMap, sound.table.mem_freed flushed]
  have used : ∀ ptr ∈ freed.map RawObj.addr, node.heap.used ptr = true := by
    intro ptr member
    obtain ⟨o, freed, rfl⟩ := List.mem_map.1 member
    obtain ⟨b, content, obj⟩ := (sound.table.mem_freed flushed o).1 freed
    exact sound.used b content o obj
  obtain ⟨left, heap⟩ := sound.layout.foldl_memRelease used
  have dropped : node.heap.dropped (freed.map RawObj.addr) = node.heap.dropped node.addrs := by
    funext l
    rw [Bool.eq_iff_iff, Shard.dropped_iff, Shard.dropped_iff]
    simp only [addrs]
  rw [dropped] at heap
  refine ⟨?_, fun key => ?_, rfl, fun pos => ?_⟩
  · simp only [heap]
    exact ⟨⟨sound.writer, sound.inside, sound.few, sound.idle⟩, sound.base⟩
  · simp [HashTable.bucketGetLazy, sound.table.lookup_flushed flushed key]
  · simp only [heap]
    rfl

theorem Node.Writable.gone_iff {node : Node} (writable : node.Writable) (later : Nat) (p : Bytes → Prop) :
    (∃ last, node.NextEpoch last ∧
      ∀ key, p key → KeyMap.ofList (snapEngineRestore later last.files.base last.files.deltas) key = none) ↔
    ∀ pos e, node.heap.remains node.files pos = some e → e.deleted = false → e.expired later = false → ¬p e.key := by
  obtain ⟨last, epoch, taken⟩ := writable.nextEpoch
  have present (e : Entry) : e ∈ snapEngineRestore later last.files.base last.files.deltas ↔
      ∃ pos, node.heap.remains node.files pos = some e ∧ e.deleted = false ∧ e.expired later = false := by
    rw [mem_snapEngineRestore]
    simp only [taken]
  constructor
  · rintro ⟨last', epoch', gone⟩ pos e left live lasting stored
    cases epoch.unique epoch'
    exact ofList_eq_none.1 (gone e.key stored) e ((present e).2 ⟨pos, left, live, lasting⟩) rfl
  · intro none
    refine ⟨last, epoch, fun key stored => ofList_eq_none.2 ?_⟩
    rintro e member rfl
    obtain ⟨pos, left, live, lasting⟩ := (present e).1 member
    exact none pos e left live lasting stored

section Accept

variable {api : ShardApi (Option Node)} (flush : ∀ s, api.flush s = s.bind Node.flush) {env : Env} {name : Arg} {rest : List Arg}
  (known : Commands.nameOf name.text = some .flushall ∨ Commands.nameOf name.text = some .flushdb)

include flush known

theorem World.accept_flush_eq : w.accept api env { self := self, numShards := n } (name :: rest) =
    (w self).flush.map fun node => (Function.update w self node, Net.ascii "+OK\r\n") := by
  rw [World.accept_here (respDispatchProxy_flush _ _ known) (respDispatch_flush api env _ known), flush,
    Commands.Answer.bytes_written, Option.bind_some]

theorem World.accept_flush {reply : Bytes}
    (answered : w.accept api env { self := self, numShards := n } (name :: rest) = some (w', reply)) :
    reply = Net.ascii "+OK\r\n" ∧ ∃ node, (w self).flush = some node ∧ w' = Function.update w self node := by
  rw [World.accept_flush_eq flush known, Option.map_eq_some_iff] at answered
  obtain ⟨node, done, same⟩ := answered
  obtain ⟨rfl, rfl⟩ := Prod.mk.inj same
  exact ⟨rfl, node, done, rfl⟩

end Accept

theorem World.flush_for_good_iff (api : ShardApi (Option Node)) (flush : ∀ s, api.flush s = s.bind Node.flush) (env : Env)
    {name : Arg} {rest : List Arg}
    (known : Commands.nameOf name.text = some .flushall ∨ Commands.nameOf name.text = some .flushdb)
    (sound : ∀ i < n, (w i).Sound hash) (inside : self < n) {reply : Bytes}
    (answered : w.accept api env { self := self, numShards := n } (name :: rest) = some (w', reply)) :
    reply = Net.ascii "+OK\r\n" ∧
      (World.ForGood hash n w w' now later ↔ World.Forgotten n self w now later) := by
  obtain ⟨ok, node, done, rfl⟩ := World.accept_flush flush known answered
  obtain ⟨writable, unseen, files, remains⟩ := (sound self inside).flush now done
  refine ⟨ok, ?_⟩
  have writable' (i : Nat) (below : i < n) : (Function.update w self node i).Writable := by
    by_cases here : i = self
    · rw [here, Function.update_self]
      exact writable
    · rw [Function.update_of_ne here]
      exact (sound i below).toWritable
  have left (i : Nat) (pos : Pos) : (Function.update w self node i).heap.remains (Function.update w self node i).files pos =
      (w.spared self i).remains (w i).files pos := by
    by_cases here : i = self
    · rw [here, Function.update_self, World.spared, if_pos rfl, files, remains]
    · rw [Function.update_of_ne here, World.spared, if_neg here]
  have seen (i : Nat) (below : i < n) : (∀ key, ((Function.update w self node i).ht.bucketGetLazy hash key now).2.1 = none) ↔
      (i ≠ self → ∀ b ∈ (w i).ht.content, Gone b now) := by
    by_cases here : i = self
    · rw [here, Function.update_self]
      exact iff_of_true unseen fun away => absurd rfl away
    · rw [Function.update_of_ne here, Inv.getLazy_none_iff (sound i below).table]
      exact ⟨fun gone _ => gone, fun gone => gone here⟩
  have gone (i : Nat) (below : i < n) : (∃ last, (Function.update w self node i).NextEpoch last ∧
        ∀ j < n, ∀ key, (w j).ht.view key ≠ none →
          KeyMap.ofList (snapEngineRestore later last.files.base last.files.deltas) key = none) ↔
      ∀ pos e, (w.spared self i).remains (w i).files pos = some e → e.deleted = false → e.expired later = false →
        ∀ j < n, (w j).ht.view e.key = none := by
    have stored := (writable' i below).gone_iff later fun key => ∃ j < n, (w j).ht.view key ≠ none
    simp only [left] at stored
    constructor
    · rintro ⟨last, epoch, none⟩ pos e found live lasting j inside
      by_contra there
      exact stored.1 ⟨last, epoch, fun key ⟨j, inside, there⟩ => none j inside key there⟩ pos e found live lasting
        ⟨j, inside, there⟩
    · intro none
      obtain ⟨last, epoch, absent⟩ := stored.2 fun pos e found live lasting ⟨j, inside, there⟩ =>
        there (none pos e found live lasting j inside)
      exact ⟨last, epoch, fun j inside key there => absent key ⟨j, inside, there⟩⟩
  exact ⟨fun good => ⟨fun i below => (seen i below).1 (good.unseen i below), fun i below => (gone i below).1 (good.gone i below)⟩,
    fun forgotten => ⟨fun i below => (seen i below).2 (forgotten.others i below),
      fun i below => (gone i below).2 (forgotten.records i below)⟩⟩

end ForGood

section Runs

def flushing : ShardApi (Option Node) where
  isLocked _ _ := false
  lockDefer s _ := (s, false)
  keySet s _ _ _ _ := (s, true)
  keyGet s _ _ := (s, none)
  keyDelete s _ := (s, false)
  keyExpire s _ _ := (s, false)
  expireGet _ _ := 0
  used _ := 0
  flush s := s.bind Node.flush

def sampleHash : Bytes → BitVec 64 := fun _ => 0

def sampleObj : HashTable.ShortObj where
  obj := { addr := 4032, keyLen := 1, valLen := 1, data := [107, 118, 0] }
  keyLen_le := by decide
  keyLen_le_data := by decide

def emptyTable : HashTable := HashTable.newTable 16

def sampleOps (expire : Nat) : List Shard.Op := [.newSpan ⟨64, 0⟩, .set [107] [118] expire (.slot ⟨64, 0⟩ 63)]

def followed (ops : List Shard.Op) : Shard :=
  ((Transition.follow Traced.step (fun t op => decide (t.Fits op)) ops {}).getD {}).shard

def sampleNode (expire : Nat) : Node where
  ht := (emptyTable.step sampleHash {} (.put sampleObj expire .none false)).1
  heap := followed (sampleOps expire)

def emptyNode : Node := { ht := emptyTable, heap := Shard.empty }

theorem emptyTable_inv : Inv sampleHash emptyTable := .newTable sampleHash ⟨4, by decide, rfl⟩

theorem emptyNode_sound : emptyNode.Sound sampleHash where
  writer := .fresh _
  inside := Nat.le_refl _
  few := Layout.empty.few
  idle _ := rfl
  base := ⟨List.nodup_nil, by simp [emptyNode, baseSlots]⟩
  table := emptyTable_inv
  layout := Layout.empty
  used := by decide +kernel

theorem followed_layout (ops : List Shard.Op) : (followed ops).Layout := by
  rw [followed]
  cases followed : Transition.follow Traced.step (fun t op => decide (t.Fits op)) ops {} with
  | none => exact Layout.empty
  | some t =>
    have run := Transition.follow_reaches (fun _ _ => of_decide_eq_true) followed
    exact (run.invariant Tracks.initial Tracks.step).layout

theorem sampleNode_sound {expire : Nat} (writer : (sampleNode expire).heap.writer = none)
    (used : ∀ b ∈ (sampleNode expire).ht.content, ∀ o ∈ b.obj, (sampleNode expire).heap.used o.addr = true) :
    (sampleNode expire).Sound sampleHash := by
  have cursor : (sampleNode expire).heap.cursor = { nrPages := (sampleNode expire).heap.nrPages } := by
    rw [Shard.cursor, writer, Option.getD_none]
  have table : Inv sampleHash (sampleNode expire).ht :=
    (emptyTable_inv.step_refines (.put sampleObj expire .none false)).1
  have heap : (sampleNode expire).heap = followed (sampleOps expire) := by rw [sampleNode]
  have layout : (sampleNode expire).heap.Layout := heap ▸ followed_layout (sampleOps expire)
  have base : baseSlots (sampleNode expire).files.base = [] := rfl
  refine { writer := ?_, inside := ?_, few := layout.few, idle := fun _ => writer, base := ?_, table := table, layout := layout, used := used }
  · rw [cursor]
    exact .fresh _
  · rw [cursor]
  · rw [base]
    exact ⟨List.nodup_nil, fun slot member => absurd member List.not_mem_nil⟩

def flushall : List Arg := [Commands.arg "FLUSHALL"]

theorem nameOf_flushall : Commands.nameOf (Commands.arg "FLUSHALL").text = some .flushall := by decide +kernel

theorem accept_flushall {w : World} {reader n : Nat} (flushes : (w reader).flush.isSome = true) :
    ∃ w', w.accept flushing { now := 1 } { self := reader, numShards := n } flushall = some (w', Net.ascii "+OK\r\n") := by
  obtain ⟨node, done⟩ := Option.isSome_iff_exists.1 flushes
  refine ⟨Function.update w reader node, ?_⟩
  rw [flushall, World.accept_flush_eq (fun _ => rfl) (.inl nameOf_flushall), done, Option.map_some]

theorem mem_of_remains {s : Shard} {pos : Pos} {e : Entry} (left : s.remains {} pos = some e) :
    (pos, e) ∈ s.next ++ s.current := by
  have recorded : ((s.next ++ s.current).lookup pos).bind Entry.live = some e := by
    simpa [Shard.remains, baseSlots, fileSlots, descending] using left
  obtain ⟨d, found, live⟩ := Option.bind_eq_some_iff.1 recorded
  have same : d = e := by
    simp only [Entry.live, Option.ite_none_left_eq_some, Option.some.injEq] at live
    exact live.2
  obtain ⟨before, behind, split, -⟩ := List.lookup_eq_some_iff.1 found
  rw [split, same]
  simp

def expiring : World := fun i => if i = 0 then sampleNode 5 else emptyNode

theorem flush_for_good_expiring : ∃ w',
    expiring.accept flushing { now := 1 } { self := 0, numShards := 2 } flushall = some (w', Net.ascii "+OK\r\n") ∧
    World.ForGood sampleHash 2 expiring w' 1 10 := by
  obtain ⟨w', answered⟩ := accept_flushall (w := expiring) (n := 2) (by decide +kernel : (expiring 0).flush.isSome = true)
  refine ⟨w', answered, (World.flush_for_good_iff flushing (fun _ => rfl) _ (.inl nameOf_flushall) ?_ (by decide)
    answered).2.2 ⟨?_, ?_⟩⟩
  · intro i _
    by_cases first : i = 0
    · rw [expiring, if_pos first]
      exact sampleNode_sound (by decide +kernel) (by decide +kernel)
    · rw [expiring, if_neg first]
      exact emptyNode_sound
  · intro i _ away
    rw [expiring, if_neg away]
    decide +kernel
  · intro i below pos e left live lasting
    have all : ∀ i < 2, ∀ x ∈ (expiring.spared 0 i).next ++ (expiring.spared 0 i).current, x.2.expired 10 = true := by
      decide +kernel
    have files : (expiring i).files = {} := by
      rw [expiring]
      split <;> rfl
    rw [files] at left
    have past := all i below _ (mem_of_remains left)
    rw [past] at lasting
    cases lasting

def elsewhere : World := fun i => if i = 1 then sampleNode 0 else emptyNode

def alone : World := fun _ => sampleNode 0

/-- A key on another shard stays where it is. A key on the shard that is flushed is not found any more, but its object
is still marked: the next epoch writes it as a live one, and the restart brings it back. -/
theorem flush_leaves_keys :
    (∃ w', elsewhere.accept flushing { now := 1 } { self := 0, numShards := 2 } flushall = some (w', Net.ascii "+OK\r\n") ∧
      ¬World.ForGood sampleHash 2 elsewhere w' 1 10) ∧
    ∃ w', alone.accept flushing { now := 1 } { self := 0, numShards := 1 } flushall = some (w', Net.ascii "+OK\r\n") ∧
      ¬World.ForGood sampleHash 1 alone w' 1 10 := by
  constructor
  · obtain ⟨w', answered⟩ := accept_flushall (w := elsewhere) (n := 2) (by decide +kernel : (elsewhere 0).flush.isSome = true)
    refine ⟨w', answered, fun good => ?_⟩
    obtain ⟨-, node, -, rfl⟩ := World.accept_flush (fun _ => rfl) (.inl nameOf_flushall) answered
    have unseen := good.unseen 1 (by decide) [107]
    rw [Function.update_of_ne (by decide)] at unseen
    revert unseen
    decide +kernel
  · have sound : (sampleNode 0).Sound sampleHash := sampleNode_sound (by decide +kernel) (by decide +kernel)
    obtain ⟨w', answered⟩ := accept_flushall (w := alone) (n := 1) (by decide +kernel : (alone 0).flush.isSome = true)
    refine ⟨w', answered, fun good => ?_⟩
    obtain ⟨-, node, done, rfl⟩ := World.accept_flush (fun _ => rfl) (.inl nameOf_flushall) answered
    have left : ((sampleNode 0).flush.map fun node => (node.heap.remains node.files (0, 63)).map fun e =>
        (e.key, e.deleted, e.expired 10)) = some (some ([107], false, false)) := by decide +kernel
    have stored : ((sampleNode 0).ht.view [107]).isSome = true := by decide +kernel
    have flushed : (sampleNode 0).flush = some node := done
    obtain ⟨writable, -⟩ := sound.flush 1 flushed
    obtain ⟨last, epoch, gone⟩ := good.gone 0 (by decide)
    rw [Function.update_self] at epoch
    have none := (writable.gone_iff 10 (· = [107])).1 ⟨last, epoch, fun key here => ?_⟩
    · rw [flushed, Option.map_some, Option.some.injEq, Option.map_eq_some_iff] at left
      obtain ⟨e, left, fields⟩ := left
      simp only [Prod.mk.injEq] at fields
      exact none _ e left fields.2.1 fields.2.2 fields.1
    · refine gone 0 (by decide) key fun missing => ?_
      have absent : (sampleNode 0).ht.view [107] = Option.none := here ▸ missing
      rw [absent] at stored
      cases stored

end Runs

end FreakV.Snapshot
