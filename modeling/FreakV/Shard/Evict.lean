import FreakV.Shard.Agreement

namespace FreakV.Shard.State

open HashTable

variable {hash : Bytes → BitVec 64} {env : Env} {s s' : State} {sizeReq : Nat} {taken : Bool}

section Termination

structure Released (s s' : State) : Prop where
  table : s'.table = s.table
  obj : s'.obj = s.obj
  inUse : ∀ o, s.inUse o = false → s'.inUse o = false

theorem Released.memFree (s : State) (heap : Heap) (ptr : Nat) : Released s (s.memFree heap ptr) := by
  have falls (o : Nat) (unused : s.inUse o = false) : Function.update s.inUse ptr false o = false := by
    rw [Function.update_apply]
    split <;> [rfl; exact unused]
  unfold State.memFree
  split
  · exact ⟨rfl, rfl, fun _ => id⟩
  · cases heap.freelist ptr <;> exact ⟨rfl, rfl, falls⟩

theorem Released.shardObjFree (s : State) (heap : Heap) (o : Nat) : Released s (s.shardObjFree heap o) := by
  have inner : Released s (if (s.obj o).valLen = 0 then s.memFree heap (s.obj o).objValPtrGet else s) := by
    split
    · exact .memFree s heap _
    · exact ⟨rfl, rfl, fun _ => id⟩
  refine ⟨inner.table, inner.obj, fun b unused => ?_⟩
  simp only [State.shardObjFree, Function.update_apply]
  split <;> [rfl; exact inner.inUse b unused]

theorem Released.shardObjDestroy (s : State) (env : Env) (o : Nat) : Released s (s.shardObjDestroy env o) := by
  rw [shardObjDestroy_unlinks, shardObjUnref]
  split
  · have freed := Released.shardObjFree { s with lru := s.lru.nodeRemove o, ttl := s.ttl.nodeRemove o } env.heap o
    exact ⟨freed.table, freed.obj, freed.inUse⟩
  · exact ⟨rfl, rfl, fun _ => id⟩

theorem evictOne_cases (turn : s.evictOne hash env sizeReq = some (s', taken)) : ∃ o t obj lockedOut,
    s.table.bucketTakeIfUnlocked hash (s.obj o).objKeyGet o = (t, obj, lockedOut) ∧ taken = obj.isSome ∧
      Released { s with table := t } s' := by
  unfold evictOne at turn
  split at turn
  · cases turn
  next o _ =>
    refine ⟨o, ?_⟩
    split at turn
    next took =>
      cases turn
      exact ⟨_, _, _, took, rfl, .shardObjDestroy _ _ _⟩
    all_goals
      next took =>
        cases turn
        exact ⟨_, _, _, took, rfl, rfl, rfl, fun _ => id⟩

end Termination

section Invariants

variable {P : State → Prop}
    (kept : ∀ {s s' : State} {taken : Bool}, P s → s.evictOne hash env sizeReq = some (s', taken) → P s')

include kept

theorem evictPass_keeps (turns : Nat) (before : Bool) (holds : P s) :
    P (s.evictPass hash env sizeReq turns before).1 := by
  induction turns generalizing s before with
  | zero => exact holds
  | succ turns ih =>
    unfold evictPass
    cases turn : s.evictOne hash env sizeReq with
    | none => exact holds
    | some next => exact ih _ (kept holds turn)

theorem evictLoop_keeps {passes done pages : Nat} {ok : Bool}
    (after : P (s.evictPass hash env sizeReq 100 false).1)
    (ends : s.evictLoop hash env sizeReq passes done pages = some (s', ok)) : P s' := by
  induction passes generalizing s done pages with
  | zero => cases ends
  | succ passes ih =>
    unfold evictLoop at ends
    generalize s.evictPass hash env sizeReq 100 false = pass at ends after
    obtain ⟨next, any⟩ := pass
    cases any with
    | false =>
      cases ends
      exact after
    | true =>
      dsimp only at ends
      split at ends
      · cases ends
        exact after
      · exact ih (evictPass_keeps kept 100 false after) ends

end Invariants

structure Shrunk (hash : Bytes → BitVec 64) (stays : Entry → Prop) (s s' : State) : Prop where
  agree : s'.Agree hash
  kept : ∀ key v, s'.table.view key = some v → s.table.view key = some v
  spared : ∀ key v, s.table.view key = some v → stays v → s'.table.view key = some v

variable {stays : Entry → Prop}

theorem Shrunk.refl (agree : s.Agree hash) : Shrunk hash stays s s := ⟨agree, fun _ _ => id, fun _ _ entry _ => entry⟩

theorem Shrunk.trans {s'' : State} (first : Shrunk hash stays s s') (second : Shrunk hash stays s' s'') :
    Shrunk hash stays s s'' :=
  ⟨second.agree, fun key v entry => first.kept key v (second.kept key v entry),
    fun key v entry held => second.spared key v (first.spared key v entry held) held⟩

theorem Shrunk.one {key : Bytes} {v : Entry} (agree : s'.Agree hash) (entry : s.table.view key = some v)
    (gone : v.locked = false → ¬stays v)
    (view : s'.table.view = if v.locked then s.table.view else s.table.view.remove key) : Shrunk hash stays s s' := by
  cases locked : v.locked with
  | true =>
    simp only [locked, if_true] at view
    exact ⟨agree, fun other w there => view ▸ there, fun other w there _ => view ▸ there⟩
  | false =>
    simp only [locked, Bool.false_eq_true, if_false] at view
    refine ⟨agree, fun other w there => ?_, fun other w there held => ?_⟩
    · rw [view] at there
      exact (KeyMap.remove_eq_some.1 there).2
    · rw [view]
      refine KeyMap.remove_eq_some.2 ⟨?_, there⟩
      rintro rfl
      rw [entry, Option.some.injEq] at there
      exact gone locked (there ▸ held)

theorem victim_tail {o : Nat} (found : s.victim sizeReq = some o) : ∃ p, s.lru.lruTail p = some o := by
  unfold victim at found
  cases own : s.lru.lruTail (targetPidx sizeReq) with
  | some x => exact ⟨_, own.trans (by simpa [own] using found)⟩
  | none =>
    rw [own, Option.none_or] at found
    obtain ⟨p, -, tail⟩ := List.exists_of_findSome?_eq_some found
    exact ⟨p, tail⟩

-- The victim is an object of the table, so lru_node_remove alone is never called.
theorem Agree.evictOne (agree : s.Agree hash)
    (safe : ∀ key v, s.table.view key = some v → v.locked = false → env.Safe v.obj)
    (turn : s.evictOne hash env sizeReq = some (s', taken)) : Shrunk hash (·.locked = true) s s' := by
  unfold State.evictOne at turn
  cases found : s.victim sizeReq with
  | none => simp [found] at turn
  | some o =>
    obtain ⟨p, tail⟩ := victim_tail found
    obtain ⟨key, v, entry, rfl⟩ := agree.listed.of_tail tail
    obtain ⟨t, took, inv, view⟩ := agree.takeIfUnlocked entry
    have held : v.locked = false → ¬(v.locked = true) := by simp
    simp only [found, took] at turn
    cases locked : v.locked with
    | false =>
      simp only [locked, Bool.false_eq_true, if_false, Option.some.injEq, Prod.mk.injEq] at turn
      obtain ⟨rfl, -⟩ := turn
      refine .one (agree.destroy entry inv ?_ (safe key v entry locked) agree.heap fun _ _ _ => Iff.rfl) entry held ?_
      · rw [view, locked]
        rfl
      · rw [(Released.shardObjDestroy _ _ _).table]
        exact view
    | true =>
      simp only [locked, if_true, Option.some.injEq, Prod.mk.injEq] at turn
      obtain ⟨rfl, -⟩ := turn
      have same : t.view = s.table.view := by rw [view, locked, if_pos rfl]
      exact .one ((agree.table inv same).touch (same ▸ entry)) entry held view

theorem Agree.shardMemEvict (agree : s.Agree hash)
    (safe : ∀ key v, s.table.view key = some v → v.locked = false → env.Safe v.obj) {passes : Nat} {ok : Bool}
    (ends : s.shardMemEvict hash env sizeReq passes = some (s', ok)) : Shrunk hash (·.locked = true) s s' := by
  have kept {u u' : State} {taken : Bool} (shrunk : Shrunk hash (·.locked = true) s u)
      (turn : u.evictOne hash env sizeReq = some (u', taken)) : Shrunk hash (·.locked = true) s u' :=
    shrunk.trans (shrunk.agree.evictOne (fun key v entry => safe key v (shrunk.kept key v entry)) turn)
  unfold State.shardMemEvict at ends
  dsimp only at ends
  split at ends
  · cases ends
    exact .refl agree
  · exact evictLoop_keeps kept (evictPass_keeps kept 100 false (.refl agree)) ends

structure Evicted (hash : Bytes → BitVec 64) (s s' : State) : Prop where
  agree : s'.Agree hash
  removed : ∀ key v, s.table.view key = some v → s'.table.view key = none → v.locked = false ∧
    (∃ lists, s'.lru.Threads lists ∧ ∀ p, v.obj.addr ∉ lists p) ∧ ∀ e, ¬s'.ttl.Holds v.obj.addr e
  others : ∀ key, s'.table.view key ≠ none → s'.table.view key = s.table.view key

theorem Shrunk.evicted (agree : s.Agree hash) (shrunk : Shrunk hash (·.locked = true) s s') : Evicted hash s s' := by
  refine ⟨shrunk.agree, fun key v entry gone => ?_, fun key present => ?_⟩
  · have outside : ¬InTable s'.table.view v.obj.addr := by
      rintro ⟨other, w, there, same⟩
      have equal := agree.laid.key_eq (shrunk.kept other w there) entry same
      rw [equal, gone] at there
      cases there
    refine ⟨?_, ?_, fun e holds => outside ((shrunk.agree.timed _ e).1 holds).inTable⟩
    · cases locked : v.locked with
      | false => rfl
      | true =>
        rw [shrunk.spared key v entry locked] at gone
        cases gone
    · obtain ⟨lists, threads, listed⟩ := shrunk.agree.listed
      exact ⟨lists, threads, fun p there => outside ((listed _).1 (threads.pooled p _ there ▸ there))⟩
  · obtain ⟨v, there⟩ := Option.ne_none_iff_exists'.1 present
    rw [there, shrunk.kept key v there]

structure Lost (hash : Bytes → BitVec 64) (key : Bytes) (w : Entry) (s : State) : Prop where
  inv : Inv hash s.table
  entry : s.table.view key = some w
  free : s.inUse w.obj.addr = false
  lengths : ∀ o, (s.obj o).keyLen ≤ 65535

theorem takeIfUnlocked_spares {t : HashTable} {key other : Bytes} {w : Entry} (inv : Inv hash t)
    (entry : t.view key = some w) (locked : w.locked = true) (short : other.length ≤ 65535) (expected : Nat) :
    Inv hash (t.bucketTakeIfUnlocked hash other expected).1 ∧
    (t.bucketTakeIfUnlocked hash other expected).1.view key = some w := by
  rcases inv.takeIfUnlocked_cases ⟨other, short⟩ expected with ⟨v, t', view, -, free, taken, inv', view'⟩ | ⟨-, kept⟩
  · rw [taken]
    refine ⟨inv', view' ▸ KeyMap.remove_eq_some.2 ⟨?_, entry⟩⟩
    rintro rfl
    rw [← Option.some.inj (entry.symm.trans view), locked] at free
    cases free
  · rw [kept]
    exact ⟨inv, entry⟩

theorem Lost.evictOne {key : Bytes} {w : Entry} (lost : Lost hash key w s) (locked : w.locked = true)
    (turn : s.evictOne hash env sizeReq = some (s', taken)) : Lost hash key w s' := by
  obtain ⟨o, t, obj, lockedOut, took, -, released⟩ := evictOne_cases turn
  have short : (s.obj o).objKeyGet.length ≤ 65535 := by
    rw [RawObj.objKeyGet, List.length_take]
    exact le_trans (Nat.min_le_left _ _) (lost.lengths o)
  obtain ⟨inv, spared⟩ := takeIfUnlocked_spares lost.inv lost.entry locked short o
  rw [took] at inv spared
  exact ⟨released.table ▸ inv, released.table ▸ spared, released.inUse _ lost.free,
    by rw [released.obj]; exact lost.lengths⟩

-- The tests before the loop of shard_mem_evict.
def Enough (env : Env) (sizeReq : Nat) : Prop :=
  sizeReq ≠ 0 ∧ softOk sizeReq (env.memory 0) ∧ hardOk (env.memory 0) (buddyPagesNeeded sizeReq (env.memory 0))

structure TakesAlong (s : State) (env : Env) (sizeReq : Nat) (v w : Entry) : Prop where
  short : ¬Enough env sizeReq
  victim : s.victim sizeReq = some v.obj.addr
  stored : ∃ key, s.table.view key = some v
  unlocked : v.locked = false
  last : env.lastRef v.obj.addr = true
  empty : v.obj.valLen = 0
  points : v.obj.objValPtrGet = w.obj.addr
  block : w.obj.addr ≠ 0 ∧ env.heap.acts w.obj.addr = true
  locked : w.locked = true

theorem TakesAlong.evictOne {v w : Entry} (along : TakesAlong s env sizeReq v w) (agree : s.Agree hash)
    {other : Bytes} (entry : s.table.view other = some w) :
    ∃ s', s.evictOne hash env sizeReq = some (s', true) ∧ Lost hash other w s' := by
  obtain ⟨key, stored⟩ := along.stored
  obtain ⟨t, took, inv, view⟩ := agree.takeIfUnlocked stored
  simp only [along.unlocked, Bool.false_eq_true, if_false] at took view
  refine ⟨State.shardObjDestroy { s with table := t } env v.obj.addr, by simp only [State.evictOne, along.victim, took], ?_⟩
  have released := Released.shardObjDestroy { s with table := t } env v.obj.addr
  have apart : other ≠ key := by
    rintro rfl
    rw [stored, Option.some.injEq] at entry
    have := along.locked
    rw [← entry, along.unlocked] at this
    cases this
  refine ⟨released.table ▸ inv, ?_, ?_, by rw [released.obj]; exact agree.lengths⟩
  · rw [released.table]
    change t.view other = some w
    rw [view]
    exact KeyMap.remove_eq_some.2 ⟨apart, entry⟩
  · have lies := (agree.laid key v stored).1
    rw [shardObjDestroy_unlinks, shardObjUnref, if_pos along.last]
    have acted : ¬(w.obj.addr = 0 ∨ env.heap.acts w.obj.addr = false) := by
      rintro (zero | ignored)
      · exact along.block.1 zero
      · rw [along.block.2] at ignored
        cases ignored
    simp only [shardObjFree, lies, along.empty, if_true, along.points, memFree, if_neg acted, Function.update_apply]
    split
    · rfl
    · cases env.heap.freelist w.obj.addr <;> simp [writeLink]

theorem Enough.evicted {passes : Nat} {ok : Bool} (enough : Enough env sizeReq) (agree : s.Agree hash)
    (ends : s.shardMemEvict hash env sizeReq passes = some (s', ok)) : Evicted hash s s' := by
  unfold shardMemEvict at ends
  dsimp only at ends
  rw [if_pos (by exact enough)] at ends
  cases ends
  exact (Shrunk.refl agree).evicted agree

section Hostage

open Keyspace (tableHash)

def quiet (slot : Option MemSlot) : Env :=
  { heap := { acts := fun _ => true, freelist := fun _ => some 0 }
    slot := slot
    memory := fun _ =>
      { usage := 0, limitBytes := 0, hasSpans := fun _ => true, lpagesPerSpan := fun _ => 1, spanCheck := fun _ => true } }

def blank : State := .create (newTable 16) (fun _ => ⟨0, 0, 0, []⟩) (fun _ => 0) fun _ => false

def pointing : State := (blank.shardKeySet tableHash (quiet (some ⟨8192, [16, 0, 0, 0, 0, 0, 0]⟩)) [98] [] 0 .none).1

def twoKeys : State := (pointing.shardKeySet tableHash (quiet (some ⟨4096, []⟩)) [97] [120] 0 .none).1

theorem Agree.set_quiet {slot : MemSlot} {key val : Bytes} {expire : Nat} (agree : s.Agree tableHash)
    (short : key.length ≤ 65535) (fresh : s.inUse slot.addr = false) (few : s.ttl.size < 2 ^ 31)
    (missing : s.table.view key = none) :
    (s.shardKeySet tableHash (quiet (some slot)) key val expire .none).1.Agree tableHash := by
  refine agree.set short ?_ ⟨rfl, fun _ => rfl, rfl⟩ rfl few fun v entry => ?_
  · rintro _ ⟨⟩
    exact fresh
  · rw [missing] at entry
    cases entry

theorem blank_agree : blank.Agree tableHash := .create (.newTable tableHash ⟨4, by decide, rfl⟩) (view_newTable 16) (by simp) _ _

def held : Entry := { obj := .make ⟨4096, []⟩ [97] [120], expire := 0, locked := true }

def elsewhere : Env := { quiet none with heap := { acts := fun _ => false, freelist := fun _ => none } }

theorem elsewhere_safe (o : RawObj) : elsewhere.Safe o := fun _ => .inr (.inr rfl)

end Hostage

end FreakV.Shard.State
