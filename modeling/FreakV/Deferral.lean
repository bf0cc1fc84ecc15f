import FreakV.Step

namespace FreakV.Engine

def cmdKey (e : Engine) (c : CmdId) : Bytes := (e.objs (e.cmds c).newObj).key

def Deferred (e : Engine) (l : LeId) (m : RegularReq) : Prop :=
  (∃ o, m ∈ (e.les l).openGroups o) ∨ ∃ group ∈ (e.les l).queue, m ∈ group.regulars

variable (commit : Engine → ShardId → StatId → Engine) (e : Engine) (s : ShardId) (m : RegularReq) (env : StepEnv)

def msetTryEarlyCommit (l : LeId) : Engine × Bool :=
  match (e.les l).holder with
  | none => (e, false)
  | some c =>
    let stat := (e.cmds c).stat
    if (e.stats stat).ack < (e.stats stat).total then (e, false) else (commit e s stat, true)

def enqueueRegular : Option LeId → Engine × Bool
  | none => (e, false)
  | some l => if env.cmdInfoAlloc then (e.lockWqAddRegular l m env.waitGroupAlloc, true) else (e, false)

def msetCheckLockDefer : Engine × Bool :=
  match e.lockHolder s m.key with
  | none => (e, false)
  | some l =>
    match e.msetTryEarlyCommit commit s l with
    | (e, true) => e.enqueueRegular m env (e.lockHolder s m.key)
    | (e, false) => e.enqueueRegular m env (some l)

/-- `proxy_exec`: the reply, or none for PROXY_EXEC_DEFERRED. -/
def proxyExecReply : Engine × Option Reply :=
  match e.msetCheckLockDefer commit s m env with
  | (e, true) => (e, none)
  | (e, false) => ((e.proxyRun s m env.now).1, some (e.proxyRun s m env.now).2)

structure HoldsLock (e : Engine) (s : ShardId) (key : Bytes) (l : LeId) (c : CmdId) : Prop where
  live : (e.les l).live = true
  here : (e.les l).shard = s
  holder : (e.les l).holder = some c
  named : e.cmdKey c = key
  unprepared : (e.stats (e.cmds c).stat).ack < (e.stats (e.cmds c).stat).total
  sole : ∀ l', e.lockHolder s key = some l' → l' = l

structure Heeded (l : LeId) : Prop where
  unexecuted : (e.proxyExecReply commit s m env).1.history = e.history
  kept : (e.msetCheckLockDefer commit s m env).2 = true ∧ (e.proxyExecReply commit s m env).1.Deferred l m ∨
    ∃ text, (e.proxyExecReply commit s m env).2 = some (.err text)

variable {commit e s m env} {l : LeId} {c : CmdId}

theorem history_shardKeyGet (key : Bytes) (now : Nat) : (e.shardKeyGet s key now).1.history = e.history := by
  unfold shardKeyGet
  split
  · rfl
  · split <;> rfl

theorem history_shardKeySet (key val : Bytes) (expire : Nat) (flags : SetFlags) :
    (e.shardKeySet s key val expire flags).1.history = e.history := by
  unfold shardKeySet
  dsimp only
  split
  · rfl
  · cases e.htBucketGet s key <;> rfl

theorem history_shardKeyDelete (key : Bytes) : (e.shardKeyDelete s key).1.history = e.history := by
  unfold shardKeyDelete
  split <;> rfl

theorem history_shardKeyExpire (key : Bytes) (expire : Nat) : (e.shardKeyExpire s key expire).1.history = e.history := by
  unfold shardKeyExpire
  split
  · rfl
  · split <;> rfl

theorem history_proxySwitch (now : Nat) : (e.proxySwitch s m now).1.history = e.history := by
  have get := e.history_shardKeyGet (s := s) m.key now
  unfold proxySwitch
  split
  case h_1 | h_2 | h_3 | h_4 | h_5 =>
    generalize e.shardKeyGet s m.key now = result at get ⊢
    obtain ⟨e', obj⟩ := result
    cases obj <;> exact get
  case h_6 => rfl
  case h_7 val flags ttl _ =>
    have set := e.history_shardKeySet (s := s) m.key val (e.setExpire s m.key now ttl) flags
    generalize e.shardKeySet s m.key val (e.setExpire s m.key now ttl) flags = result at set ⊢
    obtain ⟨e', done⟩ := result
    cases done <;> exact set
  case h_8 | h_9 | h_10 => exact history_shardKeyExpire _ _
  case h_11 => exact history_shardKeyDelete _

theorem history_proxyRun (now : Nat) : (e.proxyRun s m now).1.history ≠ e.history := by
  have before := history_proxySwitch (e := e) (s := s) (m := m) now
  simp [proxyRun, Engine.record, before]

theorem deferred_lockWqAddRegular (room : Bool) : (e.lockWqAddRegular l m room).Deferred l m ↔
    e.Deferred l m ∨ room = true ∨ (e.les l).openGroups m.origin ≠ [] := by
  by_cases full : (e.les l).openGroups m.origin = [] ∧ ¬room
  case pos => simp [lockWqAddRegular, full]
  case neg =>
    have added : (e.lockWqAddRegular l m room).Deferred l m := by
      refine .inl ⟨m.origin, ?_⟩
      rw [lockWqAddRegular, if_neg full]
      simp [setLe]
    have roomy : room = true ∨ (e.les l).openGroups m.origin ≠ [] := by
      by_contra none
      exact full (by simpa [and_comm] using none)
    simp [added, roomy]

theorem proxyExecReply_passed (passes : e.msetCheckLockDefer commit s m env = (e, false)) :
    ¬ e.Heeded commit s m env l := by
  intro heeded
  have same := heeded.unexecuted
  rw [proxyExecReply, passes] at same
  exact history_proxyRun _ same

theorem heeded_iff (commit : Engine → ShardId → StatId → Engine) (env : StepEnv) (holds : e.HoldsLock s m.key l c)
    (fresh : ¬ e.Deferred l m) : e.Heeded commit s m env l ↔ e.lockHolder s m.key = some l ∧ env.cmdInfoAlloc = true ∧
      (env.waitGroupAlloc = true ∨ (e.les l).openGroups m.origin ≠ []) := by
  cases found : e.lockHolder s m.key with
  | none =>
    have passes : e.msetCheckLockDefer commit s m env = (e, false) := by rw [msetCheckLockDefer, found]
    simp [proxyExecReply_passed passes]
  | some l' =>
    obtain rfl := holds.sole l' found
    have check : e.msetCheckLockDefer commit s m env = e.enqueueRegular m env (some l') := by
      simp only [msetCheckLockDefer, found, msetTryEarlyCommit, holds.holder, if_pos holds.unprepared]
    cases alloc : env.cmdInfoAlloc with
    | false =>
      have passes : e.msetCheckLockDefer commit s m env = (e, false) := by simp [check, enqueueRegular, alloc]
      simp [proxyExecReply_passed passes]
    | true =>
      have waits : e.msetCheckLockDefer commit s m env = (e.lockWqAddRegular l' m env.waitGroupAlloc, true) := by
        simp [check, enqueueRegular, alloc]
      have result : e.proxyExecReply commit s m env = (e.lockWqAddRegular l' m env.waitGroupAlloc, none) := by
        rw [proxyExecReply, waits]
      have queued := e.deferred_lockWqAddRegular (m := m) (l := l') env.waitGroupAlloc
      constructor
      · intro heeded
        obtain ⟨-, waiting⟩ | ⟨text, replied⟩ := heeded.kept
        · rw [result] at waiting
          exact ⟨rfl, rfl, (queued.1 waiting).resolve_left fresh⟩
        · rw [result] at replied
          cases replied
      · rintro ⟨-, -, room⟩
        refine ⟨?_, .inl ⟨by rw [waits], ?_⟩⟩
        · rw [result]
          unfold lockWqAddRegular
          dsimp only
          split <;> rfl
        · rw [result]
          exact queued.2 (.inr room)

def lockedActions : List Action :=
  [.client 0 (.mset [([98], [1]), ([97], [2])]) 1, .work 0 {}, .work 0 {}, .work 0 {}, .client 1 (.single .get [98]) 1,
    .work 0 {}]

def locked : Engine :=
  (Transition.follow Engine.step (fun _ _ => true) lockedActions (Engine.init 2 8 fun _ => 0)).getD
    (Engine.init 2 8 fun _ => 0)

def waiter : RegularReq :=
  { op := .get, key := [98], origin := 0, conn := 1, pipelineIdx := 0, subIdx := 0, rid := 0, arrival := 1 }

theorem locked_lockHolder : locked.lockHolder 0 [98] = some 0 := by decide +kernel

theorem locked_holds : locked.HoldsLock 0 [98] 0 0 where
  live := by decide +kernel
  here := by decide +kernel
  holder := by decide +kernel
  named := by decide +kernel
  unprepared := by decide +kernel
  sole l' found := by
    rw [locked_lockHolder] at found
    exact (Option.some.inj found).symm

theorem locked_fresh : ¬ locked.Deferred 0 waiter := by
  rintro (⟨o, there⟩ | ⟨group, queued, -⟩)
  · have none : (locked.les 0).openGroups o = [] := rfl
    simp [none] at there
  · have none : (locked.les 0).queue = [] := by decide +kernel
    simp [none] at queued

theorem heeded_get : locked.Heeded (fun e _ _ => e) 0 waiter {} 0 :=
  (heeded_iff (fun e _ _ => e) {} locked_holds locked_fresh).2 ⟨locked_lockHolder, rfl, .inl rfl⟩

theorem get_unheeded :
    (locked.shards 0).stack.head? = some (.proxyExec waiter) ∧ locked.HoldsLock 0 waiter.key 0 0 ∧
    ¬ locked.Heeded (fun e _ _ => e) 0 waiter { cmdInfoAlloc := false } 0 ∧
    ¬ locked.Heeded (fun e _ _ => e) 0 waiter { waitGroupAlloc := false } 0 := by
  refine ⟨by decide +kernel, locked_holds, fun heeded => ?_, fun heeded => ?_⟩
  · have longer : (locked.proxyExecReply (fun e _ _ => e) 0 waiter { cmdInfoAlloc := false }).1.history ≠
        locked.history := by decide +kernel
    exact longer heeded.unexecuted
  · obtain ⟨-, waiting⟩ | ⟨text, replied⟩ := heeded.kept
    · have same : (locked.proxyExecReply (fun e _ _ => e) 0 waiter { waitGroupAlloc := false }).1.les 0 = locked.les 0 := rfl
      rw [Deferred, same] at waiting
      exact locked_fresh waiting
    · have silent : (locked.proxyExecReply (fun e _ _ => e) 0 waiter { waitGroupAlloc := false }).2 = none := by
        decide +kernel
      rw [silent] at replied
      cases replied

end FreakV.Engine
