import FreakV.WaitQueue.Shape
import Mathlib.Data.List.Perm.Subperm

namespace FreakV.WaitQueue

open Linked

variable {w w' : WaitQueue} {g : GroupId} {cmd : CmdId} {sid : ShardId} {view : View} {loose : List Contents}

theorem cmds_updCmd (w : WaitQueue) (c d : CmdId) (f : Cmd → Cmd) :
    (w.updCmd c f).cmds d = if d = c then f (w.cmds c) else w.cmds d := by
  simp [updCmd, Function.update_apply]

theorem next_setNext (w : WaitQueue) (c d : CmdId) (next : Option CmdId) :
    ((w.setNext c next).cmds d).next = if d = c then next else (w.cmds d).next := by
  rw [setNext, cmds_updCmd]
  split <;> rfl

def Cmd.unlinked (cmd : Cmd) : Cmd := { cmd with next := none }

theorem unlinked_setNext (w : WaitQueue) (c d : CmdId) (next : Option CmdId) :
    ((w.setNext c next).cmds d).unlinked = (w.cmds d).unlinked := by
  rw [setNext, cmds_updCmd]
  split
  next same =>
    rw [same]
    rfl
  · rfl

structure Steady (w w' : WaitQueue) : Prop where
  numShards : w'.numShards = w.numShards
  holder : w'.holder = w.holder
  waiting : w'.waiting = w.waiting
  executed : w'.executed = w.executed
  kinds : ∀ c, (w'.cmds c).unlinked = (w.cmds c).unlinked

theorem Steady.isMset (steady : Steady w w') (c : CmdId) : (w'.cmds c).isMset = (w.cmds c).isMset := by
  have same := congrArg Cmd.isMset (steady.kinds c)
  exact same

theorem Steady.txn (steady : Steady w w') (c : CmdId) : (w'.cmds c).txn = (w.cmds c).txn := by
  have same := congrArg Cmd.txn (steady.kinds c)
  exact same

theorem Steady.originShard (steady : Steady w w') (c : CmdId) : (w'.cmds c).originShard = (w.cmds c).originShard := by
  have same := congrArg Cmd.originShard (steady.kinds c)
  exact same

theorem Steady.trans {w'' : WaitQueue} (first : Steady w w') (second : Steady w' w'') : Steady w w'' where
  numShards := second.numShards.trans first.numShards
  holder := second.holder.trans first.holder
  waiting := second.waiting.trans first.waiting
  executed := second.executed.trans first.executed
  kinds c := (second.kinds c).trans (first.kinds c)

theorem Relinked.steady (relinked : Relinked w w') : Steady w w' :=
  ⟨relinked.numShards, relinked.holder, relinked.waiting, relinked.executed, fun c => by rw [relinked.cmds]⟩

theorem Shape.fill (shape : Shape w view []) (new : cmd ∉ (view.all w.numShards).flatMap Prod.snd) (filled : Cmd) :
    Shape (w.fill cmd filled) view [] := by
  refine shape.transport (fun _ _ => rfl) (fun p there c inside => ?_) rfl rfl rfl rfl le_rfl
    (by simp) (by simp) shape.groups shape.cmds
  rw [WaitQueue.fill, cmds_updCmd, if_neg]
  rintro rfl
  exact new (List.mem_flatMap.2 ⟨p, there, inside⟩)

theorem Shape.close {p : Contents} (shape : Shape w view [p]) (txn : TxnId) : Shape (w.close p.1 txn) view [p] := by
  have outside : p.1 ∉ (view.all w.numShards).map Prod.fst := (List.nodup_cons.1 shape.groups).1
  refine shape.transport (fun q there => ?_) (fun _ _ _ _ => rfl) rfl rfl rfl rfl le_rfl ?_ ?_ shape.groups shape.cmds
  · rw [WaitQueue.close, groups_updGroup, if_neg]
    intro same
    exact outside (same ▸ List.mem_map_of_mem there)
  · intro q there
    rw [List.mem_singleton] at there
    subst there
    obtain ⟨head, tail, count⟩ := shape.keeps q (by simp)
    constructor <;> rw [WaitQueue.close, groups_updGroup, if_pos rfl]
    exacts [head, tail, count]
  · intro q there
    exact shape.fresh q (List.mem_append_left _ there)

theorem Shape.alloc (shape : Shape w view []) (new : cmd ∉ (view.all w.numShards).flatMap Prod.snd)
    (closed : Bool) (sid : ShardId) (txn : TxnId) :
    Shape (w.waitGroupAlloc closed sid txn cmd) view [(w.nextGroup, [cmd])] := by
  refine shape.transport (fun p there => ?_) (fun p there c inside => ?_) rfl rfl rfl rfl (Nat.le_succ _) ?_ ?_ ?_ ?_
  · have old := shape.fresh p there
    simp [waitGroupAlloc, setNext, updCmd, updGroup, old.ne]
  · have other : c ≠ cmd := by
      rintro rfl
      exact new (List.mem_flatMap.2 ⟨p, there, inside⟩)
    simp [waitGroupAlloc, setNext, updCmd, updGroup, other]
  · intro p there
    rw [List.mem_singleton] at there
    subst there
    constructor <;> simp [waitGroupAlloc, setNext, updCmd, updGroup, Linked.Path]
  · intro p there
    rw [List.mem_singleton] at there
    subst there
    exact Nat.lt_succ_self _
  · refine List.nodup_cons.2 ⟨fun there => ?_, shape.groups⟩
    obtain ⟨p, there, same⟩ := List.mem_map.1 there
    exact (shape.fresh p there).ne same
  · exact List.nodup_cons.2 ⟨new, shape.cmds⟩

section Extend

variable {front : List CmdId} {last : CmdId}

theorem cmds_appendBehind (w : WaitQueue) (g : GroupId) (last cmd c : CmdId) :
    (w.appendBehind g last cmd).cmds c = ((w.setNext cmd none).setNext last (some cmd)).cmds c := rfl

theorem groups_appendBehind (w : WaitQueue) (g h : GroupId) (last cmd : CmdId) :
    (w.appendBehind g last cmd).groups h =
      if h = g then { w.groups g with tail := some cmd, count := (w.groups g).count + 1 } else w.groups h :=
  groups_updGroup _ g h _

theorem steady_appendBehind (w : WaitQueue) (g : GroupId) (last cmd : CmdId) : Steady w (w.appendBehind g last cmd) where
  numShards := rfl
  holder := rfl
  waiting := rfl
  executed := rfl
  kinds c := by rw [cmds_appendBehind, unlinked_setNext, unlinked_setNext]

theorem Keeps.appendBehind (keeps : Keeps w (g, front ++ [last])) (nodup : (front ++ [last]).Nodup)
    (new : cmd ∉ front ++ [last]) : Keeps (w.appendBehind g last cmd) (g, front ++ [last] ++ [cmd]) where
  head := by
    have isNew (c : CmdId) (there : c ∈ front ++ [last]) : c ≠ cmd := fun same => new (same ▸ there)
    have isLast (c : CmdId) (there : c ∈ front) : c ≠ last := (List.nodup_append.1 nodup).2.2 c there last (by simp)
    rw [groups_appendBehind, if_pos rfl]
    refine Path.append keeps.head ?_ ?_ fun c there => ?_
    all_goals rw [cmds_appendBehind, next_setNext, next_setNext]
    · rw [if_pos rfl]
    · rw [if_neg (isNew last (by simp)).symm, if_pos rfl]
    · rw [if_neg (isLast c there), if_neg (isNew c (by simp [there]))]
  tail := by simp [groups_appendBehind]
  count := by simpa [groups_appendBehind] using keeps.count

theorem Shape.extend {cs : List CmdId} (shape : Shape w view [(g, cs)]) (nonempty : cs ≠ [])
    (new : cmd ∉ cs ++ (view.all w.numShards).flatMap Prod.snd) :
    ∃ w', w.append g cmd = some w' ∧ Steady w w' ∧ Shape w' view [(g, cs ++ [cmd])] ∧
      (w'.groups g).closed = (w.groups g).closed ∧ (w'.groups g).originShard = (w.groups g).originShard := by
  rcases List.eq_nil_or_concat' cs with rfl | ⟨front, last, rfl⟩
  case inl => exact absurd rfl nonempty
  have keeps := shape.keeps (g, front ++ [last]) (by simp)
  have tail : (w.groups g).tail = some last := keeps.tail.trans (by simp)
  have apart : (front ++ [last] ++ (view.all w.numShards).flatMap Prod.snd).Nodup := shape.cmds
  have outside : g ∉ (view.all w.numShards).map Prod.fst := (List.nodup_cons.1 shape.groups).1
  rw [WaitQueue.append, tail]
  refine ⟨_, rfl, steady_appendBehind w g last cmd, ?_, by simp [groups_appendBehind], by simp [groups_appendBehind]⟩
  refine shape.transport (fun p there => ?_) (fun p there c inside => ?_) rfl rfl rfl rfl le_rfl ?_ ?_ shape.groups ?_
  · rw [groups_appendBehind, if_neg]
    intro same
    exact outside (same ▸ List.mem_map_of_mem there)
  · have listed : c ∈ (view.all w.numShards).flatMap Prod.snd := List.mem_flatMap.2 ⟨p, there, inside⟩
    have notNew : c ≠ cmd := fun same => new (List.mem_append_right _ (same ▸ listed))
    have notLast : c ≠ last := fun same => (List.nodup_append.1 apart).2.2 last (by simp) c listed same.symm
    simp [cmds_appendBehind, setNext, cmds_updCmd, notNew, notLast]
  · intro p there
    rw [List.mem_singleton] at there
    subst there
    exact keeps.appendBehind (List.nodup_append.1 apart).1 fun there => new (List.mem_append_left _ there)
  · intro p there
    rw [List.mem_singleton] at there
    subst there
    exact shape.fresh (g, front ++ [last]) (by simp)
  · have cons : ([(g, front ++ [last] ++ [cmd])] ++ view.all w.numShards).flatMap Prod.snd =
        front ++ [last] ++ cmd :: (view.all w.numShards).flatMap Prod.snd := by simp
    rw [cons, List.nodup_middle]
    exact List.nodup_cons.2 ⟨new, apart⟩

end Extend

theorem filterMap_update {numShards : Nat} (inside : sid < numShards) (opened : ShardId → Option Contents)
    (new : Option Contents) :
    ((List.range numShards).filterMap (Function.update opened sid new)).Perm
      (new.toList ++ (List.range numShards).filterMap (Function.update opened sid none)) := by
  have first := List.perm_cons_erase (List.mem_range.2 inside)
  have others (value : Option Contents) : ((List.range numShards).erase sid).filterMap (Function.update opened sid value) =
      ((List.range numShards).erase sid).filterMap opened := by
    refine List.filterMap_congr fun other there => Function.update_of_ne ?_ _ _
    exact ((List.nodup_range.mem_erase_iff).1 there).1
  refine (first.filterMap _).trans (.trans ?_ ((first.filterMap _).symm.append_left _))
  rw [List.filterMap_cons, List.filterMap_cons, others, others, Function.update_self, Function.update_self]
  cases new <;> exact .refl _

def View.setOpen (view : View) (sid : ShardId) (new : Option Contents) : View :=
  ⟨view.queue, Function.update view.opened sid new⟩

theorem View.opened_setOpen (view : View) (sid other : ShardId) (new : Option Contents) :
    (view.setOpen sid new).opened other = if other = sid then new else view.opened other := by
  simp [View.setOpen, Function.update_apply]

theorem View.all_setOpen {numShards : Nat} {loose' : List Contents} {new : Option Contents} (inside : sid < numShards)
    (same : (new.toList ++ loose').Perm ((view.opened sid).toList ++ loose)) :
    (loose ++ view.all numShards).Perm (loose' ++ (view.setOpen sid new).all numShards) := by
  have before := filterMap_update inside view.opened (view.opened sid)
  have after := filterMap_update inside view.opened new
  rw [Function.update_eq_self] at before
  simp only [View.all, View.setOpen]
  rw [List.perm_iff_count] at same before after ⊢
  intro p
  have same := same p
  have before := before p
  have after := after p
  simp only [List.count_append] at same before after ⊢
  omega

theorem Shape.setOpen {loose' : List Contents} (shape : Shape w view loose) (inside : sid < w.numShards)
    (new : Option Contents) (opened : ∀ p, new = some p → Opened w sid p)
    (same : (new.toList ++ loose').Perm ((view.opened sid).toList ++ loose)) :
    Shape (w.setOpen sid (new.map Prod.fst)) (view.setOpen sid new) loose' where
  doubly := ⟨shape.doubly.next, shape.doubly.prev⟩
  sorted := shape.sorted
  closed p there := (shape.closed p there).congr rfl fun _ _ => rfl
  openGroups other := by
    have here := Function.update_apply w.openGroups sid (new.map Prod.fst) other
    refine here.trans ?_
    rw [View.opened_setOpen]
    split
    · rfl
    · exact shape.openGroups other
  shards other beyond := by
    have beyond : w.numShards ≤ other := beyond
    rw [View.opened_setOpen, if_neg (inside.trans_le beyond).ne']
    exact shape.shards other beyond
  opened other p there := by
    rw [View.opened_setOpen] at there
    split at there
    next here =>
      rw [here]
      exact (opened p there).congr rfl fun _ _ => rfl
    · exact (shape.opened other p there).congr rfl fun _ _ => rfl
  keeps p there :=
    (shape.keeps p ((View.all_setOpen inside same).mem_iff.2 there)).congr rfl fun _ _ => rfl
  fresh p there := shape.fresh p ((View.all_setOpen inside same).mem_iff.2 there)
  groups := ((View.all_setOpen inside same).map _).nodup_iff.1 shape.groups
  cmds := ((View.all_setOpen inside same).flatMap_right _).nodup_iff.1 shape.cmds

theorem Shape.putOpen {p : Contents} (shape : Shape w view [p]) (inside : sid < w.numShards)
    (free : view.opened sid = none) (own : Opened w sid p) :
    Shape (w.setOpen sid (some p.1)) (view.setOpen sid (some p)) [] ∧
      (((view.setOpen sid (some p)).all w.numShards).flatMap Prod.snd).Perm
        ((p :: view.all w.numShards).flatMap Prod.snd) := by
  have same : ((some p).toList ++ []).Perm ((view.opened sid).toList ++ [p]) := by simp [free]
  refine ⟨shape.setOpen inside (some p) (fun q here => ?_) same, ((View.all_setOpen inside same).flatMap_right _).symm⟩
  cases here
  exact own

theorem Shape.bound (shape : Shape w view loose) : (view.queue.map Prod.fst).length ≤ w.nextGroup := by
  have nodup : (view.queue.map Prod.fst).Nodup := by
    have all := shape.groups
    rw [List.map_append, View.all, List.map_append] at all
    exact (List.nodup_append.1 (List.nodup_append.1 all).2.1).1
  have within : view.queue.map Prod.fst ⊆ List.range w.nextGroup := by
    intro h there
    obtain ⟨p, listed, rfl⟩ := List.mem_map.1 there
    exact List.mem_range.2 (shape.fresh p (List.mem_append_right _ (View.mem_all_of_queue listed)))
  simpa using (List.Nodup.subperm nodup within).length_le

theorem Shape.relink {view' : View} {loose' : List Contents} (shape : Shape w view loose) (relinked : Relinked w w')
    (doubly : Doubly w' (view'.queue.map Prod.fst))
    (sorted : view'.queue.Pairwise fun a b => (w.groups a.1).txn < (w.groups b.1).txn)
    (closed : ∀ q ∈ view'.queue, Closed w q) (opened : view'.opened = view.opened)
    (perm : (loose ++ view.all w.numShards).Perm (loose' ++ view'.all w.numShards)) : Shape w' view' loose' where
  doubly := doubly
  sorted := by
    refine sorted.imp fun {a b} less => ?_
    rw [(Group.of_unlinked (relinked.groups a.1)).2.2.2.1, (Group.of_unlinked (relinked.groups b.1)).2.2.2.1]
    exact less
  closed q there := (closed q there).congr (relinked.groups _) fun c _ => by rw [relinked.cmds]
  openGroups := by
    rw [relinked.openGroups, opened]
    exact shape.openGroups
  shards := by
    rw [relinked.numShards, opened]
    exact shape.shards
  opened sid q there :=
    (shape.opened sid q (by rw [← opened]; exact there)).congr (relinked.groups _) fun c _ => by
      rw [relinked.cmds]
  keeps := by
    rw [relinked.numShards]
    exact fun q there => (shape.keeps q (perm.mem_iff.2 there)).congr (relinked.groups _) fun c _ => by
      rw [relinked.cmds]
  fresh := by
    rw [relinked.numShards, relinked.nextGroup]
    exact fun q there => shape.fresh q (perm.mem_iff.2 there)
  groups := by
    rw [relinked.numShards]
    exact (perm.map _).nodup_iff.1 shape.groups
  cmds := by
    rw [relinked.numShards]
    exact (perm.flatMap_right _).nodup_iff.1 shape.cmds

def View.enqueue (view : View) (txnOf : GroupId → TxnId) (p : Contents) : View :=
  ⟨FreakV.wqSortedInsert (txnOf ∘ Prod.fst) view.queue p, view.opened⟩

theorem View.all_enqueue (view : View) (txnOf : GroupId → TxnId) (p : Contents) (numShards : Nat) :
    ([p] ++ view.all numShards).Perm ([] ++ (view.enqueue txnOf p).all numShards) :=
  (wqSortedInsert_perm (txnOf ∘ Prod.fst) view.queue p).symm.append_right _

theorem Shape.enqueue {p : Contents} (shape : Shape w view [p]) (closed : Closed w p)
    (distinct : ∀ q ∈ view.queue, (w.groups q.1).txn ≠ (w.groups p.1).txn) :
    ∃ w', w.wqSortedInsert p.1 = some w' ∧ Relinked w w' ∧ Shape w' (view.enqueue (fun h => (w.groups h).txn) p) [] := by
  have ids := shape.groups
  rw [List.singleton_append, List.map_cons, View.all, List.map_append, List.nodup_cons] at ids
  have outside : p.1 ∉ view.queue.map Prod.fst := fun there => ids.1 (List.mem_append_left _ there)
  have nodup : (view.queue.map Prod.fst).Nodup := (List.nodup_append.1 ids.2).1
  obtain ⟨w', done, relinked, doubly⟩ := wqSortedInsert_spec shape.doubly nodup outside shape.bound
  have perm := View.all_enqueue view (fun h => (w.groups h).txn) p w.numShards
  refine ⟨w', done, relinked, ?_⟩
  rw [← wqSortedInsert_map] at doubly
  refine shape.relink relinked doubly ?_ (fun q there => ?_) rfl perm
  · exact wqSortedInsert_sorted _ shape.sorted distinct
  · have either : q ∈ p :: view.queue := (wqSortedInsert_perm _ view.queue p).mem_iff.1 there
    rcases List.mem_cons.1 either with rfl | there
    · exact closed
    · exact shape.closed q there

structure Good (w : WaitQueue) (view : View) : Prop where
  shape : Shape w view []
  waiting : ((view.all w.numShards).flatMap Prod.snd).Perm w.waiting

structure Adds (w w' : WaitQueue) (cmd : CmdId) : Prop where
  numShards : w'.numShards = w.numShards
  holder : w'.holder = w.holder
  waiting : w'.waiting = cmd :: w.waiting
  executed : w'.executed = w.executed

theorem Steady.adds {filled : Cmd} (steady : Steady (w.fill cmd filled) w') : Adds w (w'.await cmd) cmd where
  numShards := steady.numShards
  holder := steady.holder
  waiting := congrArg _ steady.waiting
  executed := steady.executed

theorem Shape.await (shape : Shape w view []) (cmd : CmdId) : Shape (w.await cmd) view [] :=
  shape.transport (fun _ _ => rfl) (fun _ _ _ _ => rfl) rfl rfl rfl rfl le_rfl (by simp) (by simp) shape.groups shape.cmds

theorem append_setOpen (w : WaitQueue) (sid : ShardId) (value : Option GroupId) (g : GroupId) (cmd : CmdId) :
    (w.setOpen sid value).append g cmd = (w.append g cmd).map (·.setOpen sid value) := by
  change (w.groups g).tail.map _ = ((w.groups g).tail.map _).map _
  rw [Option.map_map]
  rfl

theorem openGroups_append (done : w.append g cmd = some w') : w'.openGroups = w.openGroups := by
  obtain ⟨last, -, rfl⟩ := Option.map_eq_some_iff.1 done
  rfl

theorem Steady.setOpen {before after : Option GroupId} (steady : Steady (w.setOpen sid before) (w'.setOpen sid after)) :
    Steady w w' :=
  ⟨steady.numShards, steady.holder, steady.waiting, steady.executed, steady.kinds⟩

theorem flatMap_extend (g : GroupId) (cs : List CmdId) (cmd : CmdId) (others : List Contents) :
    (((g, cs ++ [cmd]) :: others).flatMap Prod.snd).Perm (cmd :: ((g, cs) :: others).flatMap Prod.snd) := by
  simp only [List.flatMap_cons, List.append_assoc, List.singleton_append]
  exact List.perm_middle

theorem Shape.extendOpen {cs : List CmdId} (shape : Shape w view []) (isOpen : view.opened sid = some (g, cs))
    (inside : sid < w.numShards) (new : cmd ∉ (view.all w.numShards).flatMap Prod.snd) :
    ∃ w', w.append g cmd = some w' ∧ Steady w w' ∧
      Shape (w'.setOpen sid none) (view.setOpen sid none) [(g, cs ++ [cmd])] ∧
      (w'.groups g).closed = false ∧ (w'.groups g).originShard = sid ∧
      (((g, cs ++ [cmd]) :: (view.setOpen sid none).all w.numShards).flatMap Prod.snd).Perm
        (cmd :: (view.all w.numShards).flatMap Prod.snd) := by
  have perm : ([] ++ view.all w.numShards).Perm ([(g, cs)] ++ (view.setOpen sid none).all w.numShards) :=
    View.all_setOpen inside (by simp [isOpen])
  have taken : Shape (w.setOpen sid none) (view.setOpen sid none) [(g, cs)] :=
    shape.setOpen inside none (by simp) (by simp [isOpen])
  have own := shape.opened sid (g, cs) isOpen
  have absent : cmd ∉ cs ++ ((view.setOpen sid none).all w.numShards).flatMap Prod.snd := fun there =>
    new ((perm.flatMap_right Prod.snd).mem_iff.2 there)
  obtain ⟨w'', done, steady, after, closed, originShard⟩ := taken.extend own.nonempty absent
  rw [append_setOpen] at done
  obtain ⟨w', appended, rfl⟩ := Option.map_eq_some_iff.1 done
  exact ⟨w', appended, steady.setOpen, after, closed.trans own.closed, originShard.trans own.originShard,
    (flatMap_extend g cs cmd _).trans ((perm.symm.flatMap_right _).cons cmd)⟩

theorem setOpen_setOpen_self (isOpen : w.openGroups sid = some g) : (w.setOpen sid none).setOpen sid (some g) = w := by
  simp only [WaitQueue.setOpen, Function.update_idem]
  rw [← isOpen, Function.update_eq_self]

theorem steady_waitGroupAlloc (w : WaitQueue) (closed : Bool) (sid : ShardId) (txn : TxnId) (cmd : CmdId) :
    Steady w (w.waitGroupAlloc closed sid txn cmd) where
  numShards := rfl
  holder := rfl
  waiting := rfl
  executed := rfl
  kinds c := unlinked_setNext w cmd c none

theorem groups_waitGroupAlloc (w : WaitQueue) (closed : Bool) (sid : ShardId) (txn : TxnId) (cmd : CmdId) :
    (w.waitGroupAlloc closed sid txn cmd).groups w.nextGroup =
      { closed := closed, originShard := sid, txn := txn, head := some cmd, tail := some cmd, count := 1 } := by
  simp [waitGroupAlloc, setNext, updCmd, updGroup]

theorem Shape.addRegular (shape : Shape w view []) (regular : (w.cmds cmd).isMset = false)
    (inside : (w.cmds cmd).originShard < w.numShards) (new : cmd ∉ (view.all w.numShards).flatMap Prod.snd) :
    ∃ w' view', w.lockWqAddRegular cmd = some w' ∧ Steady w w' ∧ Shape w' view' [] ∧
      ((view'.all w.numShards).flatMap Prod.snd).Perm (cmd :: (view.all w.numShards).flatMap Prod.snd) := by
  generalize origin : (w.cmds cmd).originShard = sid at inside
  have openGroups := shape.openGroups sid
  rw [lockWqAddRegular, origin]
  cases isOpen : view.opened sid with
  | none =>
    rw [isOpen] at openGroups
    simp only [openGroups, Option.map_none]
    have steady := steady_waitGroupAlloc w false sid default cmd
    have own : Opened (w.waitGroupAlloc false sid default cmd) sid (w.nextGroup, [cmd]) := by
      refine ⟨by rw [groups_waitGroupAlloc], by rw [groups_waitGroupAlloc], by simp, fun c there => ?_⟩
      cases List.mem_singleton.1 there
      rw [steady.isMset, steady.originShard]
      exact ⟨regular, origin⟩
    obtain ⟨shape, perm⟩ := (shape.alloc new false sid default).putOpen inside isOpen own
    exact ⟨_, _, rfl, ⟨rfl, rfl, rfl, rfl, steady.kinds⟩, shape, perm⟩
  | some p =>
    obtain ⟨g, cs⟩ := p
    rw [isOpen] at openGroups
    simp only [openGroups, Option.map_some]
    obtain ⟨w', done, steady, after, closed, originShard, perm⟩ := shape.extendOpen isOpen inside new
    have still : w'.openGroups sid = some g := (congrFun (openGroups_append done) sid).trans openGroups
    have own : Opened (w'.setOpen sid none) sid (g, cs ++ [cmd]) := by
      refine ⟨closed, originShard, by simp, fun c there => ?_⟩
      change (w'.cmds c).isMset = false ∧ (w'.cmds c).originShard = sid
      rw [steady.isMset, steady.originShard]
      rcases List.mem_append.1 there with there | there
      · exact (shape.opened sid (g, cs) isOpen).regular c there
      · cases List.mem_singleton.1 there
        exact ⟨regular, origin⟩
    have within : sid < (w'.setOpen sid none).numShards := inside.trans_eq steady.numShards.symm
    obtain ⟨shape, moved⟩ := after.putOpen within (by simp [View.opened_setOpen]) own
    rw [setOpen_setOpen_self still] at shape
    refine ⟨w', _, done, steady, shape, ?_⟩
    rw [← steady.numShards]
    exact moved.trans (by rw [← steady.numShards] at perm; exact perm)

def Unused (w : WaitQueue) (view : View) (txn : TxnId) : Prop :=
  ∀ q ∈ view.queue, ∀ c ∈ q.2, (w.cmds c).isMset = true → (w.cmds c).txn ≠ txn

theorem Unused.steady {txn : TxnId} (unused : Unused w view txn) (steady : Steady w w') : Unused w' view txn := by
  intro q there c inside isMset
  rw [steady.isMset] at isMset
  rw [steady.txn]
  exact unused q there c inside isMset

theorem Shape.enqueue_unused {p : Contents} (shape : Shape w view [p]) (closed : Closed w p)
    (unused : Unused w view (w.groups p.1).txn) :
    ∃ w' view', w.wqSortedInsert p.1 = some w' ∧ Steady w w' ∧ Shape w' view' [] ∧
      ((view'.all w.numShards).flatMap Prod.snd).Perm ((p :: view.all w.numShards).flatMap Prod.snd) := by
  have distinct (q : Contents) (there : q ∈ view.queue) : (w.groups q.1).txn ≠ (w.groups p.1).txn := by
    obtain ⟨regulars, anchor, parts, -, isMset, labelled⟩ := (shape.closed q there).anchored
    rw [labelled]
    exact unused q there anchor (by simp [parts]) isMset
  obtain ⟨w', done, relinked, after⟩ := shape.enqueue closed distinct
  exact ⟨w', _, done, relinked.steady, after, ((View.all_enqueue view _ p w.numShards).flatMap_right _).symm⟩

theorem Shape.addMset (shape : Shape w view []) (isMset : (w.cmds cmd).isMset = true)
    (inside : (w.cmds cmd).originShard < w.numShards) (new : cmd ∉ (view.all w.numShards).flatMap Prod.snd)
    (unused : Unused w view (w.cmds cmd).txn) :
    ∃ w' view', w.lockWqAddMset cmd = some w' ∧ Steady w w' ∧ Shape w' view' [] ∧
      ((view'.all w.numShards).flatMap Prod.snd).Perm (cmd :: (view.all w.numShards).flatMap Prod.snd) := by
  generalize origin : (w.cmds cmd).originShard = sid at inside
  have openGroups := shape.openGroups sid
  rw [lockWqAddMset, origin]
  cases isOpen : view.opened sid with
  | none =>
    rw [isOpen] at openGroups
    simp only [openGroups, Option.map_none]
    have steady := steady_waitGroupAlloc w true sid (w.cmds cmd).txn cmd
    have label := groups_waitGroupAlloc w true sid (w.cmds cmd).txn cmd
    have closed : Closed (w.waitGroupAlloc true sid (w.cmds cmd).txn cmd) (w.nextGroup, [cmd]) := by
      refine ⟨by rw [label], [], cmd, rfl, by simp, ?_, ?_⟩
      · rw [steady.isMset, isMset]
      · rw [label, steady.txn]
    have loose := shape.alloc new true sid (w.cmds cmd).txn
    obtain ⟨w', view', done, moved, after, perm⟩ := loose.enqueue_unused closed (by rw [label]; exact unused.steady steady)
    exact ⟨w', view', done, steady.trans moved, after, perm⟩
  | some p =>
    obtain ⟨g, cs⟩ := p
    rw [isOpen] at openGroups
    simp only [openGroups, Option.map_some]
    obtain ⟨v, done, steady, loose, -, -, perm⟩ := shape.extendOpen isOpen inside new
    have loose := loose.close (w.cmds cmd).txn
    have same : Steady w ((v.setOpen sid none).close g (w.cmds cmd).txn) :=
      ⟨steady.numShards, steady.holder, steady.waiting, steady.executed, steady.kinds⟩
    have label : ((v.setOpen sid none).close g (w.cmds cmd).txn).groups g =
        { (v.setOpen sid none).groups g with txn := (w.cmds cmd).txn, closed := true } := by
      rw [WaitQueue.close, groups_updGroup, if_pos rfl]
    have closed : Closed ((v.setOpen sid none).close g (w.cmds cmd).txn) (g, cs ++ [cmd]) := by
      refine ⟨by rw [label], cs, cmd, rfl, fun c there => ?_, ?_, ?_⟩
      · rw [same.isMset]
        exact ((shape.opened sid (g, cs) isOpen).regular c there).1
      · rw [same.isMset, isMset]
      · rw [label, same.txn]
    have unused : Unused w (view.setOpen sid none) (w.cmds cmd).txn := unused
    obtain ⟨w', view', inserted, moved, after, all⟩ := loose.enqueue_unused closed (by rw [label]; exact unused.steady same)
    refine ⟨w', view', ?_, same.trans moved, after, ?_⟩
    · rw [done]
      exact inserted
    · rw [same.numShards] at all
      exact all.trans perm

theorem Good.added {filled : Cmd} {view' : View} (good : Good w view) (steady : Steady (w.fill cmd filled) w')
    (shape : Shape w' view' []) (perm : ((view'.all w.numShards).flatMap Prod.snd).Perm
      (cmd :: (view.all w.numShards).flatMap Prod.snd)) : Good (w'.await cmd) view' where
  shape := shape.await cmd
  waiting := by
    have waiting : w'.waiting = w.waiting := steady.waiting
    have numShards : w'.numShards = w.numShards := steady.numShards
    change ((view'.all w'.numShards).flatMap Prod.snd).Perm (cmd :: w'.waiting)
    rw [waiting, numShards]
    exact perm.trans (good.waiting.cons cmd)

theorem cmds_fill (w : WaitQueue) (cmd : CmdId) (filled : Cmd) : (w.fill cmd filled).cmds cmd = filled := by
  rw [fill, cmds_updCmd, if_pos rfl]

theorem Good.absent (good : Good w view) (new : cmd ∉ w.waiting) : cmd ∉ (view.all w.numShards).flatMap Prod.snd :=
  fun there => new (good.waiting.mem_iff.1 there)

theorem Good.addRegular {origin : ShardId} (good : Good w view) (allowed : w.Allowed (.addRegular cmd origin)) :
    ∃ w' view', w.step (.addRegular cmd origin) = some w' ∧ Adds w w' cmd ∧ Good w' view' := by
  obtain ⟨new, inside⟩ := allowed
  have shape := good.shape.fill (good.absent new) { originShard := origin }
  obtain ⟨w', view', done, steady, after, perm⟩ := shape.addRegular (by rw [cmds_fill]) (by rw [cmds_fill]; exact inside)
    (good.absent new)
  exact ⟨w'.await cmd, view', by rw [step, done]; rfl, steady.adds, good.added steady after perm⟩

theorem Good.addMset {origin : ShardId} {txn : TxnId} (good : Good w view) (allowed : w.Allowed (.addMset cmd origin txn)) :
    ∃ w' view', w.step (.addMset cmd origin txn) = some w' ∧ Adds w w' cmd ∧ Good w' view' := by
  obtain ⟨new, inside, distinct⟩ := allowed
  have shape := good.shape.fill (good.absent new) { isMset := true, txn := txn, originShard := origin }
  have unused : Unused (w.fill cmd { isMset := true, txn := txn, originShard := origin }) view txn := by
    intro q there c listed isMset
    have waits : c ∈ w.waiting :=
      good.waiting.mem_iff.1 (List.mem_flatMap.2 ⟨q, View.mem_all_of_queue there, listed⟩)
    have other : c ≠ cmd := fun same => new (same ▸ waits)
    rw [WaitQueue.fill, cmds_updCmd, if_neg other] at isMset ⊢
    exact distinct c waits isMset
  obtain ⟨w', view', done, steady, after, perm⟩ := shape.addMset (by rw [cmds_fill]) (by rw [cmds_fill]; exact inside)
    (good.absent new) (by rw [cmds_fill]; exact unused)
  exact ⟨w'.await cmd, view', by rw [step, done]; rfl, steady.adds, good.added steady after perm⟩

end FreakV.WaitQueue
