import FreakV.WaitQueue.Lists
import FreakV.Lib.Chain
import Mathlib.Data.List.TakeWhile

namespace FreakV.WaitQueue

open Linked

variable {w w' : WaitQueue} {g : GroupId} {ids : List GroupId}

section Queue

theorem groups_updGroup (w : WaitQueue) (g h : GroupId) (f : Group → Group) :
    (w.updGroup g f).groups h = if h = g then f (w.groups g) else w.groups h := by
  simp [updGroup, Function.update_apply]

theorem field_updGroup {T : Type} (field : Group → T) {f : Group → Group} (kept : ∀ group, field (f group) = field group)
    (w : WaitQueue) (g h : GroupId) : field ((w.updGroup g f).groups h) = field (w.groups h) := by
  rw [groups_updGroup]
  split
  next same => rw [kept, same]
  · rfl

theorem queueNext_setQueueNext (w : WaitQueue) (g h : GroupId) (next : Option GroupId) :
    ((w.setQueueNext g next).groups h).queueNext = if h = g then next else (w.groups h).queueNext := by
  rw [setQueueNext, groups_updGroup]
  split <;> rfl

theorem queueNext_setQueuePrev (w : WaitQueue) (g h : GroupId) (prev : Option GroupId) :
    ((w.setQueuePrev g prev).groups h).queueNext = (w.groups h).queueNext := by
  refine field_updGroup Group.queueNext ?_ w g h
  exact fun _ => rfl

theorem queuePrev_setQueuePrev (w : WaitQueue) (g h : GroupId) (prev : Option GroupId) :
    ((w.setQueuePrev g prev).groups h).queuePrev = if h = g then prev else (w.groups h).queuePrev := by
  rw [setQueuePrev, groups_updGroup]
  split <;> rfl

theorem queuePrev_setQueueNext (w : WaitQueue) (g h : GroupId) (next : Option GroupId) :
    ((w.setQueueNext g next).groups h).queuePrev = (w.groups h).queuePrev := by
  refine field_updGroup Group.queuePrev ?_ w g h
  exact fun _ => rfl

def Group.unlinked (group : Group) : Group := { group with queueNext := none, queuePrev := none }

theorem Group.of_unlinked {a b : Group} (same : a.unlinked = b.unlinked) : a.head = b.head ∧ a.tail = b.tail ∧
    a.count = b.count ∧ a.txn = b.txn ∧ a.closed = b.closed ∧ a.originShard = b.originShard := by
  cases a
  cases b
  simpa [Group.unlinked] using same

structure Relinked (w w' : WaitQueue) : Prop where
  cmds : w'.cmds = w.cmds
  openGroups : w'.openGroups = w.openGroups
  numShards : w'.numShards = w.numShards
  nextGroup : w'.nextGroup = w.nextGroup
  holder : w'.holder = w.holder
  waiting : w'.waiting = w.waiting
  executed : w'.executed = w.executed
  groups : ∀ h, (w'.groups h).unlinked = (w.groups h).unlinked

theorem Relinked.refl (w : WaitQueue) : Relinked w w := ⟨rfl, rfl, rfl, rfl, rfl, rfl, rfl, fun _ => rfl⟩

theorem Relinked.trans {w'' : WaitQueue} (first : Relinked w w') (second : Relinked w' w'') : Relinked w w'' where
  cmds := second.cmds.trans first.cmds
  openGroups := second.openGroups.trans first.openGroups
  numShards := second.numShards.trans first.numShards
  nextGroup := second.nextGroup.trans first.nextGroup
  holder := second.holder.trans first.holder
  waiting := second.waiting.trans first.waiting
  executed := second.executed.trans first.executed
  groups h := (second.groups h).trans (first.groups h)

theorem relinked_setQueueNext (w : WaitQueue) (g : GroupId) (next : Option GroupId) : Relinked w (w.setQueueNext g next) :=
  { Relinked.refl w with
    groups := fun h => by
      refine field_updGroup Group.unlinked ?_ w g h
      exact fun _ => rfl }

theorem relinked_setQueuePrev (w : WaitQueue) (g : GroupId) (prev : Option GroupId) : Relinked w (w.setQueuePrev g prev) :=
  { Relinked.refl w with
    groups := fun h => by
      refine field_updGroup Group.unlinked ?_ w g h
      exact fun _ => rfl }

theorem Relinked.ends {head tail : Option GroupId} (relinked : Relinked w w') :
    Relinked w { w' with queueHead := head, queueTail := tail } :=
  { relinked with }

structure Doubly (w : WaitQueue) (ids : List GroupId) : Prop where
  next : Path (fun h => (w.groups h).queueNext) w.queueHead ids none
  prev : Path (fun h => (w.groups h).queuePrev) w.queueTail ids.reverse none

structure Inserted (w w' : WaitQueue) (front : List GroupId) (g : GroupId) (back : List GroupId) : Prop where
  relinked : Relinked w w'
  head : w'.queueHead = if front = [] then some g else w.queueHead
  tail : w'.queueTail = if back = [] then some g else w.queueTail
  next : ∀ h, (w'.groups h).queueNext =
    if h = g then back.head? else if front.getLast? = some h then some g else (w.groups h).queueNext
  prev : ∀ h, (w'.groups h).queuePrev =
    if h = g then front.getLast? else if back.head? = some h then some g else (w.groups h).queuePrev

theorem Inserted.doubly {front back : List GroupId} (inserted : Inserted w w' front g back)
    (doubly : Doubly w (front ++ back)) (nodup : (front ++ back).Nodup) (new : g ∉ front ++ back) :
    Doubly w' (front ++ g :: back) := by
  have apart (h : GroupId) (there : h ∈ front ++ back) : h ≠ g := fun same => new (same ▸ there)
  have notLast (h : GroupId) (last : front.getLast? = some h) : h ≠ g :=
    apart h (List.mem_append_left _ (List.mem_of_getLast? last))
  have notFirst (h : GroupId) (first : back.head? = some h) : h ≠ g :=
    apart h (List.mem_append_right _ (List.mem_of_mem_head? first))
  constructor
  · refine doubly.next.insert nodup inserted.head (fun last isLast => ?_) ?_ fun h there other => ?_
    · rw [inserted.next, if_neg (notLast last isLast), if_pos isLast]
    · rw [inserted.next, if_pos rfl]
    · rw [inserted.next, if_neg (apart h there), if_neg other]
  · have backwards : (front ++ g :: back).reverse = back.reverse ++ g :: front.reverse := by simp
    have old : Path (fun h => (w.groups h).queuePrev) w.queueTail (back.reverse ++ front.reverse) none := by
      simpa using doubly.prev
    have distinct : (back.reverse ++ front.reverse).Nodup := by
      rw [← List.reverse_append]
      exact List.nodup_reverse.2 nodup
    rw [backwards]
    refine old.insert distinct ?_ (fun first isFirst => ?_) ?_ fun h there other => ?_
    · simpa using inserted.tail
    · rw [List.getLast?_reverse] at isFirst
      rw [inserted.prev, if_neg (notFirst first isFirst), if_pos isFirst]
    · rw [inserted.prev, if_pos rfl, List.head?_reverse]
    · rw [List.getLast?_reverse] at other
      have there : h ∈ front ++ back := by
        rw [← List.mem_reverse]
        simpa using there
      rw [inserted.prev, if_neg (apart h there), if_neg other]

theorem walk_eq (groups : GroupId → Group) (txn : TxnId) {fuel : Nat} {start : Option GroupId}
    (path : Path (fun h => (groups h).queueNext) start ids none) (enough : ids.length ≤ fuel) :
    walk groups txn fuel start = some (ids.dropWhile fun h => txnIdCmp (groups h).txn txn < 0).head? := by
  induction ids generalizing start fuel with
  | nil =>
    cases path
    cases fuel <;> rfl
  | cons h rest ih =>
    obtain ⟨rfl, path⟩ := path
    cases fuel with
    | zero => simp at enough
    | succ fuel =>
      unfold walk
      by_cases less : txnIdCmp (groups h).txn txn < 0
      case pos => simp [less, ih path (by simpa using enough)]
      case neg => simp [less]

theorem wqInsertBefore_eq {G : Type} (txnOf : G → TxnId) (group : G) (queue : List G) :
    wqInsertBefore txnOf group queue = (queue.takeWhile fun h => txnIdCmp (txnOf h) (txnOf group) < 0) ++
      group :: queue.dropWhile fun h => txnIdCmp (txnOf h) (txnOf group) < 0 := by
  induction queue with
  | nil => rfl
  | cons cur rest ih =>
    unfold wqInsertBefore
    by_cases less : txnIdCmp (txnOf cur) (txnOf group) < 0
    case pos => simp [less, ih]
    case neg => simp [less]

theorem inserted_empty (w : WaitQueue) (g : GroupId) :
    Inserted w (({ w with queueHead := some g, queueTail := some g }.setQueuePrev g none).setQueueNext g none) [] g [] where
  relinked := (Relinked.refl w).ends.trans ((relinked_setQueuePrev _ g none).trans (relinked_setQueueNext _ g none))
  head := rfl
  tail := rfl
  next h := by simp [queueNext_setQueueNext, queueNext_setQueuePrev]
  prev h := by simp [queuePrev_setQueueNext, queuePrev_setQueuePrev]

theorem inserted_tail {front : List GroupId} {tail : GroupId} (last : front.getLast? = some tail) (other : tail ≠ g) :
    Inserted w { ((w.setQueuePrev g (some tail)).setQueueNext g none).setQueueNext tail (some g) with queueTail := some g }
      front g [] where
  relinked := ((relinked_setQueuePrev w g _).trans ((relinked_setQueueNext _ g none).trans
    (relinked_setQueueNext _ tail (some g)))).ends
  head := (if_neg (by rintro rfl; cases last)).symm
  tail := rfl
  next h := by
    rw [last, queueNext_setQueueNext, queueNext_setQueueNext, queueNext_setQueuePrev]
    by_cases isNew : h = g
    case pos => simp [isNew, other.symm]
    case neg => simp [isNew, eq_comm]
  prev h := by simp [queuePrev_setQueueNext, queuePrev_setQueuePrev, last]

theorem relinked_linkNext (w : WaitQueue) (prev : Option GroupId) (g : GroupId) : Relinked w (w.linkNext prev g) := by
  cases prev with
  | none => exact (Relinked.refl w).ends
  | some p => exact relinked_setQueueNext w p (some g)

theorem queueNext_linkNext (w : WaitQueue) (prev : Option GroupId) (g h : GroupId) :
    ((w.linkNext prev g).groups h).queueNext = if prev = some h then some g else (w.groups h).queueNext := by
  cases prev with
  | none => rfl
  | some p => simp [linkNext, queueNext_setQueueNext, eq_comm]

theorem queuePrev_linkNext (w : WaitQueue) (prev : Option GroupId) (g h : GroupId) :
    ((w.linkNext prev g).groups h).queuePrev = (w.groups h).queuePrev := by
  cases prev with
  | none => rfl
  | some p => exact queuePrev_setQueueNext w p h (some g)

theorem inserted_before {front : List GroupId} {cur : GroupId} {prev : Option GroupId} (back : List GroupId)
    (before : front.getLast? = prev) (other : cur ≠ g) (apart : prev ≠ some g) :
    Inserted w ((((w.setQueueNext g (some cur)).setQueuePrev g prev).linkNext prev g).linkPrev (some cur) g)
      front g (cur :: back) where
  relinked := ((relinked_setQueueNext w g _).trans ((relinked_setQueuePrev _ g _).trans (relinked_linkNext _ _ g))).trans
    (relinked_setQueuePrev _ cur (some g))
  head := by
    subst before
    rcases List.eq_nil_or_concat' front with rfl | ⟨others, last, rfl⟩
    · rfl
    · simp [linkNext, linkPrev, setQueuePrev, setQueueNext, updGroup]
  tail := by
    cases prev <;> simp [linkNext, linkPrev, setQueuePrev, setQueueNext, updGroup]
  next h := by
    rw [before, linkPrev, queueNext_setQueuePrev, queueNext_linkNext, queueNext_setQueuePrev, queueNext_setQueueNext]
    by_cases isNew : h = g
    case pos => simp [isNew, apart]
    case neg => simp [isNew]
  prev h := by
    rw [before, linkPrev, queuePrev_setQueuePrev, queuePrev_linkNext, queuePrev_setQueuePrev, queuePrev_setQueueNext]
    by_cases isNew : h = g
    case pos => simp [isNew, other.symm]
    case neg => simp [isNew, eq_comm]

theorem wqSortedInsert_spec (doubly : Doubly w ids) (nodup : ids.Nodup) (new : g ∉ ids) (bound : ids.length ≤ w.nextGroup) :
    ∃ w', w.wqSortedInsert g = some w' ∧ Relinked w w' ∧
      Doubly w' (FreakV.wqSortedInsert (fun h => (w.groups h).txn) ids g) := by
  have head : w.queueHead = ids.head? := doubly.next.start_eq.trans (by simp)
  have tail : w.queueTail = ids.getLast? := doubly.prev.start_eq.trans (by simp)
  unfold wqSortedInsert FreakV.wqSortedInsert
  rcases List.eq_nil_or_concat' ids with rfl | ⟨others, last, rfl⟩
  case inl =>
    rw [head]
    have inserted := inserted_empty w g
    exact ⟨_, rfl, inserted.relinked, inserted.doubly doubly nodup new⟩
  have some_head : ∃ first, w.queueHead = some first := by
    rw [head]
    cases others <;> simp
  obtain ⟨first, isFirst⟩ := some_head
  rw [List.getLast?_concat] at tail
  simp only [isFirst, tail, List.getLast?_concat]
  have apart (h : GroupId) (there : h ∈ others ++ [last]) : h ≠ g := fun same => new (same ▸ there)
  split
  · have inserted := inserted_tail (w := w) (List.getLast?_concat (l := others)) (apart last (by simp))
    refine ⟨_, rfl, inserted.relinked, inserted.doubly ?_ ?_ ?_⟩
    all_goals rw [List.append_nil]
    exacts [doubly, nodup, new]
  next less =>
    rw [txnIdCmp_nonneg, not_le] at less
    rw [← isFirst, walk_eq w.groups _ doubly.next bound, wqInsertBefore_eq]
    -- the walk stops at the tail if not before
    generalize parts : (others ++ [last]).dropWhile (fun h => txnIdCmp (w.groups h).txn (w.groups g).txn < 0) = back
    generalize ahead : (others ++ [last]).takeWhile (fun h => txnIdCmp (w.groups h).txn (w.groups g).txn < 0) = front
    have split : others ++ [last] = front ++ back := by rw [← parts, ← ahead, List.takeWhile_append_dropWhile]
    cases back with
    | nil =>
      have passed := List.dropWhile_eq_nil_iff.1 parts last (by simp)
      rw [decide_eq_true_eq, txnIdCmp_neg] at passed
      exact absurd passed less.asymm
    | cons cur back =>
      rw [split] at doubly nodup new apart
      have before : (w.groups cur).queuePrev = front.getLast? := by
        have path := doubly.prev
        rw [List.reverse_append, List.reverse_cons, List.append_assoc] at path
        exact path.next_eq.trans (by simp)
      have inserted := inserted_before (w := w) back before.symm (apart cur (by simp)) fun isNew =>
        apart g (List.mem_append_left _ (List.mem_of_getLast? (before.symm.trans isNew))) rfl
      exact ⟨_, rfl, inserted.relinked, inserted.doubly doubly nodup new⟩

end Queue

abbrev Contents := GroupId × List CmdId

structure Keeps (w : WaitQueue) (p : Contents) : Prop where
  head : Path (fun c => (w.cmds c).next) (w.groups p.1).head p.2 none
  tail : (w.groups p.1).tail = p.2.getLast?
  count : (w.groups p.1).count = p.2.length

structure Closed (w : WaitQueue) (p : Contents) : Prop where
  closed : (w.groups p.1).closed = true
  anchored : ∃ regulars anchor, p.2 = regulars ++ [anchor] ∧ (∀ c ∈ regulars, (w.cmds c).isMset = false) ∧
    (w.cmds anchor).isMset = true ∧ (w.groups p.1).txn = (w.cmds anchor).txn

structure Opened (w : WaitQueue) (sid : ShardId) (p : Contents) : Prop where
  closed : (w.groups p.1).closed = false
  originShard : (w.groups p.1).originShard = sid
  nonempty : p.2 ≠ []
  regular : ∀ c ∈ p.2, (w.cmds c).isMset = false ∧ (w.cmds c).originShard = sid

structure View where
  queue : List Contents
  opened : ShardId → Option Contents

def View.all (view : View) (numShards : Nat) : List Contents := view.queue ++ (List.range numShards).filterMap view.opened

structure Shape (w : WaitQueue) (view : View) (loose : List Contents) : Prop where
  doubly : Doubly w (view.queue.map Prod.fst)
  sorted : view.queue.Pairwise fun a b => (w.groups a.1).txn < (w.groups b.1).txn
  closed : ∀ p ∈ view.queue, Closed w p
  openGroups : ∀ sid, w.openGroups sid = (view.opened sid).map Prod.fst
  shards : ∀ sid, w.numShards ≤ sid → view.opened sid = none
  opened : ∀ sid p, view.opened sid = some p → Opened w sid p
  keeps : ∀ p ∈ loose ++ view.all w.numShards, Keeps w p
  fresh : ∀ p ∈ loose ++ view.all w.numShards, p.1 < w.nextGroup
  groups : ((loose ++ view.all w.numShards).map Prod.fst).Nodup
  cmds : ((loose ++ view.all w.numShards).flatMap Prod.snd).Nodup

section Transport

variable {view : View} {loose loose' : List Contents}

variable {p : Contents}

theorem Keeps.congr (keeps : Keeps w p) (same : (w'.groups p.1).unlinked = (w.groups p.1).unlinked)
    (next : ∀ c ∈ p.2, (w'.cmds c).next = (w.cmds c).next) : Keeps w' p := by
  obtain ⟨head, tail, count, -⟩ := Group.of_unlinked same
  refine ⟨?_, tail.trans keeps.tail, count.trans keeps.count⟩
  rw [head]
  exact keeps.head.congr next

theorem Closed.congr (old : Closed w p) (same : (w'.groups p.1).unlinked = (w.groups p.1).unlinked)
    (cmds : ∀ c ∈ p.2, w'.cmds c = w.cmds c) : Closed w' p := by
  obtain ⟨-, -, -, txn, closed, -⟩ := Group.of_unlinked same
  obtain ⟨regulars, anchor, parts, regular, isMset, labelled⟩ := old.anchored
  refine ⟨closed.trans old.closed, regulars, anchor, parts, fun c there => ?_, ?_, ?_⟩
  · rw [cmds c (by simp [parts, there]), regular c there]
  · rw [cmds anchor (by simp [parts]), isMset]
  · rw [txn, cmds anchor (by simp [parts]), labelled]

theorem Opened.congr {sid : ShardId} (old : Opened w sid p) (same : (w'.groups p.1).unlinked = (w.groups p.1).unlinked)
    (cmds : ∀ c ∈ p.2, w'.cmds c = w.cmds c) : Opened w' sid p := by
  obtain ⟨-, -, -, -, closed, originShard⟩ := Group.of_unlinked same
  refine ⟨closed.trans old.closed, originShard.trans old.originShard, old.nonempty, fun c there => ?_⟩
  rw [cmds c there]
  exact old.regular c there

theorem View.mem_all_of_queue {n : Nat} (there : p ∈ view.queue) : p ∈ view.all n :=
  List.mem_append_left _ there

theorem Shape.mem_all_of_opened (shape : Shape w view loose) {sid : ShardId} (there : view.opened sid = some p) :
    p ∈ view.all w.numShards := by
  refine List.mem_append_right _ (List.mem_filterMap.2 ⟨sid, List.mem_range.2 ?_, there⟩)
  by_contra beyond
  rw [shape.shards sid (not_lt.1 beyond)] at there
  cases there

theorem Shape.transport (shape : Shape w view loose)
    (groups : ∀ p ∈ view.all w.numShards, w'.groups p.1 = w.groups p.1)
    (cmds : ∀ p ∈ view.all w.numShards, ∀ c ∈ p.2, w'.cmds c = w.cmds c)
    (head : w'.queueHead = w.queueHead) (tail : w'.queueTail = w.queueTail) (openGroups : w'.openGroups = w.openGroups)
    (numShards : w'.numShards = w.numShards) (nextGroup : w.nextGroup ≤ w'.nextGroup)
    (keeps : ∀ p ∈ loose', Keeps w' p) (fresh : ∀ p ∈ loose', p.1 < w'.nextGroup)
    (distinct : ((loose' ++ view.all w.numShards).map Prod.fst).Nodup)
    (apart : ((loose' ++ view.all w.numShards).flatMap Prod.snd).Nodup) : Shape w' view loose' where
  doubly := by
    have queued (h : GroupId) (there : h ∈ view.queue.map Prod.fst) : w'.groups h = w.groups h := by
      obtain ⟨p, listed, rfl⟩ := List.mem_map.1 there
      exact groups p (View.mem_all_of_queue listed)
    constructor
    · rw [head]
      exact shape.doubly.next.congr fun h there => congrArg Group.queueNext (queued h there)
    · rw [tail]
      exact shape.doubly.prev.congr fun h there => congrArg Group.queuePrev (queued h (List.mem_reverse.1 there))
  sorted := by
    refine shape.sorted.imp_of_mem fun {a b} first second less => ?_
    rw [groups a (View.mem_all_of_queue first), groups b (View.mem_all_of_queue second)]
    exact less
  closed p there := by
    have all := View.mem_all_of_queue (n := w.numShards) there
    exact (shape.closed p there).congr (congrArg _ (groups p all)) (cmds p all)
  openGroups := by
    rw [openGroups]
    exact shape.openGroups
  shards := by
    rw [numShards]
    exact shape.shards
  opened sid p there := by
    have all := shape.mem_all_of_opened there
    exact (shape.opened sid p there).congr (congrArg _ (groups p all)) (cmds p all)
  keeps := by
    rw [numShards, List.forall_mem_append]
    refine ⟨keeps, fun p there => ?_⟩
    exact (shape.keeps p (List.mem_append_right _ there)).congr (congrArg _ (groups p there))
      fun c inside => congrArg _ (cmds p there c inside)
  fresh := by
    rw [numShards, List.forall_mem_append]
    exact ⟨fresh, fun p there => (shape.fresh p (List.mem_append_right _ there)).trans_le nextGroup⟩
  groups := by
    rw [numShards]
    exact distinct
  cmds := by
    rw [numShards]
    exact apart

end Transport

end FreakV.WaitQueue
