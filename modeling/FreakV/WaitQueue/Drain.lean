import FreakV.WaitQueue.Adding

namespace FreakV.WaitQueue

open Linked Transition

variable {w w' : WaitQueue} {g : GroupId} {cmd : CmdId} {sid : ShardId} {view : View}

theorem Shape.drop {p : Contents} (shape : Shape w view [p]) : Shape w view [] where
  doubly := shape.doubly
  sorted := shape.sorted
  closed := shape.closed
  openGroups := shape.openGroups
  shards := shape.shards
  opened := shape.opened
  keeps q there := shape.keeps q (List.mem_cons_of_mem p there)
  fresh q there := shape.fresh q (List.mem_cons_of_mem p there)
  groups := (List.nodup_cons.1 shape.groups).2
  cmds := (List.nodup_append.1 shape.cmds).2.1

theorem walkCmds_eq {cmds : CmdId → Cmd} {stops : Cmd → Bool} {cs : List CmdId} {start : Option CmdId} {fuel : Nat}
    (path : Path (fun c => (cmds c).next) start cs none) (enough : cs.length ≤ fuel) :
    walkCmds cmds stops fuel start =
      some (cs.takeWhile fun c => !stops (cmds c), (cs.dropWhile fun c => !stops (cmds c)).head?) := by
  induction cs generalizing start fuel with
  | nil =>
    cases path
    cases fuel <;> rfl
  | cons c rest ih =>
    obtain ⟨rfl, path⟩ := path
    cases fuel with
    | zero => simp at enough
    | succ fuel =>
      unfold walkCmds
      by_cases stop : stops (cmds c) = true
      case pos => simp [stop]
      case neg => simp [stop, ih path (by simpa using enough)]

section Pop

theorem groups_popGroup (w : WaitQueue) (g h : GroupId) :
    (w.popGroup g).groups h =
      if (w.groups g).queueNext = some h then { w.groups h with queuePrev := none } else w.groups h := by
  unfold popGroup
  cases (w.groups g).queueNext with
  | none => rfl
  | some next =>
    dsimp only
    rw [setQueuePrev, groups_updGroup]
    by_cases same : h = next
    case pos => simp [same]
    case neg => simp [same, Ne.symm same]

theorem relinked_popGroup (w : WaitQueue) (g : GroupId) : Relinked w (w.popGroup g) := by
  unfold popGroup
  cases (w.groups g).queueNext with
  | none => exact (Relinked.refl w).ends
  | some next => exact (relinked_setQueuePrev w next none).ends

theorem queueHead_popGroup (w : WaitQueue) (g : GroupId) : (w.popGroup g).queueHead = (w.groups g).queueNext := by
  unfold popGroup
  cases (w.groups g).queueNext <;> rfl

theorem queueTail_popGroup (w : WaitQueue) (g : GroupId) :
    (w.popGroup g).queueTail = if (w.groups g).queueNext = none then none else w.queueTail := by
  unfold popGroup
  cases (w.groups g).queueNext <;> rfl

theorem Doubly.popGroup {rest : List GroupId} (doubly : Doubly w (g :: rest)) (nodup : (g :: rest).Nodup) :
    Doubly (w.popGroup g) rest := by
  have next : (w.groups g).queueNext = rest.head? := doubly.next.2.start_eq.trans (by simp)
  have distinct := List.nodup_cons.1 nodup
  constructor
  · rw [queueHead_popGroup]
    refine doubly.next.2.congr fun h _ => ?_
    rw [groups_popGroup]
    split <;> rfl
  · rw [queueTail_popGroup, next]
    have backwards := doubly.prev
    cases rest with
    | nil => rfl
    | cons first others =>
      rw [List.reverse_cons, List.reverse_cons, List.append_assoc] at backwards
      rw [List.reverse_cons]
      refine backwards.cut ?_ fun h there => ?_
      · rw [groups_popGroup, next, if_pos List.head?_cons]
      · rw [groups_popGroup, next, if_neg]
        intro same
        have here : first = h := by simpa using same
        have listed : h ∈ others := List.mem_reverse.1 there
        exact (List.nodup_cons.1 distinct.2).1 (here ▸ listed)

theorem Shape.popGroup {p : Contents} {rest : List Contents} {opened : ShardId → Option Contents}
    (shape : Shape w ⟨p :: rest, opened⟩ []) : Shape (w.popGroup p.1) ⟨rest, opened⟩ [] := by
  have ids := shape.groups
  rw [List.nil_append, View.all, List.map_append] at ids
  have doubly := Doubly.popGroup shape.doubly (List.nodup_append.1 ids).1
  have loose : Shape (w.popGroup p.1) ⟨rest, opened⟩ [p] :=
    shape.relink (relinked_popGroup w p.1) doubly (List.pairwise_cons.1 shape.sorted).2
      (fun q there => shape.closed q (List.mem_cons_of_mem p there)) rfl (.refl _)
  exact loose.drop

end Pop

structure Takes (w w' : WaitQueue) (executed taken : List CmdId) : Prop where
  numShards : w'.numShards = w.numShards
  nextGroup : w'.nextGroup = w.nextGroup
  executed : w'.executed = w.executed ++ executed
  waiting : (taken ++ w'.waiting).Perm w.waiting

theorem perm_filter {taken left waiting : List CmdId} (perm : (taken ++ left).Perm waiting) (nodup : (taken ++ left).Nodup) :
    left.Perm (waiting.filter (· ∉ taken)) := by
  have distinct := (List.nodup_append.1 nodup).2.2
  refine .trans (.of_eq ?_) (perm.filter _)
  rw [List.filter_append, List.filter_eq_nil_iff.2 (by simp), List.nil_append, eq_comm, List.filter_eq_self]
  intro c there
  simpa using fun taken => distinct c taken c there rfl

section Promote

variable {regulars : List CmdId} {anchor : CmdId} {rest : List Contents} {opened : ShardId → Option Contents}

theorem groups_takeAnchor (w : WaitQueue) (g h : GroupId) (ci : CmdId) (other : h ≠ g) :
    (w.takeAnchor g ci).groups h = w.groups h := by
  simp [takeAnchor, updGroup, setNext, updCmd, other]

theorem queueNext_takeAnchor (w : WaitQueue) (g : GroupId) (ci : CmdId) :
    ((w.takeAnchor g ci).groups g).queueNext = (w.groups g).queueNext := by
  simp [takeAnchor, updGroup, setNext, updCmd]

theorem cmds_takeAnchor (w : WaitQueue) (g : GroupId) (ci c : CmdId) (other : c ≠ ci) :
    (w.takeAnchor g ci).cmds c = w.cmds c := by
  simp [takeAnchor, updGroup, setNext, updCmd, other]

theorem Shape.promote (shape : Shape w ⟨(g, regulars ++ [anchor]) :: rest, opened⟩ []) :
    Shape ((w.execute regulars).promote g anchor) ⟨rest, opened⟩ [] := by
  have keeps := shape.keeps (g, regulars ++ [anchor]) (by simp [View.all])
  have ends : ((w.execute regulars).cmds anchor).next = none := (path_concat.1 keeps.head).2
  have popped := shape.popGroup
  have outside : g ∉ (View.all ⟨rest, opened⟩ w.numShards).map Prod.fst := (List.nodup_cons.1 shape.groups).1
  have apart : (regulars ++ [anchor] ++ (View.all ⟨rest, opened⟩ w.numShards).flatMap Prod.snd).Nodup := shape.cmds
  rw [WaitQueue.promote, if_pos ends]
  have next := queueNext_takeAnchor (w.execute regulars) g anchor
  have relinked := relinked_popGroup w g
  have relinked' := relinked_popGroup ((w.execute regulars).takeAnchor g anchor) g
  rw [← relinked.numShards] at outside apart
  refine popped.transport (fun p there => ?_) (fun p there c inside => ?_) ?_ ?_ ?_ ?_ ?_ (by simp) (by simp)
    popped.groups popped.cmds
  · have other : p.1 ≠ g := by
      intro same
      have listed := List.mem_map_of_mem (f := Prod.fst) there
      rw [same] at listed
      exact outside listed
    rw [groups_popGroup, groups_popGroup, next, groups_takeAnchor _ _ _ _ other]
    rfl
  · have listed := List.mem_flatMap.2 ⟨p, there, inside⟩
    have other : c ≠ anchor := fun same => (List.nodup_append.1 apart).2.2 anchor (by simp) c listed same.symm
    rw [relinked'.cmds, relinked.cmds, cmds_takeAnchor _ _ _ _ other]
    rfl
  · rw [queueHead_popGroup, queueHead_popGroup, next]
    rfl
  · rw [queueTail_popGroup, queueTail_popGroup, next]
    rfl
  · exact relinked'.openGroups.trans relinked.openGroups.symm
  · exact relinked'.numShards.trans relinked.numShards.symm
  · exact (relinked.nextGroup.trans relinked'.nextGroup.symm).le

theorem Good.promote (good : Good w ⟨(g, regulars ++ [anchor]) :: rest, opened⟩) :
    Good ((w.execute regulars).promote g anchor) ⟨rest, opened⟩ ∧
      Takes w ((w.execute regulars).promote g anchor) regulars (regulars ++ [anchor]) ∧
      ((w.execute regulars).promote g anchor).holder = some anchor := by
  have shape := good.shape.promote
  have keeps := good.shape.keeps (g, regulars ++ [anchor]) (by simp [View.all])
  have ends : ((w.execute regulars).cmds anchor).next = none := (path_concat.1 keeps.head).2
  have relinked := relinked_popGroup ((w.execute regulars).takeAnchor g anchor) g
  have apart : (regulars ++ anchor :: (View.all ⟨rest, opened⟩ w.numShards).flatMap Prod.snd).Nodup := by
    simpa [View.all] using good.shape.cmds
  have all : (regulars ++ anchor :: (View.all ⟨rest, opened⟩ w.numShards).flatMap Prod.snd).Perm w.waiting := by
    simpa [View.all] using good.waiting
  have left : ((View.all ⟨rest, opened⟩ w.numShards).flatMap Prod.snd).Perm
      ((w.waiting.filter (· ∉ regulars)).erase anchor) := by
    have taken := (perm_filter all apart).erase anchor
    rwa [List.erase_cons_head] at taken
  rw [WaitQueue.promote, if_pos ends] at shape ⊢
  refine ⟨⟨shape, ?_⟩, ⟨relinked.numShards, relinked.nextGroup, relinked.executed, ?_⟩, relinked.holder⟩
  · rw [relinked.numShards, relinked.waiting]
    exact left
  · rw [relinked.waiting, List.append_assoc]
    exact ((left.symm.cons anchor).append_left regulars).trans all

end Promote

section Open

theorem walkCmds_all {cmds : CmdId → Cmd} {cs : List CmdId} {start : Option CmdId} {fuel : Nat}
    (path : Path (fun c => (cmds c).next) start cs none) (enough : cs.length ≤ fuel) :
    walkCmds cmds (fun _ => false) fuel start = some (cs, none) := by
  rw [walkCmds_eq path enough]
  have every : ∀ c ∈ cs, (!(fun _ : Cmd => false) (cmds c)) = true := by simp
  rw [List.takeWhile_eq_self_iff.2 every, List.dropWhile_eq_nil_iff.2 every]
  rfl

theorem Shape.execute (shape : Shape w view []) (cs : List CmdId) : Shape (w.execute cs) view [] :=
  shape.transport (fun _ _ => rfl) (fun _ _ _ _ => rfl) rfl rfl rfl rfl le_rfl (by simp) (by simp) shape.groups shape.cmds

theorem Takes.refl (w : WaitQueue) : Takes w w [] [] := ⟨rfl, rfl, by simp, .refl _⟩

theorem Takes.trans {w'' : WaitQueue} {first second : List CmdId} (before : Takes w w' first first)
    (after : Takes w' w'' second second) : Takes w w'' (first ++ second) (first ++ second) where
  numShards := after.numShards.trans before.numShards
  nextGroup := after.nextGroup.trans before.nextGroup
  executed := by rw [after.executed, before.executed, List.append_assoc]
  waiting := by
    rw [List.append_assoc]
    exact (after.waiting.append_left first).trans before.waiting

def View.openCmds (view : View) (sid : ShardId) : List CmdId := ((view.opened sid).map Prod.snd).getD []

theorem Good.drainOpen (good : Good w view) (inside : sid < w.numShards) :
    ∃ w', w.drainOpen sid = some w' ∧ Good w' (view.setOpen sid none) ∧ Takes w w' (view.openCmds sid) (view.openCmds sid) ∧
      w'.holder = w.holder ∧ w'.queueHead = w.queueHead := by
  have openGroups := good.shape.openGroups sid
  rw [WaitQueue.drainOpen, View.openCmds]
  cases isOpen : view.opened sid with
  | none =>
    rw [isOpen] at openGroups
    simp only [openGroups, Option.map_none]
    have same : view.setOpen sid none = view := by
      rw [View.setOpen, ← isOpen, Function.update_eq_self]
    rw [same]
    exact ⟨w, rfl, good, .refl w, rfl, rfl⟩
  | some p =>
    obtain ⟨g, cs⟩ := p
    rw [isOpen] at openGroups
    simp only [openGroups, Option.map_some]
    have keeps := good.shape.keeps (g, cs) (good.shape.mem_all_of_opened isOpen)
    rw [walkCmds_all keeps.head keeps.count.ge]
    have perm : ([] ++ view.all w.numShards).Perm ([(g, cs)] ++ (view.setOpen sid none).all w.numShards) :=
      View.all_setOpen inside (by simp [isOpen])
    have loose : Shape (w.setOpen sid none) (view.setOpen sid none) [(g, cs)] :=
      good.shape.setOpen inside none (by simp) (by simp [isOpen])
    have all : (cs ++ ((view.setOpen sid none).all w.numShards).flatMap Prod.snd).Perm w.waiting :=
      (perm.flatMap_right Prod.snd).symm.trans good.waiting
    have left := perm_filter all loose.cmds
    refine ⟨_, rfl, ⟨loose.drop.execute cs, left⟩, ⟨rfl, rfl, rfl, ?_⟩, rfl, rfl⟩
    exact (left.symm.append_left cs).trans all

theorem Good.drainOpens {sids : List ShardId} (good : Good w view) (nodup : sids.Nodup)
    (inside : ∀ sid ∈ sids, sid < w.numShards) :
    ∃ w' view', WaitQueue.drainOpens sids w = some w' ∧ Good w' view' ∧ view'.queue = view.queue ∧
      (∀ sid, view'.opened sid = if sid ∈ sids then none else view.opened sid) ∧
      Takes w w' (sids.flatMap view.openCmds) (sids.flatMap view.openCmds) ∧ w'.holder = w.holder := by
  induction sids generalizing w view with
  | nil => exact ⟨w, view, rfl, good, rfl, by simp, .refl w, rfl⟩
  | cons sid rest ih =>
    obtain ⟨fresh, nodup⟩ := List.nodup_cons.1 nodup
    obtain ⟨v, done, after, takes, holder, -⟩ := good.drainOpen (inside sid List.mem_cons_self)
    obtain ⟨w', view', drained, last, queue, opened, others, kept⟩ := ih after nodup fun other there => by
      rw [takes.numShards]
      exact inside other (List.mem_cons_of_mem sid there)
    have same : rest.flatMap (view.setOpen sid none).openCmds = rest.flatMap view.openCmds := by
      refine List.flatMap_congr fun other there => ?_
      have apart : other ≠ sid := fun same => fresh (same ▸ there)
      rw [View.openCmds, View.opened_setOpen, if_neg apart]
      rfl
    rw [same] at others
    refine ⟨w', view', ?_, last, queue, fun other => ?_, takes.trans others, kept.trans holder⟩
    · rw [WaitQueue.drainOpens, done]
      exact drained
    · rw [opened, View.opened_setOpen]
      by_cases here : other = sid
      case pos => simp [here]
      case neg => simp [here]

end Open

section Rounds

theorem drainOpens_none {sids : List ShardId} (shut : ∀ sid ∈ sids, w.openGroups sid = none) :
    drainOpens sids w = some w := by
  induction sids with
  | nil => rfl
  | cons sid rest ih =>
    rw [drainOpens, drainOpen, shut sid List.mem_cons_self]
    exact ih fun other there => shut other (List.mem_cons_of_mem sid there)

theorem drainRounds_none (fuel : Nat) (empty : w.queueHead = none) (shut : ∀ sid, w.openGroups sid = none) :
    w.drainRounds (fuel + 1) = some w := by
  rw [drainRounds, empty]
  simp [drainOpens_none fun sid _ => shut sid, shut]

theorem Good.drain_empty (good : Good w view) (empty : view.queue = []) :
    ∃ w' view', w.msetDrainWaitqueue = some w' ∧ Good w' view' ∧ w'.waiting = [] ∧ w'.holder = w.holder ∧
      Takes w w' ((List.range w.numShards).flatMap view.openCmds) ((List.range w.numShards).flatMap view.openCmds) := by
  obtain ⟨w', view', drained, after, queue, opened, takes, holder⟩ :=
    good.drainOpens (List.nodup_range (n := w.numShards)) fun sid there => List.mem_range.1 there
  have queueHead (v : WaitQueue) (shown : View) (good : Good v shown) (empty : shown.queue = []) : v.queueHead = none := by
    have path := good.shape.doubly.next
    rw [empty] at path
    exact path
  have shut (sid : ShardId) : view'.opened sid = none := by
    rw [opened]
    by_cases inside : sid < w.numShards
    case pos => simp [inside]
    case neg => simp [good.shape.shards sid (not_lt.1 inside)]
  have nothing : w'.waiting = [] := by
    have all := after.waiting
    rw [View.all, queue, empty, List.nil_append, List.filterMap_eq_nil_iff.2 fun sid _ => shut sid] at all
    exact all.symm.eq_nil
  refine ⟨w', view', ?_, after, nothing, holder, takes⟩
  rw [msetDrainWaitqueue, drainRounds, queueHead w view good empty]
  simp only [drained, Option.bind_some]
  split
  next found =>
    -- a group is open, so that there is fuel for one more round
    obtain ⟨sid, -, isOpen⟩ := List.any_eq_true.1 found
    rw [good.shape.openGroups, Option.isSome_map] at isOpen
    obtain ⟨p, isOpen⟩ := Option.isSome_iff_exists.1 isOpen
    have fresh := good.shape.fresh p (good.shape.mem_all_of_opened isOpen)
    obtain ⟨fuel, enough⟩ := Nat.exists_eq_succ_of_ne_zero (Nat.ne_zero_of_lt fresh)
    rw [enough]
    refine drainRounds_none fuel (queueHead w' view' after (queue.trans empty)) fun sid => ?_
    rw [after.shape.openGroups, shut]
    rfl
  · rfl

theorem Good.drain_head {regulars : List CmdId} {anchor : CmdId} {rest : List Contents}
    (good : Good w view) (queue : view.queue = (g, regulars ++ [anchor]) :: rest) :
    ∃ w', w.msetDrainWaitqueue = some w' ∧ Good w' ⟨rest, view.opened⟩ ∧
      Takes w w' regulars (regulars ++ [anchor]) ∧ w'.holder = some anchor := by
  obtain ⟨_, opened⟩ := view
  cases queue
  obtain ⟨after, takes, holder⟩ := good.promote
  refine ⟨_, ?_, after, takes, holder⟩
  have keeps := good.shape.keeps (g, regulars ++ [anchor]) (by simp [View.all])
  obtain ⟨_, anchor', parts, regular, isMset, -⟩ := (good.shape.closed (g, regulars ++ [anchor]) (by simp)).anchored
  obtain ⟨rfl, same⟩ := List.append_inj' parts rfl
  cases same
  have head : w.queueHead = some g := good.shape.doubly.next.1
  have every : ∀ c ∈ regulars, (!(w.cmds c).isMset) = true := fun c there => by simp [regular c there]
  rw [msetDrainWaitqueue, drainRounds, head]
  simp only [walkCmds_eq keeps.head keeps.count.ge]
  rw [List.takeWhile_append_of_pos every, List.dropWhile_append_of_pos every]
  simp [isMset]

end Rounds

inductive Drained (w : WaitQueue) (view : View) (w' : WaitQueue) : Prop
  | promotes {g : GroupId} {regulars : List CmdId} {anchor : CmdId} {rest : List Contents}
      (queue : view.queue = (g, regulars ++ [anchor]) :: rest) (takes : Takes w w' regulars (regulars ++ [anchor]))
      (nodup : regulars.Nodup) (regular : ∀ c ∈ regulars, (w.cmds c).isMset = false) (holder : w'.holder = some anchor)
      (isMset : (w.cmds anchor).isMset = true)
      (oldest : ∀ c ∈ w.waiting, (w.cmds c).isMset = true → c ≠ anchor → (w.cmds anchor).txn < (w.cmds c).txn)
  | empties {cmds : List CmdId} (queue : view.queue = []) (takes : Takes w w' cmds cmds) (nodup : cmds.Nodup)
      (regular : ∀ c ∈ cmds, (w.cmds c).isMset = false) (holder : w'.holder = w.holder) (waiting : w'.waiting = [])

theorem Good.nodup (good : Good w view) : w.waiting.Nodup := good.waiting.nodup_iff.1 good.shape.cmds

theorem Good.anchors (good : Good w view) {c : CmdId} (waits : c ∈ w.waiting) (isMset : (w.cmds c).isMset = true) :
    ∃ q ∈ view.queue, (∃ regulars, q.2 = regulars ++ [c]) ∧ (w.groups q.1).txn = (w.cmds c).txn := by
  obtain ⟨q, listed, inside⟩ := List.mem_flatMap.1 (good.waiting.mem_iff.2 waits)
  rcases List.mem_append.1 listed with queued | opened
  · obtain ⟨regulars, anchor, parts, regular, -, labelled⟩ := (good.shape.closed q queued).anchored
    rw [parts, List.mem_append, List.mem_singleton] at inside
    rcases inside with inside | rfl
    · simp [regular c inside] at isMset
    · exact ⟨q, queued, ⟨regulars, parts⟩, labelled⟩
  · obtain ⟨sid, -, isOpen⟩ := List.mem_filterMap.1 opened
    simp [((good.shape.opened sid q isOpen).regular c inside).1] at isMset

theorem Good.drain (good : Good w view) :
    ∃ w' view', w.msetDrainWaitqueue = some w' ∧ Good w' view' ∧ Drained w view w' := by
  cases queue : view.queue with
  | nil =>
    obtain ⟨w', view', done, after, waiting, holder, takes⟩ := good.drain_empty queue
    have all := takes.waiting
    rw [waiting, List.append_nil] at all
    refine ⟨w', view', done, after, .empties queue takes (all.nodup_iff.2 good.nodup) (fun c there => ?_) holder waiting⟩
    by_contra isMset
    obtain ⟨q, queued, -⟩ := good.anchors (all.mem_iff.1 there) (by simpa using isMset)
    simp [queue] at queued
  | cons p rest =>
    obtain ⟨g, cs⟩ := p
    obtain ⟨regulars, anchor, rfl, regular, isMset, labelled⟩ :=
      (good.shape.closed (g, cs) (by simp [queue])).anchored
    obtain ⟨w', done, after, takes, holder⟩ := good.drain_head queue
    have distinct := (List.nodup_append.1 (takes.waiting.nodup_iff.2 good.nodup)).1
    refine ⟨w', _, done, after, .promotes queue takes (List.nodup_append.1 distinct).1 regular holder isMset ?_⟩
    intro c waits alsoMset other
    obtain ⟨q, queued, ⟨others, parts⟩, txn⟩ := good.anchors waits alsoMset
    have sorted := good.shape.sorted
    rw [queue, List.pairwise_cons] at sorted
    rw [queue, List.mem_cons] at queued
    rcases queued with rfl | queued
    · obtain ⟨-, same⟩ := List.append_inj' parts rfl
      exact absurd (by simpa using same.symm) other
    · rw [← txn, ← labelled]
      exact sorted.1 q queued

structure WellFormed (w : WaitQueue) (view : View) : Prop where
  good : Good w view
  addRegular : ∀ cmd origin, w.Allowed (.addRegular cmd origin) →
    ∃ w', w.step (.addRegular cmd origin) = some w' ∧ Adds w w' cmd
  addMset : ∀ cmd origin txn, w.Allowed (.addMset cmd origin txn) →
    ∃ w', w.step (.addMset cmd origin txn) = some w' ∧ Adds w w' cmd
  drain : ∃ w', w.step .drain = some w' ∧ Drained w view w'

theorem Good.wellFormed (good : Good w view) : WellFormed w view where
  good := good
  addRegular cmd origin allowed := by
    obtain ⟨w', -, done, adds, -⟩ := good.addRegular allowed
    exact ⟨w', done, adds⟩
  addMset cmd origin txn allowed := by
    obtain ⟨w', -, done, adds, -⟩ := good.addMset allowed
    exact ⟨w', done, adds⟩
  drain := by
    obtain ⟨w', -, done, -, drained⟩ := good.drain
    exact ⟨w', done, drained⟩

theorem good_init (numShards : Nat) : Good { numShards := numShards } ⟨[], fun _ => none⟩ := by
  have nothing : View.all ⟨[], fun _ => none⟩ numShards = [] := by simp [View.all]
  refine ⟨⟨⟨rfl, rfl⟩, .nil, by simp, fun _ => rfl, fun _ _ => rfl, by simp, ?_, ?_, ?_, ?_⟩, ?_⟩
  all_goals simp [nothing]

theorem good_step {event : Event} (good : Good w view) (allowed : w.Allowed event) (done : w.step event = some w') :
    ∃ view', Good w' view' := by
  cases event with
  | addRegular cmd origin =>
    obtain ⟨v, view', added, -, after⟩ := good.addRegular allowed
    cases added.symm.trans done
    exact ⟨view', after⟩
  | addMset cmd origin txn =>
    obtain ⟨v, view', added, -, after⟩ := good.addMset allowed
    cases added.symm.trans done
    exact ⟨view', after⟩
  | drain =>
    obtain ⟨v, view', drained, after, -⟩ := good.drain
    cases drained.symm.trans done
    exact ⟨view', after⟩
  | hold cmd =>
    cases done
    refine ⟨view, ?_, good.waiting⟩
    exact good.shape.transport (fun _ _ => rfl) (fun _ _ _ _ => rfl) rfl rfl rfl rfl le_rfl (by simp) (by simp)
      good.shape.groups good.shape.cmds

theorem good_of_run {numShards : Nat} (run : Reaches step Allowed { numShards := numShards } w) : ∃ view, Good w view := by
  induction run with
  | refl => exact ⟨_, good_init numShards⟩
  | tail _ allowed done ih =>
    obtain ⟨view, good⟩ := ih
    exact good_step good allowed done

theorem wellFormed_of_run {numShards : Nat} (run : Reaches step Allowed { numShards := numShards } w) :
    ∃ view, WellFormed w view := by
  obtain ⟨view, good⟩ := good_of_run run
  exact ⟨view, good.wellFormed⟩

def twoGroups : List Event :=
  [.addRegular 0 0, .addRegular 1 1, .addMset 2 0 ⟨7, 1, 0⟩, .addRegular 3 0, .addMset 4 1 ⟨5, 2, 0⟩]

theorem wellFormed_twoGroups :
    ∃ w, follow step (fun w event => decide (w.Allowed event)) twoGroups { numShards := 2 } = some w ∧
      w.waiting = [4, 3, 2, 1, 0] ∧ ∃ view, WellFormed w view := by
  have waiting : (follow step (fun w event => decide (w.Allowed event)) twoGroups { numShards := 2 }).map (·.waiting) =
      some [4, 3, 2, 1, 0] := by decide
  obtain ⟨w, followed, same⟩ := Option.map_eq_some_iff.1 waiting
  exact ⟨w, followed, same, wellFormed_of_run (follow_reaches (fun _ _ passed => of_decide_eq_true passed) followed)⟩

end FreakV.WaitQueue
