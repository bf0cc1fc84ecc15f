import FreakV.Store

namespace FreakV

section WaitQueue

variable {G : Type}

-- The walk from the head in wq_sorted_insert.
def wqInsertBefore (txnOf : G → TxnId) (group : G) : List G → List G
  | [] => [group]
  | cur :: rest =>
    if txnIdCmp (txnOf cur) (txnOf group) < 0 then cur :: wqInsertBefore txnOf group rest
    else group :: cur :: rest

def wqSortedInsert (txnOf : G → TxnId) (queue : List G) (group : G) : List G :=
  match queue.getLast? with
  | none => [group]
  | some tail =>
    if 0 ≤ txnIdCmp (txnOf group) (txnOf tail) then queue ++ [group] else wqInsertBefore txnOf group queue

theorem wqInsertBefore_perm (txnOf : G → TxnId) (group : G) (queue : List G) :
    (wqInsertBefore txnOf group queue).Perm (group :: queue) := by
  induction queue with
  | nil => exact .refl _
  | cons cur rest ih =>
    unfold wqInsertBefore
    split
    · exact (ih.cons cur).trans (.swap group cur rest)
    · exact .refl _

theorem wqSortedInsert_perm (txnOf : G → TxnId) (queue : List G) (group : G) :
    (wqSortedInsert txnOf queue group).Perm (group :: queue) := by
  unfold wqSortedInsert
  split
  next empty => simp [List.getLast?_eq_none_iff.1 empty]
  · split
    · exact List.perm_append_comm
    · exact wqInsertBefore_perm txnOf group queue

theorem wqInsertBefore_sorted (txnOf : G → TxnId) (group : G) {queue : List G}
    (sorted : queue.Pairwise fun a b => txnOf a < txnOf b)
    (distinct : ∀ other ∈ queue, txnOf other ≠ txnOf group) :
    (wqInsertBefore txnOf group queue).Pairwise fun a b => txnOf a < txnOf b := by
  induction queue with
  | nil => simp [wqInsertBefore]
  | cons cur rest ih =>
    rw [List.pairwise_cons] at sorted
    unfold wqInsertBefore
    split
    next before =>
      rw [txnIdCmp_neg] at before
      rw [List.pairwise_cons]
      refine ⟨fun other member => ?_, ih sorted.2 fun other member => distinct other (by simp [member])⟩
      rcases List.mem_cons.1 ((wqInsertBefore_perm txnOf group rest).mem_iff.1 member) with same | member
      · exact same ▸ before
      · exact sorted.1 other member
    next after =>
      rw [txnIdCmp_neg, not_lt] at after
      have first : txnOf group < txnOf cur := lt_of_le_of_ne after (distinct cur (by simp)).symm
      rw [List.pairwise_cons]
      refine ⟨fun other member => ?_, List.pairwise_cons.2 sorted⟩
      rcases List.mem_cons.1 member with same | member
      · exact same ▸ first
      · exact first.trans (sorted.1 other member)

theorem wqSortedInsert_sorted (txnOf : G → TxnId) {queue : List G} {group : G}
    (sorted : queue.Pairwise fun a b => txnOf a < txnOf b)
    (distinct : ∀ other ∈ queue, txnOf other ≠ txnOf group) :
    (wqSortedInsert txnOf queue group).Pairwise fun a b => txnOf a < txnOf b := by
  unfold wqSortedInsert
  split
  · simp
  next tail last =>
    split
    next after =>
      rw [txnIdCmp_nonneg] at after
      obtain ⟨front, rfl⟩ := List.getLast?_eq_some_iff.1 last
      have beyond : txnOf tail < txnOf group := lt_of_le_of_ne after (distinct tail (by simp))
      rw [List.pairwise_append]
      refine ⟨sorted, by simp, fun other member added same => ?_⟩
      rw [List.mem_singleton.1 same]
      rcases List.mem_append.1 member with member | member
      · exact ((List.pairwise_append.1 sorted).2.2 other member tail (by simp)).trans beyond
      · exact List.mem_singleton.1 member ▸ beyond
    · exact wqInsertBefore_sorted txnOf group sorted distinct

theorem wqInsertBefore_map {H : Type} (project : H → G) (txnOf : G → TxnId) (group : H) (queue : List H) :
    (wqInsertBefore (txnOf ∘ project) group queue).map project =
      wqInsertBefore txnOf (project group) (queue.map project) := by
  induction queue with
  | nil => rfl
  | cons cur rest ih =>
    simp only [wqInsertBefore, Function.comp_apply, List.map_cons]
    split_ifs <;> simp [ih]

theorem wqSortedInsert_map {H : Type} (project : H → G) (txnOf : G → TxnId) (queue : List H) (group : H) :
    (wqSortedInsert (txnOf ∘ project) queue group).map project =
      wqSortedInsert txnOf (queue.map project) (project group) := by
  unfold wqSortedInsert
  rw [List.getLast?_map]
  cases queue.getLast? with
  | none => rfl
  | some tail =>
    simp only [Option.map_some, Function.comp_apply]
    split_ifs <;> simp [wqInsertBefore_map]

end WaitQueue

namespace Engine

def cmdTxn (e : Engine) (cmd : CmdId) : TxnId := (e.stats (e.cmds cmd).stat).txn

/-- `lock_manager_lookup`: the shard's entries as a finite map from object and hash. -/
def lockManagerLookup (e : Engine) (s : ShardId) (obj : ObjId) (hash : Nat) : Option LeId :=
  (List.range e.nextLe).find? fun l =>
    (e.les l).live && (e.les l).shard == s && (e.les l).objPtr == obj && (e.les l).hash56 == hash

def addLe (e : Engine) (s : ShardId) (obj : ObjId) (hash : Nat) (holder : CmdId) : Engine :=
  { e.setLe e.nextLe { live := true, shard := s, objPtr := obj, hash56 := hash, holder := some holder, queue := [],
                       openGroups := fun _ => [] } with
    nextLe := e.nextLe + 1 }

def lockManagerInsert (e : Engine) (s : ShardId) (obj : ObjId) (hash : Nat) (holder : CmdId) (room : Bool) :
    Engine × Option LeId :=
  if room then
    match e.lockManagerLookup s obj hash with
    | some l => (e, some l)
    | none => (e.addLe s obj hash holder, some e.nextLe)
  else (e, none)

def lockManagerRemove (e : Engine) (s : ShardId) (obj : ObjId) (hash : Nat) : Engine :=
  match e.lockManagerLookup s obj hash with
  | some l => e.setLe l default
  | none => e

-- `room` is false when wait_group_alloc fails; only a new group needs one.
def lockWqAddRegular (e : Engine) (l : LeId) (m : RegularReq) (room : Bool) : Engine :=
  let le := e.les l
  if le.openGroups m.origin = [] ∧ ¬room then e
  else e.setLe l { le with openGroups := Function.update le.openGroups m.origin (le.openGroups m.origin ++ [m]) }

def lockWqAddMset (e : Engine) (l : LeId) (cmd : CmdId) (room : Bool) : Engine :=
  let le := e.les l
  let origin := (e.cmds cmd).originShard
  if le.openGroups origin = [] ∧ ¬room then e
  else
    e.setLe l { le with
      queue := wqSortedInsert (e.cmdTxn ∘ WaitGroup.anchor) le.queue { regulars := le.openGroups origin, anchor := cmd }
      openGroups := Function.update le.openGroups origin [] }

def lockWqFindTxn (e : Engine) (l : LeId) (txn : TxnId) : Option CmdId :=
  ((e.les l).queue.find? fun group => txnIdEq (e.cmdTxn group.anchor) txn).map WaitGroup.anchor

end Engine

end FreakV
