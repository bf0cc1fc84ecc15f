import FreakV.HashTable.Flush
import FreakV.Snapshot.Quiet
import FreakV.Snapshot.Resharding

namespace FreakV.Snapshot

namespace Shard

-- mem_free of an object of the table, whoever else refers to it
def memRelease (s : Shard) (ptr : Nat) : Shard :=
  let lpage := ptrLpageIdx ptr
  let page := s.pages lpage
  let s := { s with used := Function.update s.used ptr false }
  if page.span = none then s.setPages lpage page.spanSize fun _ => {} else s

def dropped (s : Shard) (ptrs : List Nat) (l : Nat) : Bool :=
  ptrs.any fun ptr =>
    let lpage := ptrLpageIdx ptr
    (s.pages lpage).span = none && lpage ≤ l && l < lpage + (s.pages lpage).spanSize

def dropPages (s : Shard) (gone : Nat → Bool) : Shard := { s with pages := fun l => if gone l then {} else s.pages l }

section Release

variable {s : Shard} {ptrs : List Nat}

theorem dropped_iff {l : Nat} : s.dropped ptrs l = true ↔ ∃ ptr ∈ ptrs, (s.pages (ptrLpageIdx ptr)).span = none ∧
    ptrLpageIdx ptr ≤ l ∧ l < ptrLpageIdx ptr + (s.pages (ptrLpageIdx ptr)).spanSize := by
  simp [dropped, and_assoc]

theorem Layout.large_of_used (layout : Layout s) {ptr : Nat} (used : s.used ptr = true)
    (large : (s.pages (ptrLpageIdx ptr)).span = none) :
    ∃ head n, LargeAt s head n ∧ ptr = head * lpageSize ∧ (s.pages (ptrLpageIdx ptr)).spanSize = n ∧ ptrLpageIdx ptr = head := by
  rw [layout.lpage_eq used] at large ⊢
  cases layout.located ptr used with
  | slot place idx addr size =>
    rw [addr, (place.page idx).1] at large
    cases large
  | @pages head n place addr =>
    refine ⟨head, n, place, addr, ?_, ?_⟩
    · rw [addr, place.page.1]
    · rw [addr, Nat.mul_div_cancel _ (by decide)]

theorem Layout.dropped_head (layout : Layout s) (used : ∀ ptr ∈ ptrs, s.used ptr = true) {head n : Nat}
    (taken : s.used (head * lpageSize) = true) (place : LargeAt s head n) (gone : s.dropped ptrs head = true) :
    head * lpageSize ∈ ptrs := by
  obtain ⟨ptr, member, large, above, below⟩ := dropped_iff.1 gone
  obtain ⟨head', n', place', addr, size, page⟩ := layout.large_of_used (used ptr member) large
  rw [page] at above below
  rw [page] at size
  have taken' := used ptr member
  rw [addr] at taken'
  obtain less | same := Nat.lt_or_eq_of_le above
  · have apart := layout.apart _ _ _ _ taken' taken place' place less
    omega
  · rw [← same, ← addr]
    exact member

theorem Layout.not_dropped_pool (layout : Layout s) (used : ∀ ptr ∈ ptrs, s.used ptr = true) {l : Nat}
    (pool : (s.pages l).span ≠ none) : s.dropped ptrs l = false := by
  rw [Bool.eq_false_iff]
  intro gone
  obtain ⟨ptr, member, large, above, below⟩ := dropped_iff.1 gone
  obtain ⟨head, n, place, addr, size, page⟩ := layout.large_of_used (used ptr member) large
  rw [page] at above below size
  have info := place.pages (l - head) (by omega)
  rw [Nat.add_sub_cancel' above] at info
  rw [info] at pool
  exact pool rfl

theorem dropped_append (ptrs : List Nat) (ptr l : Nat) : s.dropped (ptrs ++ [ptr]) l = (s.dropped ptrs l || s.dropped [ptr] l) := by
  simp [dropped]

theorem dropPages_congr {gone gone' : Nat → Bool} (same : ∀ l, gone l = gone' l) : s.dropPages gone = s.dropPages gone' := by
  rw [funext same]

theorem Layout.memRelease (layout : Layout s) (used : ∀ ptr ∈ ptrs, s.used ptr = true) {ptr : Nat} (taken : s.used ptr = true)
    (left : Nat → Bool) : Shard.memRelease { s.dropPages (s.dropped ptrs) with used := left } ptr =
      { s.dropPages (s.dropped (ptrs ++ [ptr])) with used := Function.update left ptr false } := by
  by_cases large : (s.pages (ptrLpageIdx ptr)).span = none
  · obtain ⟨head, n, place, addr, size, page⟩ := layout.large_of_used taken large
    rw [page] at large size
    have one (l : Nat) : s.dropped [ptr] l = decide (head ≤ l ∧ l < head + n) := by
      simp [dropped, page, large, size]
    cases gone : s.dropped ptrs head with
    | true =>
      have again : ptr ∈ ptrs := addr ▸ layout.dropped_head used (addr ▸ taken) place gone
      have same (l : Nat) : s.dropped (ptrs ++ [ptr]) l = s.dropped ptrs l := by
        simp only [dropped, List.any_append, List.any_cons, List.any_nil, Bool.or_false]
        rw [Bool.or_eq_left_iff_imp, List.any_eq_true]
        exact fun holds => ⟨_, again, holds⟩
      have none (l : Nat) : ¬(head ≤ l ∧ l < head) := by omega
      rw [dropPages_congr same]
      simp [Shard.memRelease, dropPages, page, gone, setPages, none]
    | false =>
      simp only [Shard.memRelease, dropPages, page, gone, Bool.false_eq_true, if_false, large, if_true, setPages, size]
      congr 1
      funext l
      rw [dropped_append, one]
      by_cases inside : head ≤ l ∧ l < head + n <;> simp [inside]
  · have kept := layout.not_dropped_pool used large
    have same (l : Nat) : s.dropped (ptrs ++ [ptr]) l = s.dropped ptrs l := by
      rw [dropped_append]
      simp [dropped, large]
    rw [dropPages_congr same]
    simp [Shard.memRelease, dropPages, kept, large]

theorem Layout.foldl_memRelease (layout : Layout s) (used : ∀ ptr ∈ ptrs, s.used ptr = true) :
    ∃ left, ptrs.foldl Shard.memRelease s = { s.dropPages (s.dropped ptrs) with used := left } := by
  induction ptrs using List.reverseRecOn with
  | nil => exact ⟨s.used, by simp [dropPages, dropped]⟩
  | append_singleton ptrs ptr ih =>
    have before : ∀ p ∈ ptrs, s.used p = true := fun p member => used p (List.mem_append_left _ member)
    have taken := used ptr (List.mem_append_right _ List.mem_cons_self)
    obtain ⟨left, eq⟩ := ih before
    rw [List.foldl_append, eq]
    exact ⟨_, layout.memRelease before taken left⟩

end Release

section Files

variable (s : Shard)

def current : List (Pos × Entry) :=
  if s.isSnapshotting then s.cursor.slots ++ along s.obj (s.trail s.cursor) else []

def settledObj : Nat → KvObj := if s.isSnapshotting then visitAll s.obj (s.trail s.cursor) else s.obj

def marked : List (Pos × Nat) :=
  ((List.range s.nrPages).filter s.dirtyBits).flatMap { s with snapSlotBits := s.slotBits }.counted

def next : List (Pos × Entry) := along s.settledObj s.marked

/-- The record that a restore takes for a slot, after the epoch that is being written and one more: the newest one of
the epochs and the base. A tombstone is not kept, so that a delta left behind by an earlier run shows through. -/
def remains (files : ShardFiles) (pos : Pos) : Option Entry :=
  (((s.next ++ s.current ++ baseSlots files.base).lookup pos).bind Entry.live).or
    ((fileSlots (descending (files.deltas.take maxEpochFiles))).lookup pos)

variable {s} {t : Shard}

theorem marked_congr (pages : t.pages = s.pages) (nrPages : t.nrPages = s.nrPages) (dirtyBits : t.dirtyBits = s.dirtyBits)
    (slotBits : t.slotBits = s.slotBits) : t.marked = s.marked := by
  have same : (List.range t.nrPages).filter t.dirtyBits = (List.range s.nrPages).filter s.dirtyBits := by
    rw [nrPages, dirtyBits]
  rw [marked, marked, same]
  exact List.flatMap_congr fun l _ => counted_congr (congrFun pages l) (congrFun slotBits l)

end Files

end Shard

structure Node where
  ht : HashTable
  heap : Shard
  files : ShardFiles := {}
  sessionId : Nat := 0

namespace Node

def flush (node : Node) : Option Node :=
  node.ht.tableFlush.map fun (ht, freed) =>
    { node with
      ht := ht
      heap := { (freed.map RawObj.addr).foldl Shard.memRelease node.heap with table := fun _ => none } }

def Epoch (node last : Node) : Prop :=
  ∃ heap records, Shard.Writes node.heap heap records ∧
    last = { node with
      heap := heap
      files := { node.files with
        base := some (snapCompactDeltaIntoBase node.sessionId heap.nrPages
          { sessionId := node.sessionId, epoch := node.heap.currentEpoch, records := records } node.files.base) } }

def NextEpoch (node last : Node) : Prop :=
  ∃ idle heap, (if node.heap.isSnapshotting then node.Epoch idle else idle = node) ∧
    idle.heap.snapEngineTick = some heap ∧ Epoch { idle with heap := heap } last

section Epochs

variable {node last last' : Node}

theorem Epoch.unique (first : node.Epoch last) (second : node.Epoch last') : last = last' := by
  obtain ⟨heap, records, writes, rfl⟩ := first
  obtain ⟨heap', records', writes', rfl⟩ := second
  obtain ⟨rfl, rfl⟩ := writes.unique writes'
  rfl

theorem NextEpoch.unique (first : node.NextEpoch last) (second : node.NextEpoch last') : last = last' := by
  obtain ⟨idle, heap, settled, tick, epoch⟩ := first
  obtain ⟨idle', heap', settled', tick', epoch'⟩ := second
  have same : idle = idle' := by
    split at settled
    · exact settled.unique (by simpa [*] using settled')
    next off => simp_all
  subst same
  rw [tick, Option.some.injEq] at tick'
  subst tick'
  exact epoch.unique epoch'

structure Writable (node : Node) : Prop extends node.heap.Steady where
  base : Recorded (baseSlots node.files.base)

structure Written (node last : Node) (slots : List (Pos × Entry)) : Prop where
  base : Recorded (baseSlots last.files.base)
  lookup : ∀ pos, (baseSlots last.files.base).lookup pos = ((slots ++ baseSlots node.files.base).lookup pos).bind Entry.live
  deltas : last.files.deltas = node.files.deltas
  obj : last.heap.obj = visitAll node.heap.obj (node.heap.trail node.heap.cursor)
  pages : last.heap.pages = node.heap.pages
  nrPages : last.heap.nrPages = node.heap.nrPages
  dirtyBits : last.heap.dirtyBits = node.heap.dirtyBits
  slotBits : last.heap.slotBits = node.heap.slotBits
  idle : last.heap.isSnapshotting = false
  writer : last.heap.writer = none

theorem Writable.epoch (writable : node.Writable) (busy : node.heap.isSnapshotting = true) :
    ∃ last, node.Epoch last ∧
      Written node last (node.heap.cursor.slots ++ along node.heap.obj (node.heap.trail node.heap.cursor)) := by
  obtain ⟨heap, records, writes, outcome⟩ := node.heap.writes busy writable.writer.toOrdered
  obtain ⟨recorded, inside⟩ := node.heap.file_recorded writable.writer node.heap.obj
  rw [← outcome.slots] at recorded inside ⊢
  have within : ∀ slot ∈ records.flatMap PageRecord.slots, slot.1.1 < dedupPages heap.nrPages := by
    intro slot member
    rw [outcome.nrPages]
    exact lt_dedupPages (Nat.lt_of_lt_of_le (inside slot member) writable.inside) writable.few
  refine ⟨_, ⟨heap, records, writes, rfl⟩, ?_, ?_, rfl, outcome.obj, outcome.pages, outcome.nrPages, outcome.dirtyBits,
    outcome.slotBits, outcome.idle, outcome.writer⟩
  · exact recorded_snapCompactDeltaIntoBase recorded writable.base within
  · exact lookup_snapCompactDeltaIntoBase recorded writable.base within

theorem bind_live_live (e : Option Entry) : (e.bind Entry.live).bind Entry.live = e.bind Entry.live := by
  cases e with
  | none => rfl
  | some e => cases dead : e.deleted <;> simp [Entry.live, dead]

theorem nextEpoch_of_idle (base : Recorded (baseSlots node.files.base)) (few : node.heap.nrPages ≤ 2 ^ 20)
    (idle : node.heap.isSnapshotting = false) (writer : node.heap.writer = none) : ∃ heap last, node.heap.snapEngineTick = some heap ∧
      Epoch { node with heap := heap } last ∧ last.files.deltas = node.files.deltas ∧
      ∀ pos, (baseSlots last.files.base).lookup pos =
        ((along node.heap.obj node.heap.marked ++ baseSlots node.files.base).lookup pos).bind Entry.live := by
  obtain ⟨heap, tick⟩ : ∃ heap, node.heap.snapEngineTick = some heap := by simp [Shard.snapEngineTick, idle]
  have shape : heap = { node.heap with
      isSnapshotting := true
      currentEpoch := node.heap.currentEpoch + 1
      dirtyBits := node.heap.snapDirtyBits
      slotBits := node.heap.snapSlotBits
      snapDirtyBits := node.heap.dirtyBits
      snapSlotBits := node.heap.slotBits } := by
    simpa [Shard.snapEngineTick, idle, eq_comm] using tick
  have cursor : heap.cursor = { nrPages := node.heap.nrPages } := by simp [shape, Shard.cursor, writer]
  have trail : heap.trail heap.cursor = node.heap.marked := by
    rw [cursor, shape]
    simp [Shard.trail, Shard.laterPages, Shard.marked]
    rfl
  have writable : Writable { node with heap := heap } :=
    ⟨⟨cursor ▸ .fresh _, by rw [cursor]; simp [shape], by simpa [shape] using few, by simp [shape]⟩, base⟩
  obtain ⟨last, epoch, written⟩ := writable.epoch (by simp [shape])
  refine ⟨heap, last, tick, epoch, written.deltas, fun pos => ?_⟩
  have lookup := written.lookup pos
  simp only [trail] at lookup
  rw [cursor] at lookup
  rw [lookup]
  simp [Writer.slots, shape]

theorem Writable.nextEpoch (writable : node.Writable) : ∃ last, node.NextEpoch last ∧
    ∀ pos, taken last.files.base last.files.deltas pos = node.heap.remains node.files pos := by
  have finish {last : Node} (deltas : last.files.deltas = node.files.deltas)
      (lookup : ∀ pos, (baseSlots last.files.base).lookup pos =
        ((node.heap.next ++ node.heap.current ++ baseSlots node.files.base).lookup pos).bind Entry.live) (pos : Pos) :
      taken last.files.base last.files.deltas pos = node.heap.remains node.files pos := by
    rw [taken, readOrder, List.lookup_append, lookup, deltas]
    rfl
  cases busy : node.heap.isSnapshotting with
  | false =>
    obtain ⟨heap, last, tick, epoch, deltas, lookup⟩ := nextEpoch_of_idle writable.base writable.few busy (writable.idle busy)
    refine ⟨last, ⟨node, heap, by simp [busy], tick, epoch⟩, finish deltas fun pos => ?_⟩
    rw [lookup]
    simp [Shard.next, Shard.current, Shard.settledObj, busy]
  | true =>
    obtain ⟨mid, settled, written⟩ := writable.epoch busy
    obtain ⟨heap, last, tick, epoch, deltas, lookup⟩ := nextEpoch_of_idle written.base (written.nrPages ▸ writable.few) written.idle written.writer
    refine ⟨last, ⟨mid, heap, by simpa [busy] using settled, tick, epoch⟩, finish (deltas.trans written.deltas) fun pos => ?_⟩
    have next : along mid.heap.obj mid.heap.marked = node.heap.next := by
      rw [Shard.marked_congr written.pages written.nrPages written.dirtyBits written.slotBits, written.obj]
      simp [Shard.next, Shard.settledObj, busy]
    have current : node.heap.cursor.slots ++ along node.heap.obj (node.heap.trail node.heap.cursor) = node.heap.current := by
      simp [Shard.current, busy]
    have after : (node.heap.next ++ node.heap.current ++ baseSlots node.files.base).lookup pos =
        (node.heap.next.lookup pos).or ((node.heap.current ++ baseSlots node.files.base).lookup pos) := by
      rw [List.append_assoc, List.lookup_append]
    rw [lookup, next, List.lookup_append, written.lookup, current, after]
    cases node.heap.next.lookup pos with
    | none => exact bind_live_live _
    | some e => rfl

end Epochs

end Node

end FreakV.Snapshot
