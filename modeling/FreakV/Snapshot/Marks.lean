import FreakV.Snapshot.Layout
import Mathlib.Data.List.Perm.Basic

namespace FreakV.Snapshot

open Snapshot.Shard

structure Mark where
  ptr : Nat
  pos : Pos
deriving DecidableEq

namespace Shard

variable {s : Shard} {ptr objSize : Nat}

-- The bits that snap_obj_mark sets.
def markPos (s : Shard) (ptr objSize : Nat) : Pos :=
  let lpage := ptr / lpageSize
  if objSize = 0 then (lpage - (s.pages lpage).offsetInSpan, 0)
  else (lpage, (ptrToPageSlot s.pages ptr objSize).getD 0)

def mark (s : Shard) (ptr objSize : Nat) : Mark := ⟨ptr, s.markPos ptr objSize⟩

def marks (s : Shard) : Op → List Mark
  | .set key value expireMs place =>
    let total := totalSize key.length value.length
    match s.memMalloc total place with
    | some s =>
      ((s.table (KvObj.make key value expireMs).key).toList.map fun old => s.mark old (s.sizeAt old)) ++
        [s.mark place.addr (markSize total)]
    | none => []
  | .del key => (s.table key).toList.map fun ptr => s.mark ptr (s.sizeAt ptr)
  | _ => []

def nextVisit (s : Shard) : Option Mark := do
  let w ← s.writer
  let p ← w.page
  let (slot, ptr) ← p.slots.head?
  return ⟨ptr, (p.lpage, slot)⟩

section Frame

variable (s) (ptr) (objSize)

theorem snapObjMark_frame : ∃ dirtyBits slotBits,
    s.snapObjMark ptr objSize = { s with dirtyBits := dirtyBits, slotBits := slotBits } := by
  have slot (t : Shard) (lpage k : Nat) : ∃ bits, t.setSlotBit lpage k = { t with slotBits := bits } := by
    unfold setSlotBit
    split
    · exact ⟨_, rfl⟩
    · exact ⟨_, rfl⟩
  unfold snapObjMark
  simp only
  split
  · exact ⟨_, _, rfl⟩
  · split
    · obtain ⟨bits, eq⟩ := slot (s.setDirtyBit (ptr / lpageSize - (s.pages (ptr / lpageSize)).offsetInSpan)) _ 0
      exact ⟨_, bits, eq⟩
    · split
      next k _ =>
        obtain ⟨bits, eq⟩ := slot (s.setDirtyBit (ptr / lpageSize)) (ptr / lpageSize) k
        exact ⟨_, bits, eq⟩
      · exact ⟨_, _, rfl⟩

@[simp] theorem snapObjMark_pages : (s.snapObjMark ptr objSize).pages = s.pages := by
  obtain ⟨_, _, eq⟩ := s.snapObjMark_frame ptr objSize
  rw [eq]

@[simp] theorem snapObjMark_nrPages : (s.snapObjMark ptr objSize).nrPages = s.nrPages := by
  obtain ⟨_, _, eq⟩ := s.snapObjMark_frame ptr objSize
  rw [eq]

@[simp] theorem snapObjMark_obj : (s.snapObjMark ptr objSize).obj = s.obj := by
  obtain ⟨_, _, eq⟩ := s.snapObjMark_frame ptr objSize
  rw [eq]

@[simp] theorem snapObjMark_used : (s.snapObjMark ptr objSize).used = s.used := by
  obtain ⟨_, _, eq⟩ := s.snapObjMark_frame ptr objSize
  rw [eq]

@[simp] theorem snapObjMark_table : (s.snapObjMark ptr objSize).table = s.table := by
  obtain ⟨_, _, eq⟩ := s.snapObjMark_frame ptr objSize
  rw [eq]

@[simp] theorem snapObjMark_snapDirtyBits : (s.snapObjMark ptr objSize).snapDirtyBits = s.snapDirtyBits := by
  obtain ⟨_, _, eq⟩ := s.snapObjMark_frame ptr objSize
  rw [eq]

end Frame

theorem ptrToPageSlot_head {pages : Nat → PageInfo} {head : Nat} (positive : 0 < objSize)
    (offset : (pages head).offsetInSpan = 0) : ptrToPageSlot pages (head * lpageSize) objSize = some 0 := by
  have first : pageFirstSlotOffset 0 objSize = 0 := by
    rw [pageFirstSlotOffset_eq, firstIdx, Nat.zero_mul, Nat.zero_add, Nat.div_eq_of_lt (by omega), Nat.zero_mul]
  unfold ptrToPageSlot
  simp only [Nat.mul_div_cancel _ (show 0 < lpageSize by decide), offset, first, Nat.mul_mod_left]
  simp

theorem Located.slot_eq (located : Located s ptr objSize) :
    (if 0 < objSize then ptrToPageSlot s.pages ptr objSize else some 0) = some (s.pos ptr).2 := by
  cases located with
  | @slot span i place idx addr size =>
    subst addr size
    rw [if_pos place.positive, place.pos idx,
      ptrToPageSlot_spanAddr place.positive (congrArg PageInfo.offsetInSpan (place.page idx).1)]
  | @pages head n place addr =>
    subst addr
    rw [place.pos]
    split
    next positive =>
      have page := place.page.1
      rw [Nat.mul_div_cancel _ (by decide)] at page
      exact ptrToPageSlot_head positive (by rw [page])
    · rfl

theorem Located.head_eq (located : Located s ptr 0) :
    ptr / lpageSize - (s.pages (ptr / lpageSize)).offsetInSpan = (s.pos ptr).1 := by
  cases located with
  | slot place idx addr size => exact absurd size.symm (Nat.ne_of_gt place.positive)
  | pages place addr =>
    subst addr
    rw [place.page.1, pos_fst, Nat.sub_zero]

theorem Located.markPos (located : Located s ptr objSize) : s.markPos ptr objSize = s.pos ptr := by
  unfold Shard.markPos
  have slot := located.slot_eq
  by_cases large : objSize = 0
  · subst large
    rw [if_pos rfl, located.head_eq]
    simp only [Nat.lt_irrefl, if_false, Option.some.injEq] at slot
    exact Prod.ext rfl slot
  · rw [if_pos (Nat.pos_of_ne_zero large)] at slot
    rw [if_neg large, slot, Option.getD_some, ← pos_fst]

theorem Located.snapObjMark (located : Located s ptr objSize) :
    s.snapObjMark ptr objSize = (s.setDirtyBit (s.pos ptr).1).setSlotBit (s.pos ptr).1 (s.pos ptr).2 := by
  have inside := located.inside
  have slot := located.slot_eq
  unfold Shard.snapObjMark
  simp only
  rw [if_neg (Nat.not_le_of_lt inside)]
  by_cases large : objSize = 0
  · subst large
    simp only [Nat.lt_irrefl, if_false, Option.some.injEq] at slot
    rw [if_pos rfl, located.head_eq, ← slot]
  · rw [if_pos (Nat.pos_of_ne_zero large)] at slot
    rw [if_neg large, slot, pos_fst]

theorem poolClass_le {size c : Nat} (found : poolClass size = some c) : size ≤ c := by
  have enough := List.find?_some found
  simpa using enough

theorem Located.slot_small (located : Located s ptr (s.sizeAt ptr)) : (s.pos ptr).2 < snapModifiedSize * 8 := by
  cases located with
  | @slot span i place idx addr size =>
    subst addr
    have long : 49 ≤ span.objSize := by
      have positive := place.positive
      rw [← size, sizeAt, markSize] at positive ⊢
      split at positive
      next small =>
        rw [if_pos small]
        cases found : poolClass (totalSize (s.obj (spanAddr span i)).keyLen (s.obj (spanAddr span i)).valLen) with
        | none => simp [found] at positive
        | some c =>
          have enough := poolClass_le found
          rw [totalSize] at enough
          rw [Option.getD_some]
          omega
      · exact absurd positive (Nat.lt_irrefl _)
    have distance := slot_distance place.positive i
    have within : i * span.objSize % lpageSize < 4096 := Nat.mod_lt _ (by decide)
    rw [place.pos idx]
    by_contra big
    have more : 128 * 49 ≤ pageSlot span.objSize i * span.objSize := Nat.mul_le_mul (Nat.le_of_not_lt big) long
    omega
  | pages place addr =>
    rw [addr, place.pos]
    exact Nat.zero_lt_succ _

def InPage (s : Shard) (ptr : Nat) : Prop :=
  ∀ span, (s.pages (ptr / lpageSize)).span = some span → ptr % lpageSize + span.objSize ≤ lpageSize

instance (s : Shard) (ptr : Nat) : Decidable (s.InPage ptr) :=
  match h : (s.pages (ptr / lpageSize)).span with
  | some span => decidable_of_iff (ptr % lpageSize + span.objSize ≤ lpageSize) (by simp [InPage, h])
  | none => .isTrue (by simp [InPage, h])

theorem Located.slot_counted (located : Located s ptr objSize) (fits : s.InPage ptr) : ∃ size off slots,
    slotsInPage (s.pages (s.pos ptr).1) = some (size, off, slots) ∧ (s.pos ptr).2 < slots ∧
      (s.pos ptr).1 * lpageSize + (off + (s.pos ptr).2 * size) = ptr := by
  obtain ⟨size, off, slots, geometry, addr⟩ := located.slotAddr
  refine ⟨size, off, slots, geometry, ?_, addr⟩
  cases located with
  | @slot span i place idx addr' _ =>
    subst addr'
    obtain ⟨page, -⟩ := place.page idx
    obtain ⟨counted, short⟩ :=
      pageSlot_lt_iff place.positive (congrArg PageInfo.span page) (congrArg PageInfo.offsetInSpan page)
    rw [pos_fst, counted] at geometry
    simp only [Option.some.injEq, Prod.mk.injEq] at geometry
    rw [place.pos idx, ← geometry.2.2]
    refine short.2 ?_
    rw [← spanAddr_mod]
    exact fits span (by rw [page])
  | @pages head n place addr' =>
    subst addr'
    rw [place.pos] at geometry ⊢
    rw [show s.pages head = _ from place.pages 0 place.some, slotsInPage] at geometry
    simp only [Nat.ne_of_gt place.some, if_false, Option.some.injEq, Prod.mk.injEq] at geometry
    omega

end Shard

structure Traced where
  shard : Shard := Shard.empty
  marked : List Mark := []
  frozen : List Mark := []
  left : List Mark := []
  done : List Mark := []
  last : Shard := Shard.empty
  file : List PageRecord := []

namespace Traced

def step (t : Traced) (op : Op) : Option Traced :=
  (t.shard.step op).map fun (s, file) =>
    let t' := { t with shard := s, marked := t.shard.marks op ∪ t.marked, file := file.getD t.file }
    match op with
    | .tick => { t' with marked := [], frozen := t.marked, left := t.marked, done := [], last := t.shard }
    | .serialize =>
      match t.shard.nextVisit with
      | some m => { t' with left := t.left.erase m, done := t.done ++ [m] }
      | none => t'
    | _ => t'

def owed (last : Shard) (m : Mark) : Pos × Entry := (m.pos, (last.obj m.ptr).entry m.pos.2)

def InFlight (t : Traced) (ptr : Nat) : Prop := ptr ∈ t.left.map Mark.ptr ∧ t.shard.snapDirtyBits (ptr / lpageSize) = false

instance (t : Traced) (ptr : Nat) : Decidable (t.InFlight ptr) := inferInstanceAs (Decidable (_ ∧ _))

/-- When a tick comes every marked object lies in one page, no object is removed while it is in flight, and the shard
has at most 2^20 pages. -/
def Fits (t : Traced) : Op → Prop
  | .grow more => t.shard.nrPages + more ≤ 2 ^ 20
  | .tick => ∀ m ∈ t.marked, t.shard.InPage m.ptr
  | .set key value expireMs _ => ∀ ptr ∈ t.shard.table (KvObj.make key value expireMs).key, ¬t.InFlight ptr
  | .del key => ∀ ptr ∈ t.shard.table key, ¬t.InFlight ptr
  | _ => True

instance (t : Traced) (op : Op) : Decidable (t.Fits op) := by
  cases op <;> unfold Fits <;> infer_instance

end Traced

section Invariants

structure Pinned (s : Shard) (m : Mark) : Prop where
  used : s.used m.ptr = true
  held : 1 ≤ (s.obj m.ptr).refcount
  pos : m.pos = s.pos m.ptr

structure Active (s : Shard) (marked : List Mark) : Prop where
  nodup : marked.Nodup
  pinned : ∀ m ∈ marked, Pinned s m
  dirty : ∀ l, s.dirtyBits l = true ↔ ∃ m ∈ marked, m.pos.1 = l
  slots : ∀ l k, s.slotBits l k = true ↔ ∃ m ∈ marked, m.pos = (l, k)

def Shard.cursor (s : Shard) : Writer := s.writer.getD { nrPages := s.nrPages }

structure Ahead (s : Shard) (left : List Mark) : Prop where
  nodup : left.Nodup
  pinned : ∀ m ∈ left, Pinned s m
  fits : ∀ m ∈ left, s.InPage m.ptr
  below : ∀ m ∈ left, m.pos.1 < s.cursor.nrPages
  dirty : ∀ l, s.snapDirtyBits l = true ↔ s.cursor.word ≤ l / 64 ∧ ∃ m ∈ left, m.pos.1 = l
  slots : ∀ l k, (∀ p ∈ s.cursor.page, p.lpage ≠ l) → (s.snapSlotBits l k = true ↔ ∃ m ∈ left, m.pos = (l, k))
  reach : ∀ m ∈ left, s.cursor.word ≤ m.pos.1 / 64 ∨ m.pos.1 ∈ s.cursor.pages ∨
    ∃ p ∈ s.cursor.page, p.lpage = m.pos.1 ∧ (m.pos.2, m.ptr) ∈ p.slots
  pages : s.cursor.pages.Nodup ∧ ∀ l ∈ s.cursor.pages, l / 64 < s.cursor.word ∧ ∃ m ∈ left, m.pos.1 = l
  page : ∀ p ∈ s.cursor.page, p.lpage / 64 < s.cursor.word ∧ p.lpage ∉ s.cursor.pages ∧ p.slots.Nodup ∧
    ∀ x ∈ p.slots, ⟨x.2, (p.lpage, x.1)⟩ ∈ left

structure Kept (before after : KvObj) : Prop where
  key : after.key = before.key
  value : after.value = before.value
  expireMs : after.expireMs = before.expireMs
  flag : before.snapFlag = .liveFresh ∧ (after.snapFlag = .liveFresh ∨ after.snapFlag = .deadPending) ∨
    before.snapFlag = .deadSafe ∧ after.snapFlag = .deadSafe

structure Live (s : Shard) (key : Bytes) (ptr : Nat) : Prop where
  used : s.used ptr = true
  held : 2 ≤ (s.obj ptr).refcount
  flag : (s.obj ptr).snapFlag = .liveFresh ∨ (s.obj ptr).snapFlag = .liveVisited
  key : (s.obj ptr).key = key

structure Flags (s last : Shard) (marked left : List Mark) : Prop where
  recent : ∀ m ∈ marked, (s.obj m.ptr).snapFlag ≠ .liveVisited ∧ ((s.obj m.ptr).snapFlag = .deadPending → m ∈ left)
  both : ∀ m ∈ left, m ∈ marked → (s.obj m.ptr).snapFlag = .deadPending
  kept : ∀ m ∈ left, Kept (last.obj m.ptr) (s.obj m.ptr)
  table : ∀ key ptr, s.table key = some ptr → Live s key ptr

def Writer.slots (w : Writer) : List (Pos × Entry) :=
  w.records.flatMap PageRecord.slots ++
    (w.page.toList.flatMap fun p => PageRecord.slots { lpageIdx := p.lpage, entries := p.entries })

structure Tracks (t : Traced) : Prop where
  layout : Layout t.shard
  active : Active t.shard t.marked
  ahead : Ahead t.shard t.left
  flags : Flags t.shard t.last t.marked t.left
  split : t.frozen.Perm (t.done ++ t.left)
  once : (t.frozen.map Mark.pos).Nodup
  idle : t.shard.isSnapshotting = false →
    t.shard.writer = none ∧ t.left = [] ∧ t.file.flatMap PageRecord.slots = t.done.map (Traced.owed t.last)
  busy : t.shard.isSnapshotting = true → t.shard.cursor.slots = t.done.map (Traced.owed t.last)

end Invariants

section Written

namespace Shard

variable {w : Writer} {p : PageWriter}

theorem slots_page (page : w.page = some p) :
    w.slots = w.records.flatMap PageRecord.slots ++ PageRecord.slots { lpageIdx := p.lpage, entries := p.entries } := by
  simp [Writer.slots, page]

theorem slots_writeSlot (s : Shard) (page : w.page = some p) (slot ptr : Nat) (rest : List (Nat × Nat)) :
    (s.writeSlot w p slot ptr rest).cursor.slots = w.slots ++ [((p.lpage, slot), (s.obj ptr).entry slot)] := by
  have index : ((s.obj ptr).entry slot).slotIndex = slot := by
    rw [KvObj.entry]
    split <;> rfl
  have after : (s.writeSlot w p slot ptr rest).cursor.slots = _ := slots_page rfl
  rw [slots_page page, after, PageRecord.slots, PageRecord.slots]
  simp only [List.map_append, List.map_singleton, index, List.append_assoc]
  rfl

theorem slots_finishPage (s : Shard) (page : w.page = some p) : (s.finishPage w p).cursor.slots = w.slots := by
  rw [slots_page page]
  simp only [Shard.cursor, finishPage, Writer.slots, Option.getD_some]
  split
  next empty => simp [empty, PageRecord.slots]
  · simp

end Shard

end Written

end FreakV.Snapshot
