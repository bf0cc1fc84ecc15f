import FreakV.Snapshot.Files
import FreakV.Mem.Arena
import Mathlib.Tactic.NormNum

/-!
The memory of a shard as the snapshot sees it: logical pages, the spans they belong to, and the slots of a page.
Addresses are offsets from `data_base`.
-/

namespace FreakV.Snapshot

def lpageSize : Nat := 4096
def smallAllocMax : Nat := 65536

-- ptr_lpage_idx keeps 32 bits of the offset, and the other places that find a page keep all of it.
def ptrLpageIdx (ptr : Nat) : Nat := Mem.sliceLpageIdx ptr

theorem ptrLpageIdx_eq {ptr : Nat} (near : ptr / lpageSize < 2 ^ 20) : ptrLpageIdx ptr = ptr / lpageSize := by
  rw [lpageSize] at near ⊢
  rw [ptrLpageIdx, Mem.sliceLpageIdx_eq, Nat.mod_eq_of_lt (by omega)]

def poolClasses : List Nat :=
  [8, 16, 32, 48, 64, 80, 112, 144, 192, 240, 304, 384, 480, 608, 768, 960, 1200, 1504, 1888, 2368, 2960, 3712, 4096,
    5120, 6400, 8000, 10000, 12512, 15648, 19568, 24464, 30592, 38240, 47808, 59760, 65536]

-- pool_idx_get, and the size of the class
def poolClass (size : Nat) : Option Nat := poolClasses.find? fun c => size ≤ c

def poolLpagesCalculate (objSize : Nat) : Nat :=
  let lpages := (objSize * 64 + lpageSize - 1) / lpageSize
  if lpages = 0 then 1 else lpages

def objsPerSpan (objSize : Nat) : Nat := poolLpagesCalculate objSize * lpageSize / objSize

-- The argument of snap_obj_mark; 0 stands for a large object.
def markSize (total : Nat) : Nat := if total ≤ smallAllocMax then (poolClass total).getD 0 else 0

structure SpanInfo where
  objSize : Nat
  headLpage : Nat
deriving DecidableEq

structure PageInfo where
  span : Option SpanInfo := none
  spanSize : Nat := 0
  offsetInSpan : Nat := 0
deriving DecidableEq

def pageFirstSlotOffset (offsetInSpan objSize : Nat) : Nat :=
  let pageStart := offsetInSpan * lpageSize
  (pageStart + objSize - 1) / objSize * objSize - pageStart

def ptrToPageSlot (pages : Nat → PageInfo) (ptr objSize : Nat) : Option Nat :=
  let firstOff := pageFirstSlotOffset (pages (ptr / lpageSize)).offsetInSpan objSize
  if ptr % lpageSize < firstOff then none else some ((ptr % lpageSize - firstOff) / objSize)

def slotsInPage (page : PageInfo) : Option (Nat × Nat × Nat) :=
  match page.span with
  | some span =>
    let firstOff := pageFirstSlotOffset page.offsetInSpan span.objSize
    some (span.objSize, firstOff, (2 ^ 32 + lpageSize - firstOff) % 2 ^ 32 / span.objSize)
  | none => if page.spanSize = 0 then none else some (0, 0, 1)

def spanAddr (span : SpanInfo) (i : Nat) : Nat := span.headLpage * lpageSize + i * span.objSize

section Geometry

variable {objSize i off : Nat}

def firstIdx (off objSize : Nat) : Nat := (off * lpageSize + objSize - 1) / objSize

theorem pageFirstSlotOffset_eq (off objSize : Nat) :
    pageFirstSlotOffset off objSize = firstIdx off objSize * objSize - off * lpageSize := rfl

theorem firstIdx_le (positive : 0 < objSize) (starts : off * lpageSize ≤ i * objSize) : firstIdx off objSize ≤ i := by
  rw [firstIdx, Nat.div_le_iff_le_mul_add_pred positive, Nat.mul_comm objSize]
  omega

theorem le_firstIdx_mul (positive : 0 < objSize) (off : Nat) : off * lpageSize ≤ firstIdx off objSize * objSize := by
  have division := Nat.lt_mul_div_succ (off * lpageSize + objSize - 1) positive
  rw [Nat.mul_add, Nat.mul_one, Nat.mul_comm objSize] at division
  rw [firstIdx]
  omega

def pageSlot (objSize i : Nat) : Nat := i - firstIdx (i * objSize / lpageSize) objSize

theorem slot_distance (positive : 0 < objSize) (i : Nat) :
    i * objSize % lpageSize =
      pageFirstSlotOffset (i * objSize / lpageSize) objSize + pageSlot objSize i * objSize := by
  have split := Nat.div_add_mod' (i * objSize) lpageSize
  have starts : i * objSize / lpageSize * lpageSize ≤ i * objSize := by omega
  have first := firstIdx_le positive starts
  have behind := le_firstIdx_mul positive (i * objSize / lpageSize)
  rw [pageFirstSlotOffset_eq, pageSlot, Nat.mul_sub_right_distrib]
  have below : firstIdx (i * objSize / lpageSize) objSize * objSize ≤ i * objSize := Nat.mul_le_mul_right _ first
  omega

variable {span : SpanInfo}

theorem spanAddr_div (span : SpanInfo) (i : Nat) :
    spanAddr span i / lpageSize = span.headLpage + i * span.objSize / lpageSize := by
  rw [spanAddr, Nat.add_comm, Nat.add_mul_div_right _ _ (by decide), Nat.add_comm]

theorem spanAddr_mod (span : SpanInfo) (i : Nat) : spanAddr span i % lpageSize = i * span.objSize % lpageSize := by
  rw [spanAddr, Nat.mul_add_mod_self_right]

theorem ptrToPageSlot_spanAddr {pages : Nat → PageInfo} (positive : 0 < span.objSize)
    (offset : (pages (spanAddr span i / lpageSize)).offsetInSpan = i * span.objSize / lpageSize) :
    ptrToPageSlot pages (spanAddr span i) span.objSize = some (pageSlot span.objSize i) := by
  have distance := slot_distance positive i
  unfold ptrToPageSlot
  simp only [offset, spanAddr_mod]
  rw [if_neg (by omega), distance, Nat.add_sub_cancel_left, Nat.mul_div_cancel _ positive]

theorem spanAddr_eq (positive : 0 < span.objSize) (i : Nat) :
    spanAddr span i / lpageSize * lpageSize +
      (pageFirstSlotOffset (i * span.objSize / lpageSize) span.objSize + pageSlot span.objSize i * span.objSize) =
    spanAddr span i := by
  rw [← slot_distance positive i, ← spanAddr_mod]
  exact Nat.div_add_mod' _ _

theorem pageSlot_lt_iff {page : PageInfo} (positive : 0 < span.objSize) (pool : page.span = some span)
    (offset : page.offsetInSpan = i * span.objSize / lpageSize) :
    slotsInPage page = some (span.objSize, pageFirstSlotOffset page.offsetInSpan span.objSize,
        (lpageSize - pageFirstSlotOffset page.offsetInSpan span.objSize) / span.objSize) ∧
    (pageSlot span.objSize i < (lpageSize - pageFirstSlotOffset page.offsetInSpan span.objSize) / span.objSize ↔
      i * span.objSize % lpageSize + span.objSize ≤ lpageSize) := by
  have distance := slot_distance positive i
  have within : i * span.objSize % lpageSize < lpageSize := Nat.mod_lt _ (by decide)
  have size : lpageSize = 4096 := rfl
  rw [offset]
  constructor
  · unfold slotsInPage
    simp only [pool, offset]
    rw [show (2 ^ 32 + lpageSize - pageFirstSlotOffset (i * span.objSize / lpageSize) span.objSize) % 2 ^ 32 =
      lpageSize - pageFirstSlotOffset (i * span.objSize / lpageSize) span.objSize by omega]
  · rw [← Nat.succ_le_iff, Nat.le_div_iff_mul_le positive, Nat.succ_mul]
    omega

end Geometry

end FreakV.Snapshot
