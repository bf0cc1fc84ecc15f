import Mathlib.Data.List.Basic
import Mathlib.Tactic.NormNum

/-!
The control-plane slab allocator (slab.c): `mapped` says whether the mmaps of a new chunk succeed, and a result `none`
of the allocation stands for a null pointer that is followed.
-/

namespace FreakV.Slab

inductive Flag where
  | free
  | slab
  | large
deriving DecidableEq

structure Page where
  span : Option Nat := none
  spanPages : Nat := 0
  flags : Flag := .free
  buddyOrder : Nat := 0

/-- `freeHeads k` is the list that `nodes` links from `free_heads[k]` on. -/
structure Buddy where
  pages : Nat → Page := fun _ => {}
  freeHeads : Nat → List Nat := fun _ => []

structure Span where
  pool : Nat := 0
  freelist : List Nat := []
  headPage : Nat := 0
  spanPages : Nat := 0
  usedSlots : Nat := 0

structure Chunk where
  buddy : Buddy := {}
  spans : Nat → Span := fun _ => {}

structure Pool where
  emptyCount : Nat := 0
  partialSpans : List (Nat × Nat) := []
  empty : List (Nat × Nat) := []
  allocatedBytes : Nat := 0
  activeSpans : Nat := 0

structure LargeHdr where
  magic : Nat := 0
  pages : Nat := 0
  requested : Nat := 0

/-- A span is named by its chunk and its first page in it; `headers` are the headers of large objects by page. -/
structure Allocator where
  nrChunks : Nat := 0
  chunks : Nat → Chunk := fun _ => {}
  pools : Nat → Pool := fun _ => {}
  headers : Nat → LargeHdr := fun _ => {}
  totalAllocated : Nat := 0
  totalSlabs : Nat := 0
  largeAllocated : Nat := 0

def pageSize : Nat := 4096

def chunkPages : Nat := 65536

def maxChunks : Nat := 1024

def buddyMaxOrder : Nat := 17

def largeMagic : Nat := 0x434C4152

def sizeClasses : List Nat :=
  [16, 32, 48, 64, 80, 112, 144, 192, 256, 320, 384, 512, 768, 1024, 1536, 2048, 3072, 4096, 5120, 8192, 12288, 16384,
    24576, 32768, 49152, 65536]

def slabClassGet (size : Nat) : Option Nat := sizeClasses.findIdx? (size ≤ ·)

def slotSize (cls : Nat) : Nat := sizeClasses.getD cls 0

def ceilLog2U32 (n : Nat) : Nat := if n ≤ 1 then 0 else (n - 1).log2 + 1

def pagesForSpan (slotSize : Nat) : Nat :=
  let targetSlots :=
    if slotSize ≤ 512 then 64
    else if slotSize ≤ 2048 then 32
    else if slotSize ≤ 8192 then 16
    else if slotSize ≤ 16384 then 4
    else 1
  let pages := (slotSize * targetSlots + pageSize - 1) / pageSize
  if pages = 0 then 1 else pages

def slotsPerSpan (slotSize : Nat) : Nat := pagesForSpan slotSize * pageSize / slotSize

def requestedPages (size : Nat) : Nat := ((16 + size + pageSize - 1) % 2 ^ 64 / pageSize) % 2 ^ 32

namespace Buddy

def setPages (b : Buddy) (idx n : Nat) (page : Page → Page) : Buddy :=
  { b with pages := fun p => if idx ≤ p ∧ p < idx + n then page (b.pages p) else b.pages p }

def buddyListRemove (b : Buddy) (idx : Nat) : Buddy :=
  let order := (b.pages idx).buddyOrder
  { b with freeHeads := Function.update b.freeHeads order ((b.freeHeads order).erase idx) }

def buddyListPush (b : Buddy) (idx order : Nat) : Buddy :=
  { pages := Function.update b.pages idx { b.pages idx with buddyOrder := order }
    freeHeads := Function.update b.freeHeads order (idx :: b.freeHeads order) }

def split (order idx : Nat) : Nat → Buddy → Buddy
  | 0, b => b
  | found + 1, b => if order < found + 1 then split order idx found (b.buddyListPush (idx + 2 ^ found) found) else b

def buddyAlloc (b : Buddy) (n : Nat) : Option (Nat × Buddy) :=
  let order := ceilLog2U32 n
  if n = 0 then none
  else if buddyMaxOrder ≤ order then none
  else do
    let found ← (List.range' order (buddyMaxOrder - order)).find? fun found => b.freeHeads found ≠ []
    let idx ← (b.freeHeads found).head?
    return (idx, (split order idx found (b.buddyListRemove idx)).setPages idx (2 ^ order) fun page =>
      { page with flags := .slab, spanPages := 2 ^ order, buddyOrder := 0 })

end Buddy

namespace Allocator

def setChunk (a : Allocator) (i : Nat) (chunk : Chunk) : Allocator := { a with chunks := Function.update a.chunks i chunk }

def setPool (a : Allocator) (cls : Nat) (pool : Pool) : Allocator := { a with pools := Function.update a.pools cls pool }

def chunkCreate (a : Allocator) (mapped : Bool) : Option Allocator :=
  if maxChunks ≤ a.nrChunks then none
  else if mapped then
    some { a.setChunk a.nrChunks { buddy := ({} : Buddy).buddyListPush 0 (buddyMaxOrder - 1) } with nrChunks := a.nrChunks + 1 }
  else none

def chunkTake (a : Allocator) (n i : Nat) : Option (Allocator × Nat × Nat) :=
  ((a.chunks i).buddy.buddyAlloc n).map fun (idx, buddy) => (a.setChunk i { a.chunks i with buddy }, i, idx)

def chunkAllocPages (a : Allocator) (mapped : Bool) (n : Nat) : Allocator × Option (Nat × Nat) :=
  match (List.range a.nrChunks).findSome? (a.chunkTake n) with
  | some (a, place) => (a, some place)
  | none =>
    match a.chunkCreate mapped with
    | none => (a, none)
    | some created =>
      match created.chunkTake n a.nrChunks with
      | none => (created, none)
      | some (a, place) => (a, some place)

def spanInit (a : Allocator) (cls : Nat) : Nat × Nat → Allocator
  | (i, idx) =>
    let chunk := a.chunks i
    let pages := (chunk.buddy.pages idx).spanPages
    let head := i * chunkPages + idx
    let slots := (List.range (slotsPerSpan (slotSize cls))).map fun k => head * pageSize + k * slotSize cls
    a.setChunk i
      { buddy := chunk.buddy.setPages idx pages fun page => { page with span := some idx, spanPages := pages, flags := .slab }
        spans := Function.update chunk.spans idx
          { pool := cls, freelist := slots.reverse, headPage := head, spanPages := pages } }

def poolSpan (a : Allocator) (mapped : Bool) (cls : Nat) : Allocator × Option (Nat × Nat) :=
  let pool := a.pools cls
  match pool.partialSpans, pool.empty with
  | span :: _, _ => (a, some span)
  | [], span :: rest =>
    (a.setPool cls { pool with empty := rest, emptyCount := pool.emptyCount - 1, partialSpans := [span] }, some span)
  | [], [] =>
    match a.chunkAllocPages mapped (pagesForSpan (slotSize cls)) with
    | (a, none) => (a, none)
    | (a, some span) =>
      ({ (a.spanInit cls span).setPool cls { pool with partialSpans := [span], activeSpans := pool.activeSpans + 1 } with
          totalSlabs := a.totalSlabs + 1 }, some span)

def slotTake (a : Allocator) (cls : Nat) : Nat × Nat → Option (Allocator × Nat)
  | (i, idx) =>
    let chunk := a.chunks i
    let span := chunk.spans idx
    let pool := a.pools cls
    match span.freelist with
    | [] => none
    | node :: rest =>
      let spans := Function.update chunk.spans idx { span with freelist := rest, usedSlots := span.usedSlots + 1 }
      let pool' :=
        { pool with
          allocatedBytes := pool.allocatedBytes + slotSize cls
          partialSpans := if rest = [] then pool.partialSpans.erase (i, idx) else pool.partialSpans }
      some ({ (a.setChunk i { chunk with spans }).setPool cls pool' with
        totalAllocated := a.totalAllocated + slotSize cls }, node)

def poolAlloc (a : Allocator) (mapped : Bool) (cls : Nat) : Option (Allocator × Option Nat) :=
  match a.poolSpan mapped cls with
  | (a, none) => some (a, none)
  | (a, some span) => (a.slotTake cls span).map fun (a, node) => (a, some node)

def largeInit (a : Allocator) (size : Nat) : Nat × Nat → Allocator × Nat
  | (i, idx) =>
    let chunk := a.chunks i
    let pages := (chunk.buddy.pages idx).spanPages
    let head := i * chunkPages + idx
    let buddy := chunk.buddy.setPages idx pages fun page => { page with span := none, spanPages := pages, flags := .large }
    ({ a.setChunk i { chunk with buddy } with
        headers := Function.update a.headers head { magic := largeMagic, pages := pages, requested := size }
        largeAllocated := a.largeAllocated + pages * pageSize
        totalAllocated := a.totalAllocated + size }, head * pageSize + 16)

def slabObjAlloc (a : Allocator) (mapped : Bool) (size : Nat) : Option (Allocator × Option Nat) :=
  if size = 0 then some (a, none)
  else
    match slabClassGet size with
    | some cls => a.poolAlloc mapped cls
    | none =>
      if (16 + size) % 2 ^ 64 < size then some (a, none)
      else
        match a.chunkAllocPages mapped (requestedPages size) with
        | (a, none) => some (a, none)
        | (a, some place) =>
          let (a, ptr) := a.largeInit size place
          some (a, some ptr)

def failStep (a : Allocator) (request : Bool × Nat) : Option Allocator :=
  match a.slabObjAlloc request.1 request.2 with
  | some (a, none) => some a
  | _ => none

end Allocator

def Fits (n : Nat) : Prop := 1 ≤ n ∧ n ≤ chunkPages

instance (n : Nat) : Decidable (Fits n) := inferInstanceAs (Decidable (_ ∧ _))

def Allocator.Room (a : Allocator) (mapped : Bool) : Prop := a.nrChunks < maxChunks ∧ mapped = true

def Allocator.Wasteful (a : Allocator) (request : Bool × Nat) : Prop :=
  65536 < request.2 ∧ 16 + request.2 < 2 ^ 64 ∧ ¬Fits (requestedPages request.2) ∧ a.Room request.1

section Failure

variable {a a' : Allocator} {mapped : Bool} {n size : Nat}

theorem ceilLog2U32_lt (n : Nat) : ceilLog2U32 n < buddyMaxOrder ↔ n ≤ chunkPages := by
  simp only [ceilLog2U32, buddyMaxOrder, chunkPages]
  split
  · omega
  · have := Nat.log2_lt (n := n - 1) (k := 16) (by omega)
    omega

theorem buddyAlloc_fresh (n : Nat) :
    ((({} : Buddy).buddyListPush 0 (buddyMaxOrder - 1)).buddyAlloc n).isSome ↔ Fits n := by
  have order := ceilLog2U32_lt n
  simp only [Buddy.buddyAlloc, Fits]
  split_ifs with zero large
  · simp [zero]
  · simp only [Option.isSome_none, Bool.false_eq_true, false_iff]
    omega
  · have only (k : Nat) : (({} : Buddy).buddyListPush 0 (buddyMaxOrder - 1)).freeHeads k ≠ [] ↔ k = buddyMaxOrder - 1 := by
      simp [Buddy.buddyListPush, Function.update_apply]
    have last : buddyMaxOrder - 1 ∈ List.range' (ceilLog2U32 n) (buddyMaxOrder - ceilLog2U32 n) :=
      List.mem_range'_1.2 (by omega)
    cases found : (List.range' (ceilLog2U32 n) (buddyMaxOrder - ceilLog2U32 n)).find? fun k =>
        (({} : Buddy).buddyListPush 0 (buddyMaxOrder - 1)).freeHeads k ≠ [] with
    | none => simpa [only] using List.find?_eq_none.1 found _ last
    | some k =>
      obtain rfl := (only k).1 (by simpa using List.find?_some found)
      simp [Buddy.buddyListPush]
      omega

theorem Allocator.chunkCreate_none : a.chunkCreate mapped = none ↔ ¬a.Room mapped := by
  simp [chunkCreate, Room]

theorem Allocator.chunkAllocPages_none (failed : a.chunkAllocPages mapped n = (a', none)) :
    a' = a ∧ ¬a.Room mapped ∨ a'.nrChunks = a.nrChunks + 1 ∧ a.Room mapped ∧ ¬Fits n := by
  simp only [chunkAllocPages] at failed
  split at failed
  · cases failed
  · split at failed
    next refused =>
      cases failed
      exact .inl ⟨rfl, chunkCreate_none.1 refused⟩
    next created added =>
      have room : a.Room mapped := by
        by_contra full
        simp [chunkCreate_none.2 full] at added
      simp only [chunkCreate, Nat.not_le.2 room.1, room.2, if_true, if_false, Option.some.injEq] at added
      subst added
      split at failed
      next refused =>
        cases failed
        refine .inr ⟨rfl, room, fun fits => ?_⟩
        simp only [chunkTake, setChunk, Function.update_self, Option.map_eq_none_iff] at refused
        simpa [refused] using (buddyAlloc_fresh n).2 fits
      · cases failed

theorem slabClassGet_none : slabClassGet size = none ↔ 65536 < size := by
  simp [slabClassGet, sizeClasses]
  omega

theorem pagesForSpan_fits {cls : Nat} (found : slabClassGet size = some cls) : Fits (pagesForSpan (slotSize cls)) := by
  obtain ⟨below, -⟩ := List.findIdx?_eq_some_iff_getElem.1 found
  exact (by decide : ∀ cls < sizeClasses.length, Fits (pagesForSpan (slotSize cls))) cls below

theorem Allocator.poolAlloc_none {cls : Nat} (fits : Fits (pagesForSpan (slotSize cls)))
    (failed : a.poolAlloc mapped cls = some (a', none)) : a' = a := by
  simp only [poolAlloc] at failed
  split at failed
  next taken =>
    cases failed
    simp only [poolSpan] at taken
    split at taken
    · cases taken
    · cases taken
    · split at taken
      next refused =>
        cases taken
        obtain ⟨same, -⟩ | ⟨-, -, oversize⟩ := chunkAllocPages_none refused
        · exact same
        · exact absurd fits oversize
      · cases taken
  · simp at failed

theorem Allocator.slabObjAlloc_none (failed : a.slabObjAlloc mapped size = some (a', none)) :
    a' = a ∧ ¬a.Wasteful (mapped, size) ∨ a'.nrChunks = a.nrChunks + 1 ∧ a.Wasteful (mapped, size) := by
  simp only [slabObjAlloc] at failed
  split at failed
  next zero =>
    cases failed
    simp [Wasteful, zero]
  · split at failed
    next cls found =>
      have small : ¬a.Wasteful (mapped, size) := fun wasteful => by
        simp [slabClassGet_none.2 wasteful.1] at found
      exact .inl ⟨poolAlloc_none (pagesForSpan_fits found) failed, small⟩
    next none =>
      have large := slabClassGet_none.1 none
      split at failed
      next overflow =>
        cases failed
        refine .inl ⟨rfl, fun wasteful => ?_⟩
        have below : 16 + size < 2 ^ 64 := wasteful.2.1
        omega
      next whole =>
        split at failed
        next refused =>
          cases failed
          obtain ⟨same, full⟩ | ⟨more, room, oversize⟩ := chunkAllocPages_none refused
          · exact .inl ⟨same, fun wasteful => full wasteful.2.2.2⟩
          · exact .inr ⟨more, large, by simp only; omega, oversize, room⟩
        · cases failed

theorem Allocator.failing_run (requests : List (Bool × Nat)) (failed : requests.foldlM Allocator.failStep a = some a') :
    a' = a ∧ (∀ request ∈ requests, ¬a.Wasteful request) ∨
      a.nrChunks < a'.nrChunks ∧ ∃ request ∈ requests, a.Wasteful request := by
  induction requests generalizing a with
  | nil =>
    cases failed
    simp
  | cons request rest ih =>
    obtain ⟨next, first, later⟩ := Option.bind_eq_some_iff.1 failed
    simp only [failStep] at first
    split at first
    next refused =>
      cases first
      obtain ⟨rfl, modest⟩ | ⟨more, wasteful⟩ := slabObjAlloc_none refused
      · simpa [modest] using ih later
      · refine .inr ⟨?_, request, by simp, wasteful⟩
        obtain ⟨rfl, -⟩ | ⟨least, -⟩ := ih later <;> omega
    · cases first

theorem failed_requests_change_nothing (requests : List (Bool × Nat)) (a a' : Allocator)
    (failed : requests.foldlM Allocator.failStep a = some a') : a' = a ↔ ∀ request ∈ requests, ¬a.Wasteful request := by
  obtain ⟨same, modest⟩ | ⟨more, request, member, wasteful⟩ := Allocator.failing_run requests failed
  · exact iff_of_true same modest
  · refine iff_of_false ?_ fun modest => modest request member wasteful
    rintro rfl
    omega

theorem failed_requests_change_nothing_overflow :
    [(true, 2 ^ 64 - 1), (false, 100)].foldlM Allocator.failStep {} = some {} ∧
      ∀ request ∈ [(true, 2 ^ 64 - 1), (false, 100)], ¬({} : Allocator).Wasteful request :=
  ⟨rfl, (failed_requests_change_nothing _ _ _ rfl).1 rfl⟩

theorem oversize_request_takes_chunk :
    (({} : Allocator).slabObjAlloc true 268435456).map (fun (a, ptr) => (a.nrChunks, ptr)) = some (1, none) := by
  decide +kernel

end Failure

end FreakV.Slab
