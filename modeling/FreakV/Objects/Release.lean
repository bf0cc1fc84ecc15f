import FreakV.Keyspace
import FreakV.Mem.Arena

namespace FreakV.Objects

open Mem

inductive Page
  | free
  | pool
  | large (size : Nat)
deriving DecidableEq

inductive Block
  | slot (thread lpage ptr : Nat)
  | pages (thread first size : Nat)
deriving DecidableEq

def Block.page : Block → Nat × Nat
  | .slot thread lpage _ => (thread, lpage)
  | .pages thread first _ => (thread, first)

-- What is released for an address in a page.
def Page.block (thread lpage ptr : Nat) : Page → Option Block
  | .free => none
  | .pool => some (.slot thread lpage ptr)
  | .large size => if size = 0 then none else some (.pages thread lpage size)

/-- The slices of the threads, and what `page_info` says of each page. -/
structure Heaps where
  arena : Arena
  nrPagesCommitted : Nat → Nat
  pages : Nat → Nat → Page

namespace Heaps

def block (h : Heaps) (ptr : Nat) : Option Block :=
  if ptr = 0 then none
  else (h.arena.memFreePage h.nrPagesCommitted ptr).bind fun at_ => (h.pages at_.1 at_.2).block at_.1 at_.2 ptr

-- buddy_span_free forgets the pages; a slot goes to the free list of its span, whose pages stay as they are.
def release (h : Heaps) : Block → Heaps
  | .slot _ _ _ => h
  | .pages thread first size =>
    { h with pages := fun t l => if t = thread ∧ first ≤ l ∧ l < first + size then .free else h.pages t l }

def memFree (h : Heaps) (ptr : Nat) : Heaps × List Block :=
  match h.block ptr with
  | some b => (h.release b, [b])
  | none => (h, [])

/-- `own` is the block that `mem_malloc` has given out at the offset `off` in the slice of a thread. -/
structure Allocated (h : Heaps) (thread off : Nat) (own : Block) : Prop where
  known : thread < h.arena.nThreads
  inside : off < h.arena.perThreadDataSize
  committed : off / 4096 < h.nrPagesCommitted thread
  made : (h.pages thread (off / 4096)).block thread (off / 4096) (h.arena.threadDataBase thread + off) = some own

end Heaps

structure Obj where
  raw : RawObj
  refcount : Nat
  markedDeletion : Bool := false
deriving DecidableEq

def shardKeySetObj (snapshotActive : Bool) (slot : MemSlot) (key val : Bytes) : Obj :=
  { raw := .make slot key val, refcount := if snapshotActive then 2 else 1 }

def allocNewObj (snapshotActive : Bool) (slot : MemSlot) (key val : Bytes) : Obj :=
  { raw := .make slot key val, refcount := if snapshotActive then 2 else 1 }

inductive Builder
  | shardKeySet
  | allocNewObj
  | restore
deriving DecidableEq

def Builder.build (snapshotActive : Bool) (slot : MemSlot) (key val : Bytes) : Builder → Obj
  | .shardKeySet | .restore => shardKeySetObj snapshotActive slot key val
  | .allocNewObj => Objects.allocNewObj snapshotActive slot key val

def shardObjFree (h : Heaps) (o : RawObj) : Heaps × List Block :=
  let (h, inner) := if o.valLen = 0 then h.memFree o.objValPtrGet else (h, [])
  let (h, own) := h.memFree o.addr
  (h, inner ++ own)

def shardObjUnref (h : Heaps) (o : Obj) : Heaps × List Block :=
  if o.refcount = 1 then
    if o.markedDeletion then shardObjFree h o.raw else (h, [])
  else (h, [])

def shardObjDestroy (h : Heaps) (o : Obj) : Heaps × List Block := shardObjUnref h { o with markedDeletion := true }

inductive Route
  | free
  | unref
  | destroy
deriving DecidableEq

def Route.run (h : Heaps) (o : Obj) : Route → Heaps × List Block
  | .free => shardObjFree h o.raw
  | .unref => shardObjUnref h o
  | .destroy => shardObjDestroy h o

def Route.Frees (o : Obj) : Route → Prop
  | .free => True
  | .unref => o.refcount = 1 ∧ o.markedDeletion = true
  | .destroy => o.refcount = 1

theorem Route.run_eq {h : Heaps} {o : Obj} {route : Route} (frees : route.Frees o) :
    route.run h o = shardObjFree h o.raw := by
  cases route with
  | free => rfl
  | unref => simp only [Route.run, shardObjUnref, frees.1, frees.2, if_true]
  | destroy =>
    have last : o.refcount = 1 := frees
    simp [Route.run, shardObjDestroy, shardObjUnref, last]

theorem Page.page_of_block {thread lpage ptr : Nat} {page : Page} {b : Block}
    (found : page.block thread lpage ptr = some b) : b.page = (thread, lpage) := by
  cases page with
  | free => cases found
  | pool => cases found; rfl
  | large size =>
    rw [Page.block] at found
    split at found <;> cases found
    rfl

namespace Heaps

variable {h : Heaps} {ptr thread off : Nat} {b own : Block}

theorem memFree_of_none (ignored : h.block ptr = none) : h.memFree ptr = (h, []) := by simp [memFree, ignored]

theorem memFree_of_some (found : h.block ptr = some b) : h.memFree ptr = (h.release b, [b]) := by
  simp [memFree, found]

theorem block_eq_some (found : h.block ptr = some b) :
    h.arena.memFreePage h.nrPagesCommitted ptr = some b.page ∧ (h.pages b.page.1 b.page.2).block b.page.1 b.page.2 ptr = some b := by
  unfold block at found
  split at found
  · cases found
  · obtain ⟨at_, decoded, found⟩ := Option.bind_eq_some_iff.1 found
    rw [Page.page_of_block found]
    exact ⟨decoded, found⟩

theorem block_release_pages {first size : Nat} (found : h.block ptr = some (.pages thread first size)) :
    (h.release (.pages thread first size)).block ptr = none := by
  obtain ⟨decoded, page⟩ := block_eq_some found
  have filled : 0 < size := by
    simp only [Block.page] at page
    cases kind : h.pages thread first with
    | free => rw [kind] at page; cases page
    | pool => rw [kind] at page; cases page
    | large n =>
      rw [kind, Page.block] at page
      split at page <;> cases page
      omega
  have freed : (h.release (.pages thread first size)).pages thread first = .free :=
    if_pos ⟨rfl, Nat.le_refl _, Nat.lt_add_of_pos_right filled⟩
  unfold block
  split
  · rfl
  · have same : (h.release (.pages thread first size)).arena.memFreePage
        (h.release (.pages thread first size)).nrPagesCommitted ptr = some (thread, first) := decoded
    rw [same, Option.bind_some, freed]
    rfl

-- The pages that mem_free finds are among the first 2^20 of a slice.
theorem near_of_memFree (freed : b ∈ (h.memFree ptr).2) : b.page.2 < 2 ^ 20 := by
  cases found : h.block ptr with
  | none => simp [memFree_of_none found] at freed
  | some b' =>
    simp only [memFree_of_some found, List.mem_singleton] at freed
    subst freed
    exact Arena.memFreePage_lt (block_eq_some found).1

theorem Allocated.block_eq (allocated : h.Allocated thread off own) (laid : h.arena.Laid) (mapped : 0 < h.arena.dataBase)
    (near : off < 2 ^ 32) : h.block (h.arena.threadDataBase thread + off) = some own := by
  have start := laid.threadDataBase_eq allocated.known allocated.inside
  rw [block, if_neg (by omega), laid.memFreePage_eq allocated.known allocated.inside near allocated.committed]
  exact allocated.made

end Heaps

/-- Either the object has a value, or the address behind its key is one that `mem_free` ignores; pages of the object's
own are given back only once even so. -/
def Contained (h : Heaps) (o : RawObj) : Prop :=
  o.valLen ≠ 0 ∨ h.block o.objValPtrGet = none ∨
    ∃ thread first size, h.block o.objValPtrGet = some (.pages thread first size) ∧
      h.block o.addr = some (.pages thread first size)

theorem shardObjFree_eq_iff {h : Heaps} {o : RawObj} {own : Block} (owned : h.block o.addr = some own) :
    (shardObjFree h o).2 = [own] ↔ Contained h o := by
  have direct : (h.memFree o.addr).2 = [own] := by rw [Heaps.memFree_of_some owned]
  unfold shardObjFree Contained
  by_cases filled : o.valLen ≠ 0
  · simp [filled, direct]
  · have empty : o.valLen = 0 := not_not.1 filled
    simp only [empty, if_true, ne_eq, not_true_eq_false, false_or]
    cases found : h.block o.objValPtrGet with
    | none => simp [Heaps.memFree_of_none found, direct]
    | some b =>
      rw [Heaps.memFree_of_some found]
      cases b with
      | slot thread lpage ptr => simp [Heaps.release, direct]
      | pages thread first size =>
        constructor
        · intro alone
          have same : Block.pages thread first size = own := by
            simp only [List.singleton_append, List.cons.injEq] at alone
            exact alone.1
          exact .inr ⟨thread, first, size, rfl, same ▸ owned⟩
        · rintro (⟨⟨⟩⟩ | ⟨thread', first', size', same, own'⟩)
          simp only [Option.some.injEq, Block.pages.injEq] at same
          obtain ⟨rfl, rfl, rfl⟩ := same
          rw [owned, Option.some.injEq] at own'
          subst own'
          rw [Heaps.memFree_of_none (Heaps.block_release_pages owned)]
          rfl

theorem near_of_shardObjFree {h : Heaps} {o : RawObj} {b : Block} (freed : b ∈ (shardObjFree h o).2) :
    b.page.2 < 2 ^ 20 := by
  simp only [shardObjFree, List.mem_append] at freed
  rcases freed with inner | own
  · split at inner
    · exact Heaps.near_of_memFree inner
    · cases inner
  · exact Heaps.near_of_memFree own

theorem Builder.raw_build (builder : Builder) (snapshotActive : Bool) (slot : MemSlot) (key val : Bytes) :
    (builder.build snapshotActive slot key val).raw = .make slot key val := by
  cases builder <;> rfl

theorem frees_own_block_iff (builder : Builder) (snapshotActive : Bool) (slot : MemSlot) (key val : Bytes)
    {h : Heaps} {o : Obj} {route : Route} {thread off : Nat} {own : Block} (laid : h.arena.Laid)
    (mapped : 0 < h.arena.dataBase) (placed : slot.addr = h.arena.threadDataBase thread + off)
    (allocated : h.Allocated thread off own) (built : o.raw = (builder.build snapshotActive slot key val).raw)
    (frees : route.Frees o) :
    (route.run h o).2 = [own] ↔ off < 2 ^ 32 ∧ Contained h (.make slot key val) := by
  rw [Builder.raw_build] at built
  rw [Route.run_eq frees, built]
  by_cases near : off < 2 ^ 32
  · have owned : h.block slot.addr = some own := by
      rw [placed]
      exact allocated.block_eq laid mapped near
    rw [shardObjFree_eq_iff owned, and_iff_right near]
  · refine iff_of_false (fun alone => ?_) fun both => near both.1
    have first : own.page.2 < 2 ^ 20 := near_of_shardObjFree (by rw [alone]; exact List.mem_singleton_self own)
    rw [Page.page_of_block allocated.made] at first
    omega

def heaps : Heaps :=
  { arena := { dataBase := 0x7f0000000000, perThreadDataSize := 2 ^ 28, nThreads := 1, threadIdShift := 28 }
    nrPagesCommitted := fun _ => 512
    pages := fun _ lpage => if lpage = 0 then .pool else .free }

def staleSlot : MemSlot := ⟨0x7f00000000c0, [1, 0, 0, 0, 127, 0, 0]⟩

theorem laid_heaps : heaps.arena.Laid := ⟨rfl, by decide, by decide⟩

theorem allocated_stale : heaps.Allocated 0 192 (.slot 0 0 0x7f00000000c0) :=
  ⟨by decide, by decide, by decide, by decide +kernel⟩

theorem frees_own_block_set :
    (Route.destroy.run heaps (shardKeySetObj false staleSlot [107] [118])).2 = [.slot 0 0 0x7f00000000c0] := by
  have last : Route.destroy.Frees (shardKeySetObj false staleSlot [107] [118]) := rfl
  exact (frees_own_block_iff .shardKeySet false staleSlot [107] [118] laid_heaps (by decide) (by decide) allocated_stale rfl
    last).2 ⟨by decide, .inl (by decide)⟩

theorem empty_value_frees_other :
    (Route.destroy.run heaps (shardKeySetObj false staleSlot [107] [])).2 =
      [.slot 0 0 0x7f0000000100, .slot 0 0 0x7f00000000c0] := by
  decide +kernel

end FreakV.Objects
