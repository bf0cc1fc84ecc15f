import FreakV.Snapshot.Compact

namespace FreakV.Snapshot

structure Header where
  magic : Nat
  version : Nat
  shardId : Nat
  numPageRecords : Nat
  sessionId : Nat
  epoch : Nat
  timestampMs : Nat
deriving DecidableEq

structure PageHead where
  lpageIdx : Nat
  objSize : Nat
  offsetInSpan : Nat
  numObjects : Nat
deriving DecidableEq

structure EntryHead where
  slotIndex : Nat
  keyLen : Nat
  valLen : Nat
  expireMs : Nat
  deleted : Bool
deriving DecidableEq

inductive Cell
  | header (h : Header)
  | page (p : PageHead)
  | entry (e : EntryHead)
  | byte (b : UInt8)
  | footer (checksum : Nat)
deriving DecidableEq

def snapMagic : Nat := 0x56414C53
def snapVersion : Nat := 2

section Reading

def freadHeader : List Cell → Option (Header × List Cell)
  | .header h :: rest => some (h, rest)
  | _ => none

def freadPage : List Cell → Option (PageHead × List Cell)
  | .page p :: rest => some (p, rest)
  | _ => none

def freadEntry : List Cell → Option (EntryHead × List Cell)
  | .entry e :: rest => some (e, rest)
  | _ => none

def freadBytes : Nat → List Cell → Option (Bytes × List Cell)
  | 0, cells => some ([], cells)
  | n + 1, .byte b :: rest => (freadBytes n rest).map fun (bytes, rest) => (b :: bytes, rest)
  | _ + 1, _ => none

end Reading

section Compacting

structure Compacting where
  input : List Cell
  seen : List Nat
  out : List Cell
  outPages : Nat := 0

inductive Ending (A : Type)
  | done (a : A)
  | short (st : Compacting)
  | failed

variable (nrBits : Nat)

def entryLoop (lpage : Nat) : Nat → Nat → Compacting → Ending (Nat × Compacting)
  | 0, written, st => .done (written, st)
  | n + 1, written, st =>
    match freadEntry st.input with
    | none => .short st
    | some (ent, rest) =>
      let payload := ent.keyLen + ent.valLen
      let (seen, firstSeen) := compactDedupMark nrBits st.seen (lpage, ent.slotIndex)
      if ¬firstSeen ∨ ent.deleted then entryLoop lpage n written { st with input := rest.drop payload, seen := seen }
      else
        match freadBytes payload rest with
        | none => .failed
        | some (bytes, rest) =>
          entryLoop lpage n (written + 1)
            { st with input := rest, seen := seen, out := st.out ++ .entry ent :: bytes.map .byte }

/-- The loop over the page records. The record of a page is written without a count, which is filled in at its place, or the
record is cut off again. Where the delta cannot be read the compaction fails, the base is read as far as it goes. -/
def pageLoop (base : Bool) : Nat → Compacting → Ending Compacting
  | 0, st => .done st
  | n + 1, st =>
    match freadPage st.input with
    | none => if base then .done st else .failed
    | some (pr, rest) =>
      let prOff := st.out.length
      let start := { st with input := rest, out := st.out ++ [.page { pr with numObjects := 0 }] }
      match entryLoop nrBits pr.lpageIdx pr.numObjects 0 start with
      | .failed => .failed
      | .short st => if base then .short st else .failed
      | .done (written, st) =>
        if 0 < written then
          pageLoop base n
            { st with
              out := st.out.set prOff (.page { pr with numObjects := written % 2 ^ 16 })
              outPages := st.outPages + 1 }
        else pageLoop base n { st with out := st.out.take prOff }

def Header.valid (h : Header) (shardId : Nat) : Bool := h.magic = snapMagic && h.version = snapVersion && h.shardId = shardId

def closed (new : Header) (st : Compacting) : List Cell :=
  st.out.set 0 (.header { new with numPageRecords := st.outPages % 2 ^ 32 }) ++ [.footer 0]

def compactCells (shardId : Nat) (new : Header) (delta : List Cell) (base : Option (List Cell)) : Option (List Cell) :=
  match freadHeader delta with
  | none => none
  | some (h, rest) =>
    if ¬h.valid shardId then none
    else
      match pageLoop nrBits false h.numPageRecords
          { input := rest, seen := [], out := [.header { new with numPageRecords := 0 }] } with
      | .failed | .short _ => none
      | .done st =>
        match base.bind freadHeader with
        | none => some (closed new st)
        | some (old, rest) =>
          if ¬old.valid shardId then some (closed new st)
          else
            match pageLoop nrBits true old.numPageRecords { st with input := rest } with
            | .failed => none
            | .short st | .done st => some (closed new st)

end Compacting

section Writing

def Entry.cells (e : Entry) : List Cell :=
  .entry { slotIndex := e.slotIndex, keyLen := e.key.length, valLen := e.value.length, expireMs := e.expireMs, deleted := e.deleted } ::
    (e.key ++ e.value).map .byte

structure Page where
  lpageIdx : Nat
  objSize : Nat
  offsetInSpan : Nat
  entries : List Entry
deriving DecidableEq

def Page.record (p : Page) : PageRecord := { lpageIdx := p.lpageIdx, entries := p.entries }

def Page.head (p : Page) (numObjects : Nat) : PageHead :=
  { lpageIdx := p.lpageIdx, objSize := p.objSize, offsetInSpan := p.offsetInSpan, numObjects := numObjects }

def Page.cells (p : Page) : List Cell := .page (p.head p.entries.length) :: p.entries.flatMap Entry.cells

structure Image where
  header : Header
  pages : List Page

def Image.file (image : Image) : File :=
  { sessionId := image.header.sessionId, epoch := image.header.epoch, records := image.pages.map Page.record }

def Image.slots (image : Image) : List (Pos × Entry) := image.file.slots

def Image.cells (image : Image) : List Cell := .header image.header :: image.pages.flatMap Page.cells ++ [.footer 0]

structure Image.WellFormed (image : Image) (shardId : Nat) : Prop where
  valid : image.header.valid shardId = true
  count : image.header.numPageRecords = image.pages.length
  few : image.pages.length < 2 ^ 32
  objects : ∀ p ∈ image.pages, p.entries.length < 2 ^ 16
  lengths : ∀ slot ∈ image.slots, slot.2.key.length < 2 ^ 16 ∧ slot.2.value.length < 2 ^ 32
  recorded : Recorded image.slots

end Writing

section Alignment

variable (nrBits : Nat)

theorem freadBytes_append (bytes : Bytes) (rest : List Cell) :
    freadBytes bytes.length (bytes.map Cell.byte ++ rest) = some (bytes, rest) := by
  induction bytes with
  | nil => rfl
  | cons b bytes ih => simp [freadBytes, ih]

theorem entryLoop_cells (lpage : Nat) (entries : List Entry) (rest : List Cell) (written : Nat) (st : Compacting)
    (input : st.input = entries.flatMap Entry.cells ++ rest) :
    entryLoop nrBits lpage entries.length written st =
      .done (written + (compactEntries nrBits lpage st.seen entries).2.length,
        { st with
          input := rest
          seen := (compactEntries nrBits lpage st.seen entries).1
          out := st.out ++ (compactEntries nrBits lpage st.seen entries).2.flatMap Entry.cells }) := by
  induction entries generalizing written st with
  | nil =>
    rw [List.flatMap_nil, List.nil_append] at input
    simp [entryLoop, compactEntries, ← input]
  | cons e entries ih =>
    have payload : e.key.length + e.value.length = (e.key ++ e.value).length := List.length_append.symm
    rw [List.flatMap_cons, List.append_assoc, Entry.cells, List.cons_append] at input
    simp only [List.length_cons, entryLoop, input, freadEntry, compactEntries]
    split
    next skipped =>
      have passed : ((e.key ++ e.value).map Cell.byte ++ (entries.flatMap Entry.cells ++ rest)).drop
          (e.key.length + e.value.length) = entries.flatMap Entry.cells ++ rest := by
        rw [payload, ← List.length_map Cell.byte, List.drop_left]
      rw [ih _ _ passed]
    next copied =>
      rw [payload, freadBytes_append]
      simp only
      rw [ih _ _ rfl]
      simp only [List.length_cons, List.flatMap_cons, Entry.cells, List.append_assoc, List.cons_append]
      rw [Nat.add_right_comm, Nat.add_assoc]

def compactPages : List Nat → List Page → List Nat × List Page
  | seen, [] => (seen, [])
  | seen, p :: rest =>
    let (seen, kept) := compactEntries nrBits p.lpageIdx seen p.entries
    let (seen, pages) := compactPages seen rest
    (seen, if kept = [] then pages else { p with entries := kept } :: pages)

theorem compactPages_record (seen : List Nat) (pages : List Page) :
    (compactPages nrBits seen pages).1 = (compactRecords nrBits seen (pages.map Page.record)).1 ∧
    (compactPages nrBits seen pages).2.map Page.record = (compactRecords nrBits seen (pages.map Page.record)).2 := by
  induction pages generalizing seen with
  | nil => exact ⟨rfl, rfl⟩
  | cons p rest ih =>
    obtain ⟨bits, kept⟩ := ih (compactEntries nrBits p.lpageIdx seen p.entries).1
    simp only [List.map_cons, compactPages, compactRecords, Page.record] at bits kept ⊢
    refine ⟨bits, ?_⟩
    split
    · exact kept
    · rw [List.map_cons, kept]
      rfl

theorem compactEntries_sublist (lpage : Nat) (seen : List Nat) (entries : List Entry) :
    ((compactEntries nrBits lpage seen entries).2).Sublist entries := by
  induction entries generalizing seen with
  | nil => exact .slnil
  | cons e rest ih =>
    simp only [compactEntries]
    split
    · exact (ih _).cons e
    · exact (ih _).cons_cons e

theorem compactPages_objects (seen : List Nat) (pages : List Page) (objects : ∀ p ∈ pages, p.entries.length < 2 ^ 16) :
    ∀ p ∈ (compactPages nrBits seen pages).2, p.entries.length < 2 ^ 16 := by
  induction pages generalizing seen with
  | nil => simp [compactPages]
  | cons p rest ih =>
    have small := ih (compactEntries nrBits p.lpageIdx seen p.entries).1 fun q there =>
      objects q (List.mem_cons_of_mem p there)
    simp only [compactPages]
    split
    · exact small
    · refine List.forall_mem_cons.2 ⟨?_, small⟩
      exact Nat.lt_of_le_of_lt (compactEntries_sublist nrBits _ _ _).length_le (objects p List.mem_cons_self)

theorem pageLoop_cells (base : Bool) (pages : List Page) (rest : List Cell) (st : Compacting)
    (objects : ∀ p ∈ pages, p.entries.length < 2 ^ 16) (input : st.input = pages.flatMap Page.cells ++ rest) :
    pageLoop nrBits base pages.length st =
      .done
        { input := rest
          seen := (compactPages nrBits st.seen pages).1
          out := st.out ++ (compactPages nrBits st.seen pages).2.flatMap Page.cells
          outPages := st.outPages + (compactPages nrBits st.seen pages).2.length } := by
  induction pages generalizing st with
  | nil =>
    rw [List.flatMap_nil, List.nil_append] at input
    simp [pageLoop, compactPages, ← input]
  | cons p pages ih =>
    have later : ∀ q ∈ pages, q.entries.length < 2 ^ 16 := fun q there => objects q (List.mem_cons_of_mem p there)
    have small : (compactEntries nrBits p.lpageIdx st.seen p.entries).2.length % 2 ^ 16 =
        (compactEntries nrBits p.lpageIdx st.seen p.entries).2.length :=
      Nat.mod_eq_of_lt (Nat.lt_of_le_of_lt (compactEntries_sublist nrBits _ _ _).length_le (objects p List.mem_cons_self))
    rw [List.flatMap_cons, List.append_assoc, Page.cells, List.cons_append] at input
    simp only [List.length_cons, pageLoop, input, freadPage, Page.head, compactPages]
    rw [entryLoop_cells nrBits p.lpageIdx p.entries (pages.flatMap Page.cells ++ rest) 0 _ rfl]
    simp only [Nat.zero_add]
    generalize compactEntries nrBits p.lpageIdx st.seen p.entries = entries at small ⊢
    obtain ⟨seen, kept⟩ := entries
    by_cases none : kept = []
    · simp only [none, List.length_nil, Nat.lt_irrefl, if_false, if_true, List.flatMap_nil, List.append_nil, List.take_left]
      rw [ih _ later rfl]
    · have some_kept : 0 < kept.length := List.length_pos_iff.2 none
      simp only [none, some_kept, if_false, if_true]
      rw [ih _ later rfl, small]
      simp only [List.append_assoc, List.set_append_right _ _ (Nat.le_refl _), Nat.sub_self, List.nil_append,
        List.set_cons_zero, List.flatMap_cons, Page.cells, Page.head, List.cons_append, List.length_cons]
      rw [Nat.add_right_comm, Nat.add_assoc]

end Alignment

section Merge

variable {nrBits shardId : Nat} (new : Header) {delta : Image} {base : Option Image}

def basePages (base : Option Image) : List Page := (base.map Image.pages).getD []

def baseImageSlots (base : Option Image) : List (Pos × Entry) := (base.map Image.slots).getD []

def compacted (nrBits : Nat) (new : Header) (delta : Image) (base : Option Image) : Image :=
  let (seen, fresh) := compactPages nrBits [] delta.pages
  let pages := fresh ++ (compactPages nrBits seen (basePages base)).2
  { header := { new with numPageRecords := pages.length % 2 ^ 32 }, pages := pages }

theorem compactCells_eq (wf : delta.WellFormed shardId) (old : ∀ b ∈ base, b.WellFormed shardId) :
    compactCells nrBits shardId new delta.cells (base.map Image.cells) = some (compacted nrBits new delta base).cells := by
  simp only [compactCells, Image.cells, List.cons_append, freadHeader, wf.valid, not_true_eq_false, if_false, wf.count]
  rw [pageLoop_cells nrBits false delta.pages [.footer 0] _ wf.objects rfl]
  cases base with
  | none => simp [closed, compacted, basePages, compactPages]
  | some b =>
    have wf' := old b rfl
    simp only [Option.map_some, Option.bind_some, Image.cells, List.cons_append, freadHeader, wf'.valid, not_true_eq_false,
      if_false, wf'.count]
    rw [pageLoop_cells nrBits true b.pages [.footer 0] _ wf'.objects rfl]
    simp [closed, compacted, basePages]

theorem compacted_slots (wf : delta.WellFormed shardId) (old : ∀ b ∈ base, b.WellFormed shardId)
    (inside : ∀ slot ∈ delta.slots, bitOf slot.1 < nrBits) :
    (compacted nrBits new delta base).slots = delta.slots.filter (!·.2.deleted) ++
      (baseImageSlots base).filter fun slot => slot.1 ∉ delta.slots.map Prod.fst && !slot.2.deleted := by
  obtain ⟨first, second⟩ := compactRecords_merge wf.recorded inside
  obtain ⟨bits, fresh⟩ := compactPages_record nrBits [] delta.pages
  obtain ⟨-, kept⟩ := compactPages_record nrBits (compactPages nrBits [] delta.pages).1 (basePages base)
  rw [bits] at kept
  simp only [Image.slots, Image.file, File.slots, compacted, List.map_append, List.flatMap_append, fresh, bits, kept] at first ⊢
  rw [first]
  congr 1
  cases base with
  | none => rfl
  | some b => exact second b.file (old b rfl).recorded

theorem compacted_wellFormed (wf : delta.WellFormed shardId) (old : ∀ b ∈ base, b.WellFormed shardId)
    (inside : ∀ slot ∈ delta.slots, bitOf slot.1 < nrBits) (header : new.valid shardId = true)
    (few : (compacted nrBits new delta base).pages.length < 2 ^ 32) :
    (compacted nrBits new delta base).WellFormed shardId := by
  have slots := compacted_slots new wf old inside
  have oldSlots : Recorded (baseImageSlots base) ∧
      ∀ slot ∈ baseImageSlots base, slot.2.key.length < 2 ^ 16 ∧ slot.2.value.length < 2 ^ 32 := by
    cases base with
    | none => exact ⟨⟨.nil, by simp [baseImageSlots]⟩, by simp [baseImageSlots]⟩
    | some b => exact ⟨(old b rfl).recorded, (old b rfl).lengths⟩
  have oldObjects : ∀ p ∈ basePages base, p.entries.length < 2 ^ 16 := by
    cases base with
    | none => simp [basePages]
    | some b => exact (old b rfl).objects
  refine ⟨header, Nat.mod_eq_of_lt few, few, ?_, ?_, ?_⟩
  · intro p there
    obtain there | there := List.mem_append.1 there
    · exact compactPages_objects nrBits _ _ wf.objects p there
    · exact compactPages_objects nrBits _ _ oldObjects p there
  · rw [slots]
    intro slot there
    obtain there | there := List.mem_append.1 there
    · exact wf.lengths slot (List.mem_filter.1 there).1
    · exact oldSlots.2 slot (List.mem_filter.1 there).1
  · rw [slots]
    exact recorded_merge wf.recorded oldSlots.1

end Merge

section Session

variable (nrPages shardId sessionId epoch timestampMs : Nat)

def hdrBaseNew : Header :=
  { magic := snapMagic
    version := snapVersion
    shardId := shardId
    numPageRecords := 0
    sessionId := sessionId
    epoch := epoch
    timestampMs := timestampMs }

theorem compaction_merges (delta : Image) (base : Option Image) (wf : delta.WellFormed shardId)
    (old : ∀ b ∈ base, b.WellFormed shardId) (range : ∀ slot ∈ delta.slots, slot.1.1 < dedupPages nrPages) :
    ∃ image : Image,
      compactCells (compactDedupInit (dedupPages nrPages)) shardId (hdrBaseNew shardId sessionId epoch timestampMs)
        delta.cells (base.map Image.cells) = some image.cells ∧
      (image.pages.length < 2 ^ 32 → image.WellFormed shardId) ∧ (∀ slot ∈ image.slots, slot.2.deleted = false) ∧
      image.slots = delta.slots.filter (!·.2.deleted) ++
        (baseImageSlots base).filter fun slot => slot.1 ∉ delta.slots.map Prod.fst && !slot.2.deleted := by
  have inside : ∀ slot ∈ delta.slots, bitOf slot.1 < compactDedupInit (dedupPages nrPages) :=
    fun slot there => bitOf_lt (wf.recorded.small slot there) (range slot there)
  have header : (hdrBaseNew shardId sessionId epoch timestampMs).valid shardId = true := by
    simp [hdrBaseNew, Header.valid]
  have slots := compacted_slots (hdrBaseNew shardId sessionId epoch timestampMs) wf old inside
  refine ⟨_, compactCells_eq _ wf old, compacted_wellFormed _ wf old inside header, ?_, slots⟩
  rw [slots]
  intro slot there
  simp only [List.mem_append, List.mem_filter, Bool.and_eq_true, Bool.not_eq_true'] at there
  obtain there | there := there
  · exact there.2
  · exact there.2.2

end Session

section Example

def liveEntry (slotIndex : Nat) (key value : Bytes) : Entry :=
  { slotIndex := slotIndex, key := key, value := value, expireMs := 0, deleted := false }

def deadEntry (slotIndex : Nat) : Entry := { slotIndex := slotIndex, key := [], value := [], expireMs := 0, deleted := true }

def smallDelta : Image :=
  { header := { hdrBaseNew 0 7 2 20 with numPageRecords := 1 }
    pages := [{ lpageIdx := 3, objSize := 64, offsetInSpan := 0, entries := [deadEntry 0, liveEntry 1 [98] [50]] }] }

def smallBase : Image :=
  { header := { hdrBaseNew 0 7 1 10 with numPageRecords := 2 }
    pages :=
      [{ lpageIdx := 3, objSize := 64, offsetInSpan := 0, entries := [liveEntry 0 [97] [49], liveEntry 1 [98] [49]] },
       { lpageIdx := 4, objSize := 64, offsetInSpan := 0, entries := [liveEntry 0 [99] [49, 50]] }] }

theorem smallDelta_wellFormed : smallDelta.WellFormed 0 :=
  ⟨by decide, by decide, by decide, by decide, by decide, by decide, by decide⟩

theorem smallBase_wellFormed : smallBase.WellFormed 0 :=
  ⟨by decide, by decide, by decide, by decide, by decide, by decide, by decide⟩

theorem compaction_merges_small :
    ∃ image : Image,
      compactCells (compactDedupInit (dedupPages 64)) 0 (hdrBaseNew 0 7 2 30) smallDelta.cells (some smallBase.cells) =
        some image.cells ∧
      image.slots = [((3, 1), liveEntry 1 [98] [50]), ((4, 0), liveEntry 0 [99] [49, 50])] := by
  obtain ⟨image, written, -, -, slots⟩ := compaction_merges 64 0 7 2 30 smallDelta (some smallBase) smallDelta_wellFormed
    (by simpa using smallBase_wellFormed) (by decide)
  exact ⟨image, written, slots.trans (by decide)⟩

end Example

end FreakV.Snapshot
