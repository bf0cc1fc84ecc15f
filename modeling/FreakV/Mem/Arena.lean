import Mathlib.Data.Nat.Bitwise
import Mathlib.Tactic.NormNum

namespace FreakV.Mem

structure Arena where
  dataBase : Nat
  perThreadDataSize : Nat
  nThreads : Nat
  threadIdShift : Nat

def prevPowerOf2 (n : Nat) : Nat :=
  if n = 0 then 0
  else
    let n := n ||| (n >>> 1)
    let n := n ||| (n >>> 2)
    let n := n ||| (n >>> 4)
    let n := n ||| (n >>> 8)
    let n := n ||| (n >>> 16)
    let n := n ||| (n >>> 32)
    n - (n >>> 1)

def log2Loop : Nat → Nat → Nat → Nat
  | 0, _, log => log
  | fuel + 1, n, log => if 1 < n then log2Loop fuel (n >>> 1) (log + 1) else log

def log2U64 (n : Nat) : Nat := log2Loop 64 n 0

/-- `share` is a thread's part of four fifths of the available memory. -/
def dataSize (share hint : Nat) : Nat :=
  let maxPerThread := prevPowerOf2 share
  let size :=
    if 0 < hint then if maxPerThread < prevPowerOf2 hint then maxPerThread else prevPowerOf2 hint else maxPerThread
  if size < 256 * 1024 * 1024 then 256 * 1024 * 1024 else size

-- The numbers of threads that mem_lib_init accepts.
def memLibAccepts (nThreads : Nat) : Bool := !(nThreads = 0 || 256 < nThreads)

theorem memLibAccepts_iff {nThreads : Nat} : memLibAccepts nThreads = true ↔ nThreads ≠ 0 ∧ nThreads ≤ 256 := by
  simp [memLibAccepts]

/-- `base` is the address of the reserved region. -/
def memLibInit (nThreads share hint base : Nat) : Option Arena :=
  if memLibAccepts nThreads then
    some
      { dataBase := base
        perThreadDataSize := dataSize share hint
        nThreads := nThreads
        threadIdShift := log2U64 (dataSize share hint) }
  else none

-- The end of ptr_lpage_idx: the offset in the slice is cast to uint32_t before it is shifted.
def sliceLpageIdx (off : Nat) : Nat := (off % 2 ^ 32) >>> 12

theorem sliceLpageIdx_eq (off : Nat) : sliceLpageIdx off = off % 2 ^ 32 / 4096 := Nat.shiftRight_eq_div_pow ..

namespace Arena

variable (a : Arena)

def ptrThreadId (ptr : Nat) : Nat := (((ptr + 2 ^ 64 - a.dataBase) % 2 ^ 64) >>> a.threadIdShift) % 2 ^ 32

def threadDataBase (thread : Nat) : Nat := (a.dataBase + thread <<< a.threadIdShift) % 2 ^ 64

def ptrLpageIdx (ptr : Nat) : Nat := sliceLpageIdx ((ptr + 2 ^ 64 - a.threadDataBase (a.ptrThreadId ptr)) % 2 ^ 64)

/-- The thread and the page that `mem_free` acts on. -/
def memFreePage (committed : Nat → Nat) (ptr : Nat) : Option (Nat × Nat) :=
  if a.nThreads ≤ a.ptrThreadId ptr then none
  else if committed (a.ptrThreadId ptr) ≤ a.ptrLpageIdx ptr then none
  else some (a.ptrThreadId ptr, a.ptrLpageIdx ptr)

/-- The page that `snap_obj_mark` acts on, in the heap of `thread`. -/
def snapObjMarkPage (committed : Nat → Nat) (thread ptr : Nat) : Option Nat :=
  let lpage := (((ptr + 2 ^ 64 - a.threadDataBase thread) % 2 ^ 64) >>> 12) % 2 ^ 32
  if committed thread ≤ lpage then none else some lpage

structure Decodes (committed : Nat → Nat) (thread off : Nat) : Prop where
  owner : a.ptrThreadId (a.threadDataBase thread + off) = thread
  page : a.ptrLpageIdx (a.threadDataBase thread + off) = off / 4096
  free : off / 4096 < committed thread →
    a.memFreePage committed (a.threadDataBase thread + off) = some (thread, off / 4096)
  mark : off / 4096 < committed thread →
    a.snapObjMarkPage committed thread (a.threadDataBase thread + off) = some (off / 4096)

end Arena

section PowersOfTwo

def Smeared (k w n : Nat) : Prop := ∀ i, (k < i → n.testBit i = false) ∧ (i ≤ k → k < i + w → n.testBit i = true)

theorem Smeared.step {k w n : Nat} (smeared : Smeared k w n) : Smeared k (2 * w) (n ||| (n >>> w)) := by
  intro i
  simp only [Nat.testBit_or, Nat.testBit_shiftRight]
  constructor
  · intro above
    rw [(smeared i).1 above, (smeared (w + i)).1 (by omega), Bool.or_false]
  · intro below near
    by_cases close : k < i + w
    · rw [(smeared i).2 below close, Bool.true_or]
    · rw [(smeared (w + i)).2 (by omega) (by omega), Bool.or_true]

theorem Smeared.eq {k w n : Nat} (smeared : Smeared k w n) (wide : k < w) : n = 2 ^ (k + 1) - 1 := by
  apply Nat.eq_of_testBit_eq
  intro i
  rw [Nat.testBit_two_pow_sub_one]
  by_cases below : i ≤ k
  · rw [(smeared i).2 below (by omega), eq_comm, decide_eq_true_eq]
    omega
  · rw [(smeared i).1 (by omega), eq_comm, decide_eq_false_iff_not]
    omega

theorem prevPowerOf2_eq {n : Nat} (pos : n ≠ 0) (word : n < 2 ^ 64) : prevPowerOf2 n = 2 ^ n.log2 := by
  have short : n.log2 < 64 := (Nat.log2_lt pos).2 word
  have first : Smeared n.log2 1 n := by
    intro i
    refine ⟨fun above => Nat.testBit_lt_two_pow ((Nat.log2_lt pos).1 above), fun below near => ?_⟩
    obtain rfl : i = n.log2 := by omega
    exact Nat.testBit_log2 pos
  have all := first.step.step.step.step.step.step.eq short
  simp only [Nat.reduceMul] at all
  simp only [prevPowerOf2, if_neg pos, all]
  rw [Nat.shiftRight_one, pow_succ]
  have := Nat.two_pow_pos n.log2
  omega

theorem log2Loop_two_pow {k fuel : Nat} (enough : k ≤ fuel) (log : Nat) : log2Loop fuel (2 ^ k) log = log + k := by
  induction fuel generalizing k log with
  | zero => simp [log2Loop, Nat.le_zero.1 enough]
  | succ fuel ih =>
    cases k with
    | zero => simp [log2Loop]
    | succ k =>
      have half : 2 ^ (k + 1) >>> 1 = 2 ^ k := by rw [Nat.shiftRight_one, pow_succ, Nat.mul_div_cancel _ (by decide)]
      rw [log2Loop, if_pos (Nat.one_lt_two_pow (by omega)), half, ih (by omega)]
      omega

theorem prevPowerOf2_cases {n : Nat} (word : n < 2 ^ 64) : prevPowerOf2 n = 0 ∨ ∃ k < 64, prevPowerOf2 n = 2 ^ k := by
  by_cases pos : n = 0
  · exact .inl (by simp [prevPowerOf2, pos])
  · exact .inr ⟨_, (Nat.log2_lt pos).2 word, prevPowerOf2_eq pos word⟩

theorem dataSize_eq_two_pow {share hint : Nat} (word : share < 2 ^ 64) (word' : hint < 2 ^ 64) :
    ∃ k < 64, dataSize share hint = 2 ^ k := by
  have least {size : Nat} (power : size = 0 ∨ ∃ k < 64, size = 2 ^ k) :
      ∃ k < 64, (if size < 256 * 1024 * 1024 then 256 * 1024 * 1024 else size) = 2 ^ k := by
    split
    · exact ⟨28, by decide, by norm_num⟩
    next large => exact power.resolve_left (by omega)
  apply least
  split
  · split
    · exact prevPowerOf2_cases word
    · exact prevPowerOf2_cases word'
  · exact prevPowerOf2_cases word

end PowersOfTwo

namespace Arena

variable {a : Arena} {thread off : Nat} {committed : Nat → Nat}

structure Laid (a : Arena) : Prop where
  power : a.perThreadDataSize = 2 ^ a.threadIdShift
  few : a.nThreads ≤ 256
  reserved : a.dataBase + a.nThreads * a.perThreadDataSize ≤ 2 ^ 64

theorem Laid.memLibInit {nThreads share hint base : Nat} (init : memLibInit nThreads share hint base = some a)
    (word : share < 2 ^ 64) (word' : hint < 2 ^ 64) (reserved : base + nThreads * a.perThreadDataSize ≤ 2 ^ 64) :
    a.Laid ∧ a.nThreads = nThreads := by
  obtain ⟨k, short, size⟩ := dataSize_eq_two_pow word word'
  rw [Mem.memLibInit] at init
  split at init <;> cases init
  next accepted =>
    refine ⟨⟨?_, ?_, reserved⟩, rfl⟩
    · rw [size, log2U64, log2Loop_two_pow (by omega), Nat.zero_add]
    · exact (memLibAccepts_iff.1 accepted).2

section Slice

variable (laid : a.Laid) (known : thread < a.nThreads) (inside : off < a.perThreadDataSize)

include laid known

theorem Laid.below : a.dataBase + thread * a.perThreadDataSize + a.perThreadDataSize ≤ 2 ^ 64 := by
  have slice := Nat.mul_le_mul_right a.perThreadDataSize known
  have reserved := laid.reserved
  rw [Nat.succ_mul] at slice
  omega

include inside

theorem Laid.threadDataBase_eq : a.threadDataBase thread = a.dataBase + thread * a.perThreadDataSize := by
  have below := laid.below known
  rw [threadDataBase, Nat.shiftLeft_eq, ← laid.power, Nat.mod_eq_of_lt (by omega)]

theorem Laid.ptrThreadId_eq : a.ptrThreadId (a.threadDataBase thread + off) = thread := by
  have below := laid.below known
  have few := laid.few
  have offset : (a.threadDataBase thread + off + 2 ^ 64 - a.dataBase) % 2 ^ 64 = off + a.perThreadDataSize * thread := by
    rw [laid.threadDataBase_eq known inside, Nat.mul_comm a.perThreadDataSize]
    omega
  rw [ptrThreadId, offset, Nat.shiftRight_eq_div_pow, ← laid.power, Nat.add_mul_div_left _ _ (by omega),
    Nat.div_eq_of_lt inside]
  omega

theorem Laid.offset_eq : (a.threadDataBase thread + off + 2 ^ 64 - a.threadDataBase thread) % 2 ^ 64 = off := by
  have below := laid.below known
  omega

theorem Laid.ptrLpageIdx_eq : a.ptrLpageIdx (a.threadDataBase thread + off) = sliceLpageIdx off := by
  rw [ptrLpageIdx, laid.ptrThreadId_eq known inside, laid.offset_eq known inside]

theorem Laid.memFreePage_eq (small : off < 2 ^ 32) (there : off / 4096 < committed thread) :
    a.memFreePage committed (a.threadDataBase thread + off) = some (thread, off / 4096) := by
  have page : a.ptrLpageIdx (a.threadDataBase thread + off) = off / 4096 := by
    rw [laid.ptrLpageIdx_eq known inside, sliceLpageIdx_eq, Nat.mod_eq_of_lt small]
  rw [memFreePage, laid.ptrThreadId_eq known inside, page, if_neg (by omega), if_neg (by omega)]

end Slice

theorem memFreePage_lt {ptr : Nat} {page : Nat × Nat} (found : a.memFreePage committed ptr = some page) :
    page.2 < 2 ^ 20 := by
  unfold memFreePage at found
  split at found
  · cases found
  · split at found
    · cases found
    · cases found
      rw [ptrLpageIdx, sliceLpageIdx_eq]
      omega

end Arena

section Decoding

open Arena

theorem decodes_iff {nThreads share hint base thread off : Nat} {a : Arena} (committed : Nat → Nat)
    (init : memLibInit nThreads share hint base = some a) (word : share < 2 ^ 64) (word' : hint < 2 ^ 64)
    (reserved : base + nThreads * a.perThreadDataSize ≤ 2 ^ 64) (known : thread < nThreads)
    (inside : off < a.perThreadDataSize) : a.Decodes committed thread off ↔ off < 2 ^ 32 := by
  obtain ⟨laid, rfl⟩ := Laid.memLibInit init word word' reserved
  have page := laid.ptrLpageIdx_eq known inside
  rw [sliceLpageIdx_eq] at page
  constructor
  · intro decodes
    have same := decodes.page
    rw [page] at same
    omega
  · intro small
    rw [Nat.mod_eq_of_lt small] at page
    refine ⟨laid.ptrThreadId_eq known inside, page, laid.memFreePage_eq known inside small, fun there => ?_⟩
    have below := laid.below known
    have shifted : off >>> 12 % 2 ^ 32 = off / 4096 := by
      rw [Nat.shiftRight_eq_div_pow]
      omega
    simp only [snapObjMarkPage, laid.offset_eq known inside, shifted]
    rw [if_neg (by omega)]

theorem decodes_first_pages : ∃ a, memLibInit 1 (2 ^ 34) 0 (2 ^ 40) = some a ∧
    a.Decodes (fun _ => 4) 0 5000 := by
  refine ⟨_, rfl, (decodes_iff (fun _ => 4) rfl (by norm_num) (by norm_num) ?_ Nat.one_pos ?_).2 (by norm_num)⟩ <;> decide +kernel

theorem far_page_misread : ∃ a, memLibInit 1 (2 ^ 34) 0 (2 ^ 40) = some a ∧ 2 ^ 32 < a.perThreadDataSize ∧
    a.memFreePage (fun _ => 2 ^ 22) (a.threadDataBase 0 + 2 ^ 32) = some (0, 0) ∧
    ¬a.Decodes (fun _ => 2 ^ 22) 0 (2 ^ 32) := by
  refine ⟨_, rfl, by decide +kernel, by decide +kernel, fun decodes => ?_⟩
  exact absurd decodes.page (by decide +kernel)

end Decoding

end FreakV.Mem
