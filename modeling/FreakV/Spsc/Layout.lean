import FreakV.Lib.Ring
import FreakV.Spsc.Model
import Mathlib.Data.List.Nodup

/-!
# Where the unread messages lie

The segments from the one the consumer has last announced to the one the producer writes are `busy`, the others are
`free`. Laid end to end the busy ones hold `co` slots that have been read, the unread messages, and `gap` slots that the
producer has yet to fill.
-/

namespace FreakV.Spsc

open Linked

variable {α : Type} {q : Queue α} {busy free : List Nat} {co gap : Nat} {unread : List α}

theorem and_spscSegMask (n : Nat) : n &&& spscSegMask = n % 4096 := Nat.and_two_pow_sub_one_eq_mod n 12

theorem crosses_iff (n : Nat) : crosses n = true ↔ 0 < n ∧ n % 4096 = 0 := by
  simp [crosses, and_spscSegMask]

theorem crosses_eq_false (n : Nat) : crosses n = false ↔ n = 0 ∨ n % 4096 ≠ 0 := by
  simp only [← Bool.not_eq_true, crosses_iff]
  omega

namespace Queue

@[simp]
theorem slots_setNext (q : Queue α) (seg next s : Nat) : ((q.setNext seg next).segs s).slots = (q.segs s).slots := by
  by_cases same : s = seg
  · simp [setNext, same]
  · simp [setNext, same]

theorem next_setNext_self (q : Queue α) (seg next : Nat) : ((q.setNext seg next).segs seg).next = next := by
  simp [setNext]

theorem next_setNext_of_ne (q : Queue α) {seg s : Nat} (next : Nat) (other : s ≠ seg) :
    ((q.setNext seg next).segs s).next = (q.segs s).next := by
  simp [setNext, other]

@[simp]
theorem next_setSlot (q : Queue α) (seg i s : Nat) (msg : α) :
    ((q.setSlot seg i msg).segs s).next = (q.segs s).next := by
  by_cases same : s = seg
  · simp [setSlot, same]
  · simp [setSlot, same]

theorem slots_setSlot_self (q : Queue α) (seg i : Nat) (msg : α) : ((q.setSlot seg i msg).segs seg).slots i = msg := by
  simp [setSlot]

theorem slots_setSlot_of_ne (q : Queue α) {seg i s j : Nat} (msg : α) (other : s ≠ seg ∨ j ≠ i) :
    ((q.setSlot seg i msg).segs s).slots j = (q.segs s).slots j := by
  by_cases same : s = seg
  · have apart : j ≠ i := other.resolve_left fun no => no same
    simp [setSlot, same, apart]
  · simp [setSlot, same]

end Queue

section Shape

structure Shape (q : Queue α) (busy free : List Nat) : Prop where
  ring : Cyclic (fun seg => (q.segs seg).next) (busy ++ free)
  nodup : (busy ++ free).Nodup
  known : ∀ seg ∈ busy ++ free, seg < q.nrSegs
  last : busy.getLast? = some q.pSeg
  first : busy.head? = some q.cSegShared

theorem Shape.next_pSeg (shape : Shape q busy free) : (q.segs q.pSeg).next = free.headD q.cSegShared := by
  obtain ⟨upto, rfl⟩ := List.getLast?_eq_some_iff.1 shape.last
  exact shape.ring.next_eq shape.first

theorem Shape.next_shared {b : Nat} (shape : Shape q busy free) (second : busy[1]? = some b) :
    (q.segs q.cSegShared).next = b := by
  obtain ⟨rest, rfl⟩ := List.head?_eq_some_iff.1 shape.first
  obtain ⟨rest, rfl⟩ : ∃ rest', rest = b :: rest' := by
    cases rest with
    | nil => simp at second
    | cons c rest => exact ⟨rest, by simpa using second⟩
  have ring : Cyclic (fun seg => (q.segs seg).next) ([] ++ [q.cSegShared] ++ (b :: (rest ++ free))) := shape.ring
  exact ring.next_eq rfl

theorem Shape.enter {seg : Nat} (shape : Shape q busy (seg :: free)) :
    Shape { q with pSeg := seg } (busy ++ [seg]) free := by
  refine ⟨by simpa using shape.ring, by simpa using shape.nodup, by simpa using shape.known, by simp, ?_⟩
  rw [List.head?_append, shape.first, Option.some_or]

theorem Shape.link {seg : Nat} (shape : Shape q busy free) (leads : (q.segs seg).next = (q.segs q.pSeg).next)
    (known : seg < q.nrSegs) (fresh : seg ∉ busy ++ free) :
    Shape { q.setNext q.pSeg seg with pSeg := seg } (busy ++ [seg]) free := by
  obtain ⟨upto, split⟩ := List.getLast?_eq_some_iff.1 shape.last
  have here : q.pSeg ∈ busy := List.mem_of_getLast? shape.last
  have other : seg ≠ q.pSeg := fun eq => fresh (by simp [eq, here])
  refine ⟨?_, ?_, ?_, by simp, ?_⟩
  · have ring := shape.ring
    have nodup := shape.nodup
    rw [split] at ring nodup fresh
    rw [split, List.append_assoc, List.singleton_append]
    exact ring.insert nodup fresh (q.next_setNext_self _ _) ((q.next_setNext_of_ne _ other).trans leads)
      fun a notLast _ => q.next_setNext_of_ne _ notLast
  · rw [List.append_assoc, List.singleton_append, List.nodup_middle]
    exact List.nodup_cons.2 ⟨fresh, shape.nodup⟩
  · intro s there
    by_cases same : s = seg
    · exact same ▸ known
    · exact shape.known s (by simpa [same] using there)
  · rw [List.head?_append, shape.first, Option.some_or]; rfl

theorem Shape.leave {a b : Nat} {rest : List Nat} (shape : Shape q (a :: b :: rest) free) :
    Shape { q with cSegShared := b } (b :: rest) (free ++ [a]) := by
  have members (s : Nat) : s ∈ b :: rest ++ (free ++ [a]) ↔ s ∈ a :: b :: rest ++ free := by
    simp only [List.mem_append, List.mem_cons, List.not_mem_nil]
    tauto
  refine ⟨?_, ?_, fun s there => shape.known s ((members s).1 there), by simpa using shape.last, rfl⟩
  · have turned : Cyclic (fun seg => (q.segs seg).next) (b :: (rest ++ free ++ [a])) := Cyclic.rotate shape.ring
    simpa using turned
  · have apart : a ∉ b :: rest ++ free := (List.nodup_cons.1 shape.nodup).1
    have distinct := (List.nodup_cons.1 shape.nodup).2
    rw [← List.append_assoc, List.nodup_append]
    refine ⟨distinct, List.nodup_singleton a, ?_⟩
    intro x there y here eq
    rw [List.mem_singleton] at here
    exact apart (here ▸ eq ▸ there)

theorem Shape.congr {q' : Queue α} (shape : Shape q busy free) (next : ∀ seg < q.nrSegs, (q'.segs seg).next = (q.segs seg).next)
    (known : q.nrSegs ≤ q'.nrSegs) (last : q'.pSeg = q.pSeg) (first : q'.cSegShared = q.cSegShared) :
    Shape q' busy free :=
  ⟨shape.ring.congr fun seg there => next seg (shape.known seg there), shape.nodup,
    fun seg there => Nat.lt_of_lt_of_le (shape.known seg there) known, last ▸ shape.last, first ▸ shape.first⟩

theorem Shape.length_pos (shape : Shape q busy free) : 0 < busy.length := by
  obtain ⟨rest, eq⟩ := List.head?_eq_some_iff.1 shape.first
  simp [eq]

theorem Shape.index_pSeg {k : Nat} (shape : Shape q busy free) (there : busy[k]? = some q.pSeg) : k + 1 = busy.length := by
  have last : busy[busy.length - 1]? = some q.pSeg := by rw [← List.getLast?_eq_getElem?]; exact shape.last
  have positive := shape.length_pos
  have inside : k < busy.length := (List.getElem?_eq_some_iff.1 there).1
  have same : k = busy.length - 1 :=
    (List.getElem?_inj inside (List.nodup_append.1 shape.nodup).1).1 (there.trans last.symm)
  omega

end Shape

section Stored

def slotAt (segs : Nat → Segment α) (busy : List Nat) (i : Nat) : Option α :=
  busy[i / 4096]?.map fun seg => (segs seg).slots (i % 4096)

structure Stored (segs : Nat → Segment α) (busy : List Nat) (co : Nat) (unread : List α) (placed : List Nat) : Prop where
  slots : ∀ i < unread.length, slotAt segs busy (co + i) = unread[i]?
  placed : ∀ i < unread.length, busy[(co + i) / 4096]? = placed[i]?

variable {segs : Nat → Segment α} {placed : List Nat}

theorem Stored.congr {segs' : Nat → Segment α} (stored : Stored segs busy co unread placed)
    (same : ∀ seg ∈ busy, (segs' seg).slots = (segs seg).slots) : Stored segs' busy co unread placed := by
  refine ⟨fun i inside => ?_, stored.placed⟩
  rw [← stored.slots i inside, slotAt, slotAt]
  cases at_i : busy[(co + i) / 4096]? with
  | none => rfl
  | some seg => simp [same seg (List.mem_of_getElem? at_i)]

theorem Stored.enter (stored : Stored segs busy co unread placed) (seg : Nat)
    (fits : co + unread.length ≤ 4096 * busy.length) : Stored segs (busy ++ [seg]) co unread placed := by
  have same (i : Nat) (inside : i < unread.length) : (busy ++ [seg])[(co + i) / 4096]? = busy[(co + i) / 4096]? := by
    rw [List.getElem?_append_left]
    omega
  refine ⟨fun i inside => ?_, fun i inside => ?_⟩
  · rw [slotAt, same i inside]; exact stored.slots i inside
  · rw [same i inside]; exact stored.placed i inside

theorem Stored.leave {a : Nat} {rest : List Nat} (stored : Stored segs (a :: rest) 4096 unread placed) :
    Stored segs rest 0 unread placed := by
  have next (i : Nat) : (4096 + i) / 4096 = i / 4096 + 1 := by omega
  have same (i : Nat) : (4096 + i) % 4096 = i % 4096 := by omega
  refine ⟨fun i inside => ?_, fun i inside => ?_⟩
  · have there := stored.slots i inside
    rw [Nat.zero_add]
    rwa [slotAt, next, same, List.getElem?_cons_succ, ← slotAt] at there
  · have there := stored.placed i inside
    rw [Nat.zero_add]
    rwa [next, List.getElem?_cons_succ] at there

theorem Stored.setSlot (stored : Stored q.segs busy co unread placed) (shape : Shape q busy free) (msg : α)
    (size : 4096 * busy.length = co + unread.length + gap) (room : 0 < gap) (small : gap ≤ 4096) :
    Stored (q.setSlot q.pSeg ((co + unread.length) % 4096) msg).segs busy co unread placed := by
  refine ⟨fun i inside => ?_, stored.placed⟩
  rw [← stored.slots i inside, slotAt, slotAt]
  cases at_i : busy[(co + i) / 4096]? with
  | none => rfl
  | some seg =>
    rw [Option.map_some, Option.map_some, q.slots_setSlot_of_ne]
    by_cases same : seg = q.pSeg
    · have last := shape.index_pSeg (same ▸ at_i)
      exact .inr (by omega)
    · exact .inl same

theorem Stored.push (stored : Stored q.segs busy co unread placed) (shape : Shape q busy free) (msg : α)
    (size : 4096 * busy.length = co + unread.length + gap) (room : 0 < gap) (small : gap ≤ 4096)
    (length : placed.length = unread.length)
    (written : (q.segs q.pSeg).slots ((co + unread.length) % 4096) = msg) :
    Stored q.segs busy co (unread ++ [msg]) (placed ++ [q.pSeg]) := by
  have last : busy[(co + unread.length) / 4096]? = some q.pSeg := by
    have index : (co + unread.length) / 4096 = busy.length - 1 := by
      have := shape.length_pos
      omega
    rw [index, ← List.getLast?_eq_getElem?, shape.last]
  refine ⟨fun i inside => ?_, fun i inside => ?_⟩
  · obtain inside | rfl : i < unread.length ∨ i = unread.length := by simp at inside; omega
    · rw [stored.slots i inside, List.getElem?_append_left inside]
    · rw [slotAt, last, Option.map_some, written]; simp
  · obtain inside | rfl : i < unread.length ∨ i = unread.length := by simp at inside; omega
    · rw [stored.placed i inside, List.getElem?_append_left (length ▸ inside)]
    · rw [last, ← length]; simp

theorem Stored.pop {msg : α} (stored : Stored segs busy co (msg :: unread) placed) :
    Stored segs busy (co + 1) unread placed.tail := by
  have next (i : Nat) : co + 1 + i = co + (i + 1) := by omega
  refine ⟨fun i inside => ?_, fun i inside => ?_⟩
  · rw [next, stored.slots (i + 1) (by simpa using inside), List.getElem?_cons_succ]
  · rw [next, stored.placed (i + 1) (by simpa using inside), List.getElem?_tail]

end Stored

section Invariant

structure Counted (q : Queue α) (busy : List Nat) (co gap : Nat) (unread : List α) : Prop where
  size : 4096 * busy.length = co + unread.length + gap
  gap_le : gap ≤ 4096
  co_le : co ≤ 4096
  tail_mod : q.tail % 4096 = co % 4096
  head_lt : q.head < sizes
  tail_lt : q.tail < sizes
  count : q.tail + unread.length = q.head ∨
    q.head = 0 ∧ gap = 0 ∧ 0 < q.tail ∧ q.tail + unread.length = sizes
  wrapped : q.tail = 0 → co = 4096 → unread = [] ∧ gap = 0

def ProducerAt (q : Queue α) (busy free : List Nat) (gap : Nat) : Producer α → Prop
  | .idle => gap = 4096 → q.head = 0
  | .loadNext _ h => h = q.head ∧ 0 < h ∧ gap = 0
  | .loadShared _ h nextSeg => h = q.head ∧ 0 < h ∧ gap = 0 ∧ nextSeg = (q.segs q.pSeg).next
  | .alloc _ h nextSeg => h = q.head ∧ 0 < h ∧ gap = 0 ∧ nextSeg = (q.segs q.pSeg).next
  | .storeNext _ h newSeg => h = q.head ∧ 0 < h ∧ gap = 0 ∧ (q.segs newSeg).next = (q.segs q.pSeg).next ∧
      newSeg < q.nrSegs ∧ newSeg ∉ busy ++ free
  | .storeSlot _ h => h = q.head ∧ (gap = 0 → h = 0)
  | .storeHead msg h => h = q.head ∧ 0 < gap ∧ (q.segs q.pSeg).slots (h % 4096) = msg

def ConsumerAt (q : Queue α) (busy : List Nat) (co : Nat) (unread : List α) : Consumer α → Prop
  | .idle => q.cSeg = q.cSegShared ∧ (co = 0 → q.tail = 0)
  | .loadHead t => q.cSeg = q.cSegShared ∧ (co = 0 → q.tail = 0) ∧ t = q.tail
  | .loadNext t => q.cSeg = q.cSegShared ∧ co = 4096 ∧ t = q.tail ∧ unread ≠ []
  | .storeShared t => busy[1]? = some q.cSeg ∧ co = 4096 ∧ t = q.tail ∧ unread ≠ []
  | .loadSlot t => q.cSeg = q.cSegShared ∧ co < 4096 ∧ t = q.tail ∧ unread ≠ []
  | .storeTail t out => q.cSeg = q.cSegShared ∧ co < 4096 ∧ t = q.tail ∧ unread.head? = some out

structure Agrees (m : Machine α) (busy free : List Nat) (co gap : Nat) (unread : List α) (placed : List Nat) : Prop where
  shape : Shape m.queue busy free
  counted : Counted m.queue busy co gap unread
  stored : Stored m.queue.segs busy co unread placed
  producer : ProducerAt m.queue busy free gap m.producer
  consumer : ConsumerAt m.queue busy co unread m.consumer

def Holds (m : Machine α) (unread : List α) (placed : List Nat) : Prop :=
  ∃ busy free co gap, Agrees m busy free co gap unread placed

structure Inv (s : Run α) (unread : List α) : Prop where
  holds : Holds s.machine unread (s.placed.drop s.popped.length)
  past : s.pushed = s.popped ++ unread
  placed : s.placed.length = s.pushed.length
  before : s.before ≤ s.pushed.length

def Sound (s : Run α) : Prop := ∃ unread, Inv s unread

theorem sound_init (memory : Nat → Segment α) : Sound (Run.init memory) := by
  refine ⟨[], ⟨[0], [], 0, 4096, ?_⟩, rfl, rfl, Nat.le_refl _⟩
  refine
    { shape := ⟨?_, by simp, by simp [Run.init, Machine.init, spscQueueInit], rfl, rfl⟩
      counted := ⟨rfl, Nat.le_refl _, Nat.zero_le _, rfl, Nat.two_pow_pos 64, Nat.two_pow_pos 64, .inl rfl, by simp⟩
      stored := ⟨by simp, by simp⟩
      producer := fun _ => rfl
      consumer := ⟨rfl, fun _ => rfl⟩ }
  simp [Cyclic, Run.init, Machine.init, spscQueueInit]

theorem Counted.head_mod (counted : Counted q busy co gap unread) : q.head % 4096 = (co + unread.length) % 4096 := by
  have tail := counted.tail_mod
  obtain same | ⟨zero, -, -, round⟩ := counted.count
  · omega
  · simp only [sizes] at round
    omega

theorem Counted.gap_mod (counted : Counted q busy co gap unread) : (q.head + gap) % 4096 = 0 := by
  have mod := counted.head_mod
  have size := counted.size
  omega

theorem Counted.tail_eq_head_iff (counted : Counted q busy co gap unread) : q.tail = q.head ↔ unread = [] := by
  have below := counted.tail_lt
  rw [← List.length_eq_zero_iff]
  obtain same | ⟨zero, -, positive, round⟩ := counted.count <;> omega

theorem Counted.enter (counted : Counted q busy co 0 unread) (started : 0 < q.head) (seg : Nat) :
    Counted q (busy ++ [seg]) co 4096 unread := by
  have size := counted.size
  have count : q.tail + unread.length = q.head := by
    obtain same | ⟨zero, -⟩ := counted.count
    · exact same
    · omega
  refine { counted with size := ?_, gap_le := Nat.le_refl _, count := .inl count, wrapped := fun zero full => ?_ }
  · rw [List.length_append, List.length_singleton]
    omega
  · rw [(counted.wrapped zero full).1, zero] at count
    exact absurd count.symm (Nat.ne_of_gt started)

theorem Counted.push (counted : Counted q busy co gap unread) (room : 0 < gap) (msg : α)
    (inTurn : q.head + 1 = sizes → q.tail ≠ 0) :
    Counted { q with head := (q.head + 1) % sizes } busy co (gap - 1) (unread ++ [msg]) := by
  obtain ⟨size, gap_le, co_le, tail_mod, head_lt, tail_lt, count, wrapped⟩ := counted
  have mod : (q.head + gap) % 4096 = 0 := Counted.gap_mod ⟨size, gap_le, co_le, tail_mod, head_lt, tail_lt, count, wrapped⟩
  have same : q.tail + unread.length = q.head := by
    obtain same | ⟨-, full, -⟩ := count
    · exact same
    · omega
  refine ⟨?_, by omega, co_le, tail_mod, Nat.mod_lt _ (Nat.two_pow_pos 64), tail_lt, ?_, fun zero full => ?_⟩
  · rw [List.length_append, List.length_singleton]
    omega
  · rw [List.length_append, List.length_singleton]
    by_cases round : q.head + 1 = sizes
    · have later := inTurn round
      simp only [round, Nat.mod_self]
      simp only [sizes] at round ⊢
      exact .inr ⟨trivial, by omega, by omega, by omega⟩
    · simp only [Nat.mod_eq_of_lt (Nat.lt_of_le_of_ne head_lt round)]
      omega
  · have := (wrapped zero full).2
    omega

theorem Counted.pop {msg : α} (counted : Counted q busy co gap (msg :: unread)) (within : co < 4096) :
    Counted { q with tail := (q.tail + 1) % sizes } busy (co + 1) gap unread := by
  obtain ⟨size, gap_le, co_le, tail_mod, head_lt, tail_lt, count, wrapped⟩ := counted
  rw [List.length_cons] at size count
  refine ⟨by omega, gap_le, within, ?_, head_lt, Nat.mod_lt _ (Nat.two_pow_pos 64), ?_, ?_⟩
  · simp only [sizes] at tail_lt ⊢
    omega
  · by_cases round : q.tail + 1 = sizes
    · simp only [round, Nat.mod_self]
      omega
    · simp only [Nat.mod_eq_of_lt (Nat.lt_of_le_of_ne tail_lt round)]
      omega
  · intro zero full
    by_cases round : q.tail + 1 = sizes
    · refine ⟨List.length_eq_zero_iff.1 ?_, ?_⟩ <;> omega
    · simp only [Nat.mod_eq_of_lt (Nat.lt_of_le_of_ne tail_lt round)] at zero
      omega

end Invariant

end FreakV.Spsc
