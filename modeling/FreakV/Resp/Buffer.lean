import FreakV.Resp.Model

namespace FreakV.Resp

namespace Conn

def unread (c : Conn) : Bytes := c.received.drop c.rbufParsed

def args (c : Conn) : List Bytes := c.argv.map c.text

structure Layout (c : Conn) : Prop where
  filled : c.rbufLen ≤ c.buf.data.length
  parsed : c.rbufParsed ≤ c.rbufLen
  started : c.cmdStart ≤ c.rbufParsed
  fresh : c.state = .arrayLen → c.argv = []
  args : ∀ s ∈ c.argv, s.buf = c.nb ∧ c.cmdStart ≤ s.off ∧ s.off + s.len ≤ c.rbufParsed

def Sized (c : Conn) : Prop := c.state = .bulkData → 0 ≤ c.bulkLen ∧ c.bulkLen < 2 ^ 31

variable {env : Env} {c : Conn}

theorem Layout.received_length (layout : c.Layout) : c.received.length = c.rbufLen := by
  simp [received, layout.filled]

theorem Layout.unread_length (layout : c.Layout) : c.unread.length = c.rbufLen - c.rbufParsed := by
  simp [unread, layout.received_length]

theorem Layout.accept : accept.Layout :=
  ⟨Nat.zero_le _, Nat.le_refl _, Nat.le_refl _, fun _ => rfl, by simp [Conn.accept]⟩

theorem toSize_of_nonneg {x : Int} (nonneg : 0 ≤ x) (small : x < 2 ^ 31) : (toSize x : Int) = x := by
  have exact : x % 2 ^ 64 = x := Int.emod_eq_of_lt nonneg (by omega)
  rw [toSize, exact, Int.toNat_of_nonneg nonneg]

theorem need_of_sized {x : Int} (nonneg : 0 ≤ x) (small : x < 2 ^ 31) : (toSize x + 2) % 2 ^ 64 = toSize x + 2 := by
  have size := toSize_of_nonneg nonneg small
  exact Nat.mod_eq_of_lt (by omega)

section Reading

theorem append_bufs (c : Conn) (bytes : Bytes) {b : Nat} (other : b ≠ c.nb) : (c.append bytes).bufs b = c.bufs b :=
  Function.update_of_ne other _ _

theorem append_data (c : Conn) (bytes : Bytes) : (c.append bytes).buf.data =
    c.buf.data.take c.rbufLen ++ bytes ++ c.buf.data.drop (c.rbufLen + bytes.length) := by
  simp [append, buf]

theorem Layout.append_received (layout : c.Layout) (bytes : Bytes) :
    (c.append bytes).received = c.received ++ bytes := by
  have length : (c.received ++ bytes).length = (c.append bytes).rbufLen := by
    rw [List.length_append, layout.received_length]
    rfl
  rw [received, append_data, ← length]
  exact List.take_left

theorem take_drop_append {α : Type} (l m : List α) {off len : Nat} (inside : off + len ≤ l.length) :
    ((l ++ m).drop off).take len = (l.drop off).take len := by
  rw [List.drop_append_of_le_length (by omega), List.take_append_of_le_length (by simp; omega)]

theorem Layout.append_text (layout : c.Layout) (bytes : Bytes) {s : Slice} (inside : s.off + s.len ≤ c.rbufLen) :
    (c.append bytes).text s = c.text s := by
  unfold text
  by_cases here : s.buf = c.nb
  · have front : ((c.buf.data.take c.rbufLen).drop s.off).take s.len = (c.buf.data.drop s.off).take s.len := by
      rw [List.drop_take, List.take_take, Nat.min_eq_left (by omega)]
    have length : (c.buf.data.take c.rbufLen).length = c.rbufLen := layout.received_length
    rw [here, show (c.append bytes).bufs c.nb = (c.append bytes).buf from rfl, append_data, List.append_assoc,
      take_drop_append _ _ (by omega), front]
    rfl
  · rw [append_bufs c bytes here]

theorem Layout.append (layout : c.Layout) (bytes : Bytes) : (c.append bytes).Layout := by
  refine ⟨?_, ?_, layout.started, layout.fresh, layout.args⟩
  · have front : (c.buf.data.take c.rbufLen).length = c.rbufLen := layout.received_length
    rw [append_data, List.length_append, List.length_append, front]
    exact Nat.le_add_right _ _
  · exact le_trans layout.parsed (Nat.le_add_right _ _)

def Settled (c : Conn) (s : Slice) : Prop := s.buf < c.nb ∨ s.buf = c.nb ∧ s.off + s.len ≤ c.rbufLen

structure Extends (c c' : Conn) (more : Bytes) : Prop where
  layout : c'.Layout
  unread : c'.unread = c.unread ++ more
  args : c'.args = c.args
  state : c'.state = c.state
  argcExpected : c'.argcExpected = c.argcExpected
  argvCap : c'.argvCap = c.argvCap
  bulkLen : c'.bulkLen = c.bulkLen
  enqueued : c'.enqueued = c.enqueued
  pending : c'.pending = c.pending
  status : c'.status = c.status ∨ c'.status = .dead
  keeps : ∀ s, c.Settled s → c'.Settled s ∧ c'.text s = c.text s

theorem Extends.refl (layout : c.Layout) : c.Extends c [] :=
  ⟨layout, by simp, rfl, rfl, rfl, rfl, rfl, rfl, rfl, .inl rfl, fun _ settled => ⟨settled, rfl⟩⟩

theorem Extends.trans {c₁ c₂ c₃ : Conn} {first second : Bytes} (left : c₁.Extends c₂ first)
    (right : c₂.Extends c₃ second) : c₁.Extends c₃ (first ++ second) := by
  refine ⟨right.layout, ?_, right.args.trans left.args, right.state.trans left.state,
    right.argcExpected.trans left.argcExpected, right.argvCap.trans left.argvCap, right.bulkLen.trans left.bulkLen,
    right.enqueued.trans left.enqueued, right.pending.trans left.pending, ?_, fun s settled => ?_⟩
  · rw [right.unread, left.unread, List.append_assoc]
  · rcases right.status with same | dead
    · rw [same]
      exact left.status
    · exact .inr dead
  · obtain ⟨settled₂, same₂⟩ := left.keeps s settled
    obtain ⟨settled₃, same₃⟩ := right.keeps s settled₂
    exact ⟨settled₃, same₃.trans same₂⟩

theorem Layout.extends_append (layout : c.Layout) (bytes : Bytes) : c.Extends (c.append bytes) bytes := by
  refine ⟨layout.append bytes, ?_, ?_, rfl, rfl, rfl, rfl, rfl, rfl, .inl rfl, fun s settled => ?_⟩
  · rw [Conn.unread, layout.append_received]
    exact List.drop_append_of_le_length (by rw [layout.received_length]; exact layout.parsed)
  · refine List.map_congr_left fun s member => layout.append_text bytes ?_
    exact le_trans (layout.args s member).2.2 layout.parsed
  · rcases settled with old | ⟨here, inside⟩
    · refine ⟨.inl old, ?_⟩
      rw [text, append_bufs c bytes (Nat.ne_of_lt old)]
      rfl
    · exact ⟨.inr ⟨here, le_trans inside (Nat.le_add_right _ _)⟩, layout.append_text bytes inside⟩

theorem moveBuffer_data (c : Conn) (cap : Nat) : (c.moveBuffer cap).buf.data = c.received.drop c.cmdStart := by
  simp [moveBuffer, buf]

theorem Layout.moveBuffer_received (layout : c.Layout) (cap : Nat) :
    (c.moveBuffer cap).received = c.received.drop c.cmdStart := by
  have length : (c.moveBuffer cap).rbufLen = (c.received.drop c.cmdStart).length := by
    simp [moveBuffer, layout.received_length]
  rw [received, moveBuffer_data, length, List.take_length]

theorem moveBuffer_text (c : Conn) (cap : Nat) {s : Slice} (before : s.buf ≤ c.nb) :
    (c.moveBuffer cap).text s = c.text s := by
  have kept : (c.moveBuffer cap).bufs s.buf = c.bufs s.buf := Function.update_of_ne (by omega) _ _
  rw [text, kept, text]

theorem Layout.moveBuffer (layout : c.Layout) (cap : Nat) : (c.moveBuffer cap).Layout := by
  refine ⟨?_, Nat.sub_le_sub_right layout.parsed _, Nat.zero_le _, fun state => ?_, fun s member => ?_⟩
  · rw [moveBuffer_data, List.length_drop, layout.received_length]
    exact Nat.le_refl _
  · simp [Conn.moveBuffer, layout.fresh state]
  · obtain ⟨s₀, member₀, rfl⟩ := List.mem_map.1 member
    obtain ⟨-, off, fits⟩ := layout.args s₀ member₀
    have moved : s₀.off - c.cmdStart + s₀.len ≤ c.rbufParsed - c.cmdStart := by omega
    exact ⟨rfl, Nat.zero_le _, moved⟩

theorem Layout.moveBuffer_args (layout : c.Layout) (cap : Nat) : (c.moveBuffer cap).args = c.args := by
  have moved : (c.moveBuffer cap).argv = c.argv.map fun s => { s with buf := c.nb + 1, off := s.off - c.cmdStart } := rfl
  rw [Conn.args, moved, List.map_map]
  refine List.map_congr_left fun s member => ?_
  obtain ⟨here, off, fits⟩ := layout.args s member
  have parsed := layout.parsed
  have front : c.text s = (c.received.drop s.off).take s.len := by
    rw [text, here, received, List.drop_take, List.take_take, Nat.min_eq_left (by omega)]
    rfl
  change ((c.moveBuffer cap).buf.data.drop (s.off - c.cmdStart)).take s.len = c.text s
  rw [moveBuffer_data, List.drop_drop, Nat.add_sub_cancel' off, front]

theorem Layout.extends_moveBuffer (layout : c.Layout) (cap : Nat) : c.Extends (c.moveBuffer cap) [] := by
  refine ⟨layout.moveBuffer cap, ?_, layout.moveBuffer_args cap, rfl, rfl, rfl, rfl, rfl, rfl, .inl rfl,
    fun s settled => ?_⟩
  · rw [List.append_nil, Conn.unread, layout.moveBuffer_received, List.drop_drop]
    exact congrArg c.received.drop (Nat.add_sub_cancel' layout.started)
  · have before : s.buf ≤ c.nb := by
      rcases settled with older | ⟨here, -⟩ <;> omega
    exact ⟨.inl (Nat.lt_succ_of_le before), moveBuffer_text c cap before⟩

theorem Layout.markDead (layout : c.Layout) : c.markDead.Layout :=
  ⟨layout.filled, layout.parsed, layout.started, layout.fresh, layout.args⟩

theorem Layout.extends_markDead (layout : c.Layout) : c.Extends c.markDead [] :=
  ⟨layout.markDead, (List.append_nil _).symm, rfl, rfl, rfl, rfl, rfl, rfl, rfl, .inr rfl,
    fun _ settled => ⟨settled, rfl⟩⟩

theorem Layout.makeRoom (env : Env) (layout : c.Layout) : c.Extends (c.makeRoom env) [] := by
  unfold Conn.makeRoom rbufGrow
  split
  · split
    · exact .refl layout
    · simp only
      split
      · exact layout.extends_moveBuffer _
      · exact layout.extends_markDead
  · exact .refl layout

theorem Layout.readLoop {c' : Conn} {reads : List Bytes} (layout : c.Layout) (read : c.readLoop env reads = some c') :
    ∃ more, c.Extends c' more ∧ (c'.status ≠ .dead → more = reads.flatten) := by
  induction reads generalizing c with
  | nil =>
    cases read
    exact ⟨[], layout.makeRoom env, fun _ => rfl⟩
  | cons bytes rest ih =>
    have room := layout.makeRoom env
    simp only [Conn.readLoop] at read
    split at read
    next dead =>
      cases read
      exact ⟨[], room, fun alive => absurd dead alive⟩
    · split at read
      · cases read
      · have appended := room.layout.extends_append bytes
        obtain ⟨more, extended, all⟩ := ih appended.layout read
        exact ⟨_, (room.trans appended).trans extended, fun alive => by rw [all alive]; rfl⟩

end Reading

theorem readNumber_used {val v : Int} {used u : Nat} {line : Bytes} (number : readNumber val used line = some (v, u)) :
    used + 2 ≤ u ∧ u ≤ used + line.length := by
  induction line generalizing val used with
  | nil => simp [readNumber] at number
  | cons b rest ih =>
    cases rest with
    | nil => simp [readNumber] at number
    | cons b' rest =>
      simp only [readNumber] at number
      split at number
      · have bounds := ih number
        simp only [List.length_cons] at bounds ⊢
        omega
      · split at number
        · simp only [Option.some.injEq, Prod.mk.injEq] at number
          simp only [List.length_cons]
          omega
        · cases number

section Rounds

structure Parses (c c' : Conn) : Prop where
  bufs : c'.bufs = c.bufs
  nb : c'.nb = c.nb
  layout : c'.Layout
  -- the received bytes are given up all at once or not at all
  kept : c'.rbufLen = c.rbufLen ∨ c'.rbufLen = 0

theorem Layout.advance (layout : c.Layout) (fresh : c.state = .arrayLen) {n : Nat} (inside : n ≤ c.unread.length) :
    Parses c { c with rbufParsed := c.rbufParsed + n } := by
  rw [layout.unread_length] at inside
  have parsed := layout.parsed
  have started := layout.started
  refine ⟨rfl, rfl, ⟨layout.filled, ?_, ?_, layout.fresh, ?_⟩, .inl rfl⟩
  · change c.rbufParsed + n ≤ c.rbufLen
    omega
  · change c.cmdStart ≤ c.rbufParsed + n
    omega
  · simp [layout.fresh fresh]

theorem Layout.start (layout : c.Layout) (fresh : c.state = .arrayLen) : { c with cmdStart := c.rbufParsed }.Layout :=
  ⟨layout.filled, layout.parsed, Nat.le_refl _, layout.fresh, by simp [layout.fresh fresh]⟩

theorem Layout.pipelineEnqueue (env : Env) (layout : c.Layout) : Parses c (c.pipelineEnqueue env).1 := by
  unfold Conn.pipelineEnqueue
  split
  · exact ⟨rfl, rfl, ⟨layout.filled, layout.parsed, layout.started, layout.fresh, layout.args⟩, .inl rfl⟩
  · exact ⟨rfl, rfl, layout, .inl rfl⟩

theorem Parses.trans {c₁ c₂ c₃ : Conn} (left : Parses c₁ c₂) (right : Parses c₂ c₃) : Parses c₁ c₃ := by
  refine ⟨right.bufs.trans left.bufs, right.nb.trans left.nb, right.layout, ?_⟩
  rcases right.kept with same | rewound
  · rcases left.kept with same' | rewound'
    · exact .inl (same.trans same')
    · exact .inr (same.trans rewound')
  · exact .inr rewound

theorem Layout.parserReset (layout : c.Layout) : Parses c c.parserReset := by
  unfold Conn.parserReset
  simp only
  split
  · exact ⟨rfl, rfl, ⟨Nat.zero_le _, Nat.le_refl _, Nat.le_refl _, fun _ => rfl, by simp⟩, .inr rfl⟩
  · exact ⟨rfl, rfl, ⟨layout.filled, layout.parsed, Nat.le_refl _, fun _ => rfl, by simp⟩, .inl rfl⟩

theorem Layout.commandComplete (env : Env) (layout : c.Layout) : Parses c (c.commandComplete env).conn := by
  have queued := layout.pipelineEnqueue env
  unfold Conn.commandComplete
  generalize c.pipelineEnqueue env = result at queued
  obtain ⟨c', seq⟩ := result
  cases seq with
  | none => exact ⟨queued.bufs, queued.nb, queued.layout.markDead, queued.kept⟩
  | some seq =>
    obtain ⟨bufs, nb, layout', kept⟩ := queued.trans queued.layout.parserReset
    exact ⟨bufs, nb, ⟨layout'.filled, layout'.parsed, layout'.started, layout'.fresh, layout'.args⟩, kept⟩

def stored (c : Conn) : Conn :=
  { c with
    argv := c.argv ++ [Slice.mk c.nb c.rbufParsed (toSize c.bulkLen)]
    rbufParsed := c.rbufParsed + (toSize c.bulkLen + 2) }

theorem Layout.stored (layout : c.Layout) (data : c.state = .bulkData) (room : toSize c.bulkLen + 2 ≤ c.unread.length) :
    Parses c c.stored := by
  rw [layout.unread_length] at room
  have parsed := layout.parsed
  have started := layout.started
  refine ⟨rfl, rfl, ⟨layout.filled, ?_, ?_, ?_, fun s member => ?_⟩, .inl rfl⟩
  · change c.rbufParsed + (toSize c.bulkLen + 2) ≤ c.rbufLen
    omega
  · exact le_trans started (Nat.le_add_right _ _)
  · intro array
    rw [show c.stored.state = c.state from rfl, data] at array
    cases array
  · change s.buf = c.nb ∧ c.cmdStart ≤ s.off ∧ s.off + s.len ≤ c.rbufParsed + (toSize c.bulkLen + 2)
    rcases List.mem_append.1 member with old | new
    · obtain ⟨here, off, fits⟩ := layout.args s old
      exact ⟨here, off, by omega⟩
    · rw [List.mem_singleton.1 new]
      exact ⟨rfl, started, by simp only; omega⟩

theorem Sized.parseBulkData (sized : c.Sized) (data : c.state = .bulkData) : c.parseBulkData env c.unread =
    if c.unread.length < toSize c.bulkLen + 2 then { conn := c, again := false }
    else if c.argcExpected ≤ c.argv.length + 1 then
      { (c.stored.commandComplete env) with
        events := .store c.argv.length c.argvCap :: (c.stored.commandComplete env).events }
    else { conn := { c.stored with state := .bulkLen }, events := [.store c.argv.length c.argvCap], again := true } := by
  obtain ⟨nonneg, small⟩ := sized data
  have need := need_of_sized nonneg small
  simp only [Conn.parseBulkData, need, List.length_append, List.length_singleton, Nat.cast_add, Nat.cast_one]
  rfl

theorem Layout.parseBulkData (layout : c.Layout) (sized : c.Sized) (data : c.state = .bulkData) :
    Parses c (c.parseBulkData env c.unread).conn := by
  rw [sized.parseBulkData data]
  split
  · exact ⟨rfl, rfl, layout, .inl rfl⟩
  next room =>
    have stored := layout.stored data (Nat.le_of_not_lt room)
    split
    · exact stored.trans (stored.layout.commandComplete env)
    · obtain ⟨bufs, nb, layout', kept⟩ := stored
      exact ⟨bufs, nb, ⟨layout'.filled, layout'.parsed, layout'.started, (fun state => by cases state), layout'.args⟩, kept⟩

theorem Layout.parseBulkLen (layout : c.Layout) :
    Parses c (c.parseBulkLen c.unread).conn := by
  unfold Conn.parseBulkLen
  split
  · exact ⟨rfl, rfl, layout.markDead, .inl rfl⟩
  next dollar =>
    split
    · exact ⟨rfl, rfl, layout, .inl rfl⟩
    next val used number =>
      have bounds := readNumber_used number
      have tail : c.unread.tail.length + 1 = c.unread.length := by
        cases unread : c.unread with
        | nil => simp [unread] at dollar
        | cons b rest => simp
      have unreadLength := layout.unread_length
      have parsed := layout.parsed
      have started := layout.started
      refine ⟨rfl, rfl, ⟨layout.filled, ?_, ?_, (fun state => by cases state), fun s member => ?_⟩, .inl rfl⟩
      · change c.rbufParsed + 1 + used ≤ c.rbufLen
        omega
      · change c.cmdStart ≤ c.rbufParsed + 1 + used
        omega
      · obtain ⟨here, off, fits⟩ := layout.args s member
        refine ⟨here, off, ?_⟩
        change s.off + s.len ≤ c.rbufParsed + 1 + used
        omega

theorem Layout.inlinePing (env : Env) (layout : c.Layout) (fresh : c.state = .arrayLen) :
    Parses c (c.inlinePing env c.unread).conn := by
  unfold Conn.inlinePing
  split
  next ping =>
    have queued := layout.pipelineEnqueue env
    have same : (c.pipelineEnqueue env).1.state = c.state ∧ (c.pipelineEnqueue env).1.unread = c.unread := by
      unfold Conn.pipelineEnqueue
      split <;> exact ⟨rfl, rfl⟩
    have four : (c.unread.take 4).length = 4 := by
      rw [← List.length_map toLower, ping]
      rfl
    have blank : ((c.unread.drop 4).takeWhile fun b => b = 13 || b = 10).length ≤ (c.unread.drop 4).length :=
      (List.takeWhile_sublist _).length_le
    rw [List.length_take] at four
    rw [List.length_drop] at blank
    simp only [Nat.add_assoc]
    refine queued.trans (queued.layout.advance (same.1.trans fresh) ?_)
    rw [same.2]
    omega
  · exact ⟨rfl, rfl, layout.markDead, .inl rfl⟩

theorem Layout.parseArrayLen (env : Env) (layout : c.Layout) (fresh : c.state = .arrayLen) :
    Parses c (c.parseArrayLen env c.unread).conn := by
  have started := layout.start fresh
  have parses : Parses c { c with cmdStart := c.rbufParsed } := ⟨rfl, rfl, started, .inl rfl⟩
  unfold Conn.parseArrayLen
  split
  next crlf =>
    refine layout.advance fresh ?_
    have two := congrArg List.length crlf
    simp only [List.length_take, List.length_cons, List.length_nil] at two
    omega
  · split
    · exact ⟨rfl, rfl, layout, .inl rfl⟩
    · simp only
      split
      · exact parses.trans (started.inlinePing (c := { c with cmdStart := c.rbufParsed }) env fresh)
      next star =>
        split
        · exact parses
        next val used number =>
          have bounds := readNumber_used number
          have tail : c.unread.tail.length + 1 = c.unread.length := by
            cases unread : c.unread with
            | nil => simp [unread] at star
            | cons b rest => simp
          have counted : Parses c
              { c with
                cmdStart := c.rbufParsed
                rbufParsed := c.rbufParsed + 1 + used
                argcExpected := val
                argv := [] } := by
            have unreadLength := layout.unread_length
            have parsed := layout.parsed
            refine ⟨rfl, rfl, ⟨layout.filled, ?_, ?_, fun _ => rfl, by simp⟩, .inl rfl⟩
            · change c.rbufParsed + 1 + used ≤ c.rbufLen
              omega
            · change c.rbufParsed ≤ c.rbufParsed + 1 + used
              omega
          split
          · exact ⟨rfl, rfl, ⟨counted.layout.filled, counted.layout.parsed, counted.layout.started, fun _ => rfl, by simp⟩, .inl rfl⟩
          · split
            · exact ⟨rfl, rfl, counted.layout.markDead, .inl rfl⟩
            · exact ⟨rfl, rfl, ⟨counted.layout.filled, counted.layout.parsed, counted.layout.started, fun _ => rfl, by simp⟩,
                .inl rfl⟩

theorem Layout.parseRound (env : Env) (layout : c.Layout) (sized : c.Sized) : Parses c (c.parseRound env).conn := by
  unfold Conn.parseRound
  simp only
  split
  next fresh => exact layout.parseArrayLen env fresh
  · exact layout.parseBulkLen
  next data => exact layout.parseBulkData sized data

end Rounds

end Conn

end FreakV.Resp
