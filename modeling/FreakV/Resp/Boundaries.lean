import FreakV.Resp.Scan
import Mathlib.Data.List.Basic

namespace FreakV.Resp

def Event.command : Event → Option (List Bytes)
  | .dispatch _ text _ _ _ => some text
  | _ => none

def commands (events : List Event) : List (List Bytes) := events.filterMap Event.command

def Event.item : Event → Option Item
  | .store _ _ => none
  | .dispatch argv text _ _ _ => some (if ∀ n ∈ argv.map Slice.len, n < 2 ^ 31 then .command text else .unbounded)
  | .pong => some .pong

def itemsOf (events : List Event) : List Item := events.filterMap Event.item

theorem itemsOf_append (first second : List Event) : itemsOf (first ++ second) = itemsOf first ++ itemsOf second :=
  List.filterMap_append

structure Supplied (env : Env) : Prop where
  buf : ∀ n, env.bufAlloc n = true
  argv : ∀ n, env.argvAlloc n = true
  slot : ∀ n, env.slotAlloc n = true

namespace Conn

variable {env : Env} {c c' : Conn} {args : List Bytes} {future : Bytes}

section Helpers

theorem parserReset_unread (parsed : c.rbufParsed ≤ c.rbufLen) : c.parserReset.unread = c.unread := by
  unfold parserReset
  split
  next all =>
    have none : c.unread = [] := by
      rw [unread, received, show c.rbufParsed = c.rbufLen by omega]
      exact List.drop_eq_nil_of_le (List.length_take_le _ _)
    rw [none]
    simp [unread, received]
  · rfl

theorem parserReset_fields (c : Conn) : c.parserReset.pending = c.pending ∧ c.parserReset.argvCap = c.argvCap ∧
    c.parserReset.enqueued = c.enqueued := by
  unfold parserReset
  split <;> simp

def queued (c : Conn) : Conn := { c with enqueued := c.enqueued + 1 }

theorem Layout.text_unread (layout : c.Layout) {k : Nat} (inside : k ≤ c.unread.length) :
    c.text ⟨c.nb, c.rbufParsed, k⟩ = c.unread.take k := by
  rw [layout.unread_length] at inside
  rw [unread, received, List.drop_take, List.take_take, Nat.min_eq_left inside]
  rfl

theorem makeRoom_status (supply : ∀ n, env.bufAlloc n = true) (c : Conn) : (c.makeRoom env).status = c.status := by
  unfold makeRoom rbufGrow
  simp only [supply, if_true]
  split <;> try split
  all_goals rfl

theorem le_growCap {fuel newcap minCap : Nat} (some : 0 < newcap) (enough : minCap ≤ newcap + fuel) :
    minCap ≤ growCap fuel newcap minCap := by
  induction fuel generalizing newcap with
  | zero => exact enough
  | succ fuel ih =>
    rw [growCap]
    split
    · exact ih (by omega) (by omega)
    · omega

theorem makeRoom_room (supply : ∀ n, env.bufAlloc n = true) (c : Conn) : (c.makeRoom env).rbufLen < (c.makeRoom env).buf.cap := by
  unfold makeRoom
  split
  next small =>
    rw [rbufGrow, if_neg (by omega)]
    simp only [supply, if_true]
    generalize start : (if c.buf.cap ≠ 0 then c.buf.cap * 2 else respRbufInit) = newcap
    have positive : 0 < newcap := by
      rw [← start]
      split
      next nonzero => omega
      · decide
    have large : c.rbufLen - c.cmdStart + 4096 ≤ growCap (c.rbufLen - c.cmdStart + 4096) newcap _ :=
      le_growCap positive (Nat.le_add_left _ _)
    have cap : ∀ cap, (c.moveBuffer cap).buf.cap = cap := by simp [moveBuffer, buf]
    rw [cap]
    change c.rbufLen - c.cmdStart < _
    omega
  next large => omega

theorem readLoop_keeps {α : Type} (f : Conn → α) (room : ∀ c, f (makeRoom env c) = f c)
    (append : ∀ c bytes, f (append c bytes) = f c) {reads : List Bytes} (read : c.readLoop env reads = some c') :
    f c' = f c := by
  induction reads generalizing c with
  | nil =>
    cases read
    exact room c
  | cons bytes rest ih =>
    simp only [Conn.readLoop] at read
    split at read
    · cases read
      exact room c
    · split at read
      · cases read
      · exact (ih read).trans ((append _ _).trans (room c))

end Helpers

def lens (c : Conn) : List Nat := c.argv.map Slice.len

def scan (c : Conn) (args : List Bytes) : Scan :=
  { state := c.state, argcExpected := c.argcExpected, lens := c.lens, args := args, argvCap := c.argvCap,
    bulkLen := c.bulkLen, enqueued := c.enqueued }

def bare (c : Conn) : Conn := { c with argv := [] }

structure Follows (c : Conn) (args : List Bytes) : Prop where
  alive : c.status = .alive
  marks : c.bare.Layout
  fresh : c.state = .arrayLen → c.argv = [] ∧ args = []
  bounded : (∀ n ∈ c.lens, n < 2 ^ 31) → c.Layout ∧ c.args = args

theorem Follows.accept : accept.Follows [] := ⟨rfl, Layout.accept, fun _ => ⟨rfl, rfl⟩, fun _ => ⟨Layout.accept, rfl⟩⟩

theorem Follows.layout (follows : c.Follows args) (fresh : c.state = .arrayLen) : c.Layout :=
  (follows.bounded (by simp [lens, (follows.fresh fresh).1])).1

theorem Layout.follows (layout : c.Layout) (alive : c.status = .alive) (empty : c.argv = []) : c.Follows [] :=
  ⟨alive, ⟨layout.filled, layout.parsed, layout.started, fun _ => rfl, by simp [bare]⟩, fun _ => ⟨empty, rfl⟩,
    fun _ => ⟨layout, by simp [Conn.args, empty]⟩⟩

section Reading

theorem makeRoom_bare (env : Env) (c : Conn) : c.bare.makeRoom env = (c.makeRoom env).bare := by
  unfold makeRoom rbufGrow
  simp only [apply_ite bare]
  rfl

theorem readLoop_bare (env : Env) (reads : List Bytes) (c : Conn) :
    c.bare.readLoop env reads = (c.readLoop env reads).map bare := by
  induction reads generalizing c with
  | nil => simp [Conn.readLoop, makeRoom_bare]
  | cons bytes rest ih =>
    simp only [Conn.readLoop, makeRoom_bare]
    simp only [apply_ite (Option.map bare), Option.map_some, Option.map_none, ← ih]
    rfl

theorem makeRoom_lens (env : Env) (c : Conn) : (c.makeRoom env).lens = c.lens := by
  unfold makeRoom rbufGrow
  split
  · split
    · rfl
    · simp only
      split
      · simp [moveBuffer, lens]
      · rfl
  · rfl

theorem Follows.readLoop {reads : List Bytes} (follows : c.Follows args) (supplied : Supplied env)
    (read : c.readLoop env reads = some c') :
    c'.Follows args ∧ c'.scan args = c.scan args ∧ c'.unread = c.unread ++ reads.flatten ∧ c'.pending = c.pending := by
  have lens := readLoop_keeps lens (makeRoom_lens env) (fun _ _ => rfl) read
  have status : c'.status = .alive := (readLoop_keeps status (makeRoom_status supplied.buf) (fun _ _ => rfl) read).trans follows.alive
  have bare : c.bare.readLoop env reads = some c'.bare := by
    rw [readLoop_bare, read]
    rfl
  obtain ⟨more, extended, all⟩ := follows.marks.readLoop bare
  have whole : more = reads.flatten := all (by simp [Conn.bare, status])
  have state : c'.state = c.state := extended.state
  have scan : c'.scan args = c.scan args := by
    have argcExpected : c'.argcExpected = c.argcExpected := extended.argcExpected
    have argvCap : c'.argvCap = c.argvCap := extended.argvCap
    have bulkLen : c'.bulkLen = c.bulkLen := extended.bulkLen
    have enqueued : c'.enqueued = c.enqueued := extended.enqueued
    simp only [Conn.scan, state, argcExpected, lens, argvCap, bulkLen, enqueued]
  refine ⟨⟨status, extended.layout, fun fresh => ?_, fun bounded => ?_⟩, scan, whole ▸ extended.unread, extended.pending⟩
  · obtain ⟨empty, none⟩ := follows.fresh (state ▸ fresh)
    refine ⟨?_, none⟩
    rw [Conn.lens, Conn.lens, empty] at lens
    exact List.map_eq_nil_iff.1 lens
  · obtain ⟨layout, texts⟩ := follows.bounded (lens ▸ bounded)
    obtain ⟨_, extended', -⟩ := layout.readLoop read
    exact ⟨extended'.layout, extended'.args.trans texts⟩

end Reading

section Rounds

inductive Mirrors (env : Env) (c : Conn) (args : List Bytes) (round : Round) : Turn → Prop
  | waits (stops : round.again = false) (silent : itemsOf round.events = []) (follows : round.conn.Follows args)
      (same : round.conn.scan args = c.scan args) (unread : round.conn.unread = c.unread)
      (pending : round.conn.pending = c.pending) : Mirrors env c args round .waits
  | dies (stops : round.again = false) (silent : itemsOf round.events = []) (dead : round.conn.status = .dead) :
      Mirrors env c args round .dies
  | hangs (stops : round.again = false) (silent : itemsOf round.events = []) (hung : round.conn.status = .hung) :
      Mirrors env c args round .hangs
  | takes {n : Nat} {next : Scan} {args' : List Bytes} {items : List Item} (scan : round.conn.scan args' = next)
      (made : itemsOf round.events = items) (follows : round.conn.Follows args')
      (unread : round.conn.unread = c.unread.drop n) (goesOn : round.again = true ∨ round.conn.pending = true)
      (pending : round.conn.pending = c.pending ∨ ∃ i, env.fate i = .paused) :
      Mirrors env c args round (.takes n next items)

theorem unread_advance {n : Nat} (bufs : c'.bufs = c.bufs) (nb : c'.nb = c.nb) (len : c'.rbufLen = c.rbufLen)
    (parsed : c'.rbufParsed = c.rbufParsed + n) : c'.unread = c.unread.drop n := by
  simp only [unread, received, buf, bufs, nb, len, parsed, List.drop_drop]

theorem pipelineEnqueue_supplied (supplied : Supplied env) (c : Conn) : c.pipelineEnqueue env =
    (c.queued, if c.enqueued % 2 ^ 32 = 2 ^ 32 - 1 then none else some (c.enqueued % 2 ^ 32)) := by
  rw [pipelineEnqueue, if_pos (supplied.slot _)]
  rfl

theorem Follows.arrayLen (follows : c.Follows args) (supplied : Supplied env) (fresh : c.state = .arrayLen) :
    Mirrors env c args (c.parseArrayLen env c.unread) ((c.scan args).turnArrayLen c.unread) := by
  obtain ⟨empty, rfl⟩ := follows.fresh fresh
  have parses := (follows.layout fresh).parseArrayLen env fresh
  have layout := parses.layout
  clear parses
  unfold parseArrayLen at layout ⊢
  unfold Scan.turnArrayLen
  split at layout
  next crlf =>
    rw [if_pos crlf, if_pos crlf]
    exact .takes rfl rfl (layout.follows follows.alive empty) (unread_advance rfl rfl rfl rfl) (.inl rfl) (.inl rfl)
  next noBlank =>
    rw [if_neg noBlank, if_neg noBlank]
    split at layout
    next return_ =>
      rw [if_pos return_, if_pos return_]
      exact .waits rfl rfl follows rfl rfl rfl
    next noReturn =>
      rw [if_neg noReturn, if_neg noReturn]
      simp only at layout ⊢
      split at layout
      next noStar =>
        rw [if_pos noStar, if_pos noStar]
        unfold inlinePing at layout ⊢
        rw [pipelineEnqueue_supplied supplied] at layout ⊢
        by_cases ping : IsPing c.unread
        · have same : (c.unread.take 4).map toLower = [112, 105, 110, 103] := ping
          rw [if_pos same] at layout
          rw [if_pos same, if_pos ping]
          refine .takes ?_ rfl (layout.follows follows.alive empty) ?_ (.inl rfl) (.inl rfl)
          · rfl
          · exact unread_advance rfl rfl rfl (Nat.add_assoc ..)
        · have same : ¬(c.unread.take 4).map toLower = [112, 105, 110, 103] := ping
          rw [if_neg same, if_neg ping]
          exact .dies rfl rfl rfl
      next star =>
        rw [if_neg star, if_neg star]
        unfold lineTurn
        cases number : readNumber 0 0 c.unread.tail with
        | none =>
          simp only [number] at layout ⊢
          exact .waits rfl rfl (layout.follows follows.alive empty) rfl rfl rfl
        | some result =>
          obtain ⟨val, used⟩ := result
          simp only [number] at layout ⊢
          have cap : (c.scan []).argvCap = c.argvCap := rfl
          rw [cap]
          cases ensured : argvEnsure c.argvCap val with
          | none => exact .hangs rfl rfl rfl
          | some newcap =>
            simp only [ensured, supplied.argv, not_true_eq_false, and_false, if_false] at layout ⊢
            refine .takes ?_ rfl (layout.follows follows.alive rfl) ?_ (.inl rfl) (.inl rfl)
            · rfl
            · exact unread_advance rfl rfl rfl (Nat.add_assoc ..)

theorem parseBulkLen_bare (c : Conn) (rest : Bytes) : (c.bare.parseBulkLen rest).conn = (c.parseBulkLen rest).conn.bare := by
  unfold parseBulkLen
  split
  · rfl
  · split
    · rfl
    · rfl

theorem Follows.bulkLen (follows : c.Follows args) :
    Mirrors env c args (c.parseBulkLen c.unread) ((c.scan args).turnBulkLen c.unread) := by
  have marks : (c.parseBulkLen c.unread).conn.bare.Layout := parseBulkLen_bare c _ ▸ follows.marks.parseBulkLen.layout
  have bounded (small : ∀ n ∈ c.lens, n < 2 ^ 31) : (c.parseBulkLen c.unread).conn.Layout :=
    (follows.bounded small).1.parseBulkLen.layout
  unfold parseBulkLen at marks bounded ⊢
  unfold Scan.turnBulkLen
  split at marks
  next other =>
    rw [if_pos other, if_pos other]
    exact .dies rfl rfl rfl
  next dollar =>
    rw [if_neg dollar] at bounded
    rw [if_neg dollar, if_neg dollar]
    unfold lineTurn
    cases number : readNumber 0 0 c.unread.tail with
    | none => exact .waits rfl rfl follows rfl rfl rfl
    | some result =>
      obtain ⟨val, used⟩ := result
      simp only [number] at marks bounded ⊢
      refine .takes rfl rfl ⟨follows.alive, marks, (fun fresh => by cases fresh), fun small => ?_⟩ ?_ (.inl rfl) (.inl rfl)
      · exact ⟨bounded small, (follows.bounded small).2⟩
      · exact unread_advance rfl rfl rfl (Nat.add_assoc ..)

def collect (c : Conn) : Conn :=
  { c with
    argv := c.argv ++ [Slice.mk c.nb c.rbufParsed (toSize c.bulkLen)]
    rbufParsed := c.rbufParsed + (toSize c.bulkLen + 2) % 2 ^ 64 }

theorem collect_lens (c : Conn) : c.collect.lens = c.lens ++ [toSize c.bulkLen] := by simp [collect, lens]

theorem Follows.collect (follows : c.Follows args) (data : c.state = .bulkData)
    (room : (toSize c.bulkLen + 2) % 2 ^ 64 ≤ c.unread.length) :
    c.collect.Follows ((c.scan args).collected c.unread).args := by
  have started := follows.marks.started
  have inside : c.rbufParsed + (toSize c.bulkLen + 2) % 2 ^ 64 ≤ c.rbufLen := by
    have length : c.unread.length = c.rbufLen - c.rbufParsed := follows.marks.unread_length
    have parsed : c.rbufParsed ≤ c.rbufLen := follows.marks.parsed
    omega
  refine ⟨follows.alive, ⟨follows.marks.filled, inside, ?_, fun _ => rfl, by simp [bare]⟩, fun fresh => ?_, fun small => ?_⟩
  · exact le_trans started (Nat.le_add_right _ _)
  · rw [show c.collect.state = c.state from rfl, data] at fresh
    cases fresh
  · rw [collect_lens] at small
    have short : toSize c.bulkLen < 2 ^ 31 := small _ (by simp)
    have need : (toSize c.bulkLen + 2) % 2 ^ 64 = toSize c.bulkLen + 2 := Nat.mod_eq_of_lt (by omega)
    obtain ⟨layout, texts⟩ := follows.bounded fun n member => small n (by simp [member])
    have same : c.collect = c.stored := by rw [Conn.collect, need]; rfl
    rw [need] at room
    rw [same]
    refine ⟨(layout.stored data room).layout, ?_⟩
    have text : c.text ⟨c.nb, c.rbufParsed, toSize c.bulkLen⟩ = c.unread.take (toSize c.bulkLen) :=
      layout.text_unread (by omega)
    have taken : ((c.scan args).collected c.unread).args = args ++ [c.unread.take (toSize c.bulkLen)] := by
      change args ++ [if toSize c.bulkLen < 2 ^ 31 then c.unread.take (toSize c.bulkLen) else []] = _
      rw [if_pos short]
    rw [taken, ← texts, ← text, Conn.args, show c.stored.argv = c.argv ++ [_] from rfl, List.map_append]
    rfl

theorem parserReset_bare (c : Conn) : c.bare.parserReset = c.parserReset := by
  by_cases all : c.rbufLen ≤ c.rbufParsed
  · have all' : c.bare.rbufLen ≤ c.bare.rbufParsed := all
    rw [parserReset, parserReset, if_pos all, if_pos all']
    rfl
  · have all' : ¬c.bare.rbufLen ≤ c.bare.rbufParsed := all
    rw [parserReset, parserReset, if_neg all, if_neg all']
    rfl

theorem parserReset_scan (c : Conn) : c.parserReset.scan [] = (c.scan []).reset := by
  unfold parserReset
  split <;> rfl

theorem commandComplete_dies (supplied : Supplied env) (last : c.enqueued % 2 ^ 32 = 2 ^ 32 - 1) :
    c.commandComplete env = { conn := c.queued.markDead, again := false } := by
  simp only [Conn.commandComplete, pipelineEnqueue_supplied supplied, if_pos last]

theorem Follows.item (follows : c.Follows args) (fate : Fate) :
    itemsOf [.dispatch c.argv (c.argv.map c.text) c.nb c.rbufLen fate] = [(c.scan args).item] := by
  have same : Event.item (.dispatch c.argv (c.argv.map c.text) c.nb c.rbufLen fate) = some (c.scan args).item := by
    by_cases bounded : ∀ n ∈ c.lens, n < 2 ^ 31
    · have texts := (follows.bounded bounded).2
      have made : Event.item (.dispatch c.argv (c.argv.map c.text) c.nb c.rbufLen fate) = some (.command c.args) :=
        congrArg some (if_pos bounded)
      have said : (c.scan args).item = .command args := if_pos bounded
      rw [made, said, texts]
    · have made : Event.item (.dispatch c.argv (c.argv.map c.text) c.nb c.rbufLen fate) = some .unbounded :=
        congrArg some (if_neg bounded)
      have said : (c.scan args).item = .unbounded := if_neg bounded
      rw [made, said]
  rw [itemsOf, List.filterMap_cons_some same, List.filterMap_nil]

theorem Follows.commandComplete (follows : c.Follows args) (supplied : Supplied env)
    (more : c.enqueued % 2 ^ 32 ≠ 2 ^ 32 - 1) :
    Mirrors env c args (c.commandComplete env)
      (.takes 0 { (c.scan args).reset with enqueued := c.enqueued + 1 } [(c.scan args).item]) := by
  have marks : c.queued.bare.Layout := ⟨follows.marks.filled, follows.marks.parsed, follows.marks.started, fun _ => rfl,
    by simp [bare]⟩
  have parses := marks.parserReset
  rw [parserReset_bare] at parses
  have layout := parses.layout
  have unread : c.queued.parserReset.unread = c.unread := parserReset_unread marks.parsed
  obtain ⟨state, status⟩ := parserReset_status c.queued
  simp only [Conn.commandComplete, pipelineEnqueue_supplied supplied, if_neg more]
  refine .takes (parserReset_scan c.queued) (follows.item _) ?_ unread ?_ ?_
  · refine Layout.follows ⟨layout.filled, layout.parsed, layout.started, layout.fresh, layout.args⟩ ?_ (layout.fresh state)
    exact status.trans follows.alive
  · by_cases paused : env.fate c.enqueued = .paused
    · exact .inr (by simp [paused])
    · exact .inl (by simp [paused])
  · by_cases paused : env.fate c.enqueued = .paused
    · exact .inr ⟨_, paused⟩
    · exact .inl (by simp [paused, queued])

theorem Follows.bulkData (follows : c.Follows args) (supplied : Supplied env) (data : c.state = .bulkData) :
    Mirrors env c args (c.parseBulkData env c.unread) ((c.scan args).turnBulkData c.unread) := by
  have need : (c.scan args).need = (toSize c.bulkLen + 2) % 2 ^ 64 := rfl
  have count : c.collect.argv.length = (c.scan args).lens.length + 1 := by simp [Conn.collect, scan, Conn.lens]
  have expected : (c.scan args).argcExpected = c.argcExpected := rfl
  unfold parseBulkData Scan.turnBulkData
  rw [need]
  simp only
  split
  · exact .waits rfl rfl follows rfl rfl rfl
  next room =>
    have collected := follows.collect data (Nat.le_of_not_lt room)
    have unread : c.collect.unread = c.unread.drop ((toSize c.bulkLen + 2) % 2 ^ 64) := unread_advance rfl rfl rfl rfl
    have scan : c.collect.scan ((c.scan args).collected c.unread).args = (c.scan args).collected c.unread := by
      simp only [Conn.scan, collect_lens]
      rfl
    change Mirrors env c args (if c.argcExpected ≤ c.collect.argv.length then _ else _) _
    rw [count, expected]
    push_cast
    split
    · unfold Scan.complete
      have same : ((c.scan args).collected c.unread).enqueued = c.collect.enqueued := rfl
      rw [same]
      split
      next last =>
        have dies := commandComplete_dies supplied last
        change Mirrors env c args { c.collect.commandComplete env with
          events := .store c.argv.length c.argvCap :: (c.collect.commandComplete env).events } _
        rw [dies]
        exact .dies rfl rfl rfl
      next more =>
        have completed := collected.commandComplete supplied more
        rw [scan] at completed
        cases completed with
        | takes scan' made follows' unread' goesOn pending =>
          rw [List.drop_zero, unread] at unread'
          exact .takes scan' made follows' unread' goesOn pending
    · obtain ⟨alive, marks, -, bounded⟩ := collected
      refine .takes (congrArg (fun p : Scan => { p with state := .bulkLen }) scan) rfl
        ⟨alive, ⟨marks.filled, marks.parsed, marks.started, fun _ => rfl, by simp [bare]⟩, (fun fresh => by cases fresh),
          fun small => ?_⟩ unread (.inl rfl) (.inl rfl)
      obtain ⟨layout, texts⟩ := bounded small
      exact ⟨⟨layout.filled, layout.parsed, layout.started, (fun fresh => by cases fresh), layout.args⟩, texts⟩

theorem Follows.round (follows : c.Follows args) (supplied : Supplied env) :
    Mirrors env c args (c.parseRound env) ((c.scan args).turn c.unread) := by
  unfold parseRound Scan.turn
  have same : (c.scan args).state = c.state := rfl
  rw [same]
  cases state : c.state with
  | arrayLen => exact follows.arrayLen supplied state
  | bulkLen => exact follows.bulkLen
  | bulkData => exact follows.bulkData supplied state

end Rounds

section Runs

variable {items left : List Item} {status : Status}

def Stuck (c : Conn) (args : List Bytes) : Prop := c.unread = [] ∨ (c.scan args).turn c.unread = .waits

inductive Stands (env : Env) (future : Bytes) (left : List Item) (status : Status) (c : Conn) : Prop
  | going {args : List Bytes} (follows : c.Follows args)
      (reads : Scan.Reads (c.scan args) (c.unread ++ future) left status)
      (rests : c.pending = false → c.Stuck args) (paused : c.pending = true → ∃ i, env.fate i = .paused)
  | finished (ended : c.status = status) (closed : status ≠ .alive) (none : left = [])

theorem Follows.unread_ne_nil (follows : c.Follows args) : c.unread ≠ [] ↔ c.rbufParsed < c.rbufLen := by
  have length : c.unread.length = c.rbufLen - c.rbufParsed := follows.marks.unread_length
  rw [← List.length_pos_iff, length]
  omega

theorem Follows.step (follows : c.Follows args) (supplied : Supplied env) (more : c.rbufParsed < c.rbufLen)
    (paused : c.pending = true → ∃ i, env.fate i = .paused)
    (reads : Scan.Reads (c.scan args) (c.unread ++ future) items status) (plain : future = [] ∨ .pong ∉ items) :
    ∃ left, items = itemsOf (c.parseRound env).events ++ left ∧
      ((c.parseRound env).again = false ∧ Stands env future left status (c.parseRound env).conn ∨
        (c.parseRound env).again = true ∧ ∃ args', (c.parseRound env).conn.Follows args' ∧
          ((c.parseRound env).conn.pending = true → ∃ i, env.fate i = .paused) ∧
          Scan.Reads ((c.parseRound env).conn.scan args') ((c.parseRound env).conn.unread ++ future) left status ∧
          ((c.parseRound env).conn.scan args').work (c.parseRound env).conn.unread < (c.scan args).work c.unread) := by
  have mirrors := follows.round supplied
  have some := follows.unread_ne_nil.2 more
  have some' : c.unread ++ future ≠ [] := by simp [some]
  generalize c.parseRound env = round at mirrors
  cases turn : (c.scan args).turn c.unread with
  | waits =>
    rw [turn] at mirrors
    cases mirrors with
    | waits stops silent follows' same unread pending =>
      refine ⟨items, by simp [silent], .inl ⟨stops, .going follows' ?_ (fun _ => .inr ?_) (pending ▸ paused)⟩⟩
      · rw [same, unread]
        exact reads
      · rw [same, unread]
        exact turn
  | dies =>
    have whole := reads.turn_eq some (by simp [turn]) plain
    rw [turn] at mirrors whole
    obtain ⟨rfl, rfl⟩ := reads.of_dies whole some'
    cases mirrors with
    | dies stops silent dead => exact ⟨[], by simp [silent], .inl ⟨stops, .finished dead (by simp) rfl⟩⟩
  | hangs =>
    have whole := reads.turn_eq some (by simp [turn]) plain
    rw [turn] at mirrors whole
    obtain ⟨rfl, rfl⟩ := reads.of_hangs whole some'
    cases mirrors with
    | hangs stops silent hung => exact ⟨[], by simp [silent], .inl ⟨stops, .finished hung (by simp) rfl⟩⟩
  | takes n next made =>
    have whole := reads.turn_eq some (by simp [turn]) plain
    rw [turn] at mirrors whole
    obtain ⟨later, rfl, reads'⟩ := reads.of_takes whole some'
    obtain ⟨inside, less⟩ := Scan.turn_takes turn
    cases mirrors with
    | takes scan made follows' unread goesOn pending =>
      subst scan made
      rw [List.drop_append_of_le_length inside, ← unread] at reads'
      rw [← unread] at less
      have paused' : round.conn.pending = true → ∃ i, env.fate i = .paused := by
        rcases pending with same | stops
        · exact same ▸ paused
        · exact fun _ => stops
      cases again : round.again with
      | true => exact ⟨later, rfl, .inr ⟨rfl, _, follows', paused', reads', less⟩⟩
      | false =>
        have stops : round.conn.pending = true := by simpa [again] using goesOn
        exact ⟨later, rfl, .inl ⟨rfl, .going follows' reads' (by simp [stops]) paused'⟩⟩

theorem Follows.rounds {fuel : Nat} (follows : c.Follows args) (supplied : Supplied env)
    (paused : c.pending = true → ∃ i, env.fate i = .paused)
    (enough : (c.scan args).work c.unread < fuel) (reads : Scan.Reads (c.scan args) (c.unread ++ future) items status)
    (plain : future = [] ∨ .pong ∉ items) : ∃ left, items = itemsOf (c.parseRounds env fuel).2 ++ left ∧
      Stands env future left status (c.parseRounds env fuel).1 := by
  induction fuel generalizing c args items with
  | zero => omega
  | succ fuel ih =>
    rw [parseRounds]
    split
    next more =>
      obtain ⟨left, rfl, ⟨stops, stands⟩ | ⟨again, args', follows', paused', reads', less⟩⟩ :=
        follows.step supplied more paused reads plain
      · simp only [stops]
        exact ⟨left, rfl, stands⟩
      · have plain' : future = [] ∨ .pong ∉ left := plain.imp_right fun noPong member => noPong (by simp [member])
        obtain ⟨left', rfl, stands⟩ := ih follows' paused' (by omega) reads' plain'
        simp only [again, if_true, itemsOf_append]
        exact ⟨left', by rw [List.append_assoc], stands⟩
    next all =>
      have none : c.unread = [] := not_not.1 (mt follows.unread_ne_nil.1 all)
      exact ⟨items, rfl, .going follows reads (fun _ => .inl none) paused⟩

theorem Follows.work (follows : c.Follows args) : (c.scan args).work c.unread = c.work := by
  have length : c.unread.length = c.rbufLen - c.rbufParsed := follows.marks.unread_length
  rw [Scan.work, length]
  rfl

theorem Follows.handleRead {reads : List Bytes} {events : List Event} (follows : c.Follows args) (supplied : Supplied env)
    (scans : Scan.Reads (c.scan args) (c.unread ++ (reads.flatten ++ future)) items status)
    (plain : future = [] ∨ .pong ∉ items) (handled : c.handleRead env reads .drained = some (c', events)) :
    ∃ left, items = itemsOf events ++ left ∧ Stands env future left status c' := by
  unfold Conn.handleRead at handled
  split at handled
  · cases handled
  next idle =>
    obtain ⟨filled, read, parsed⟩ := Option.map_eq_some_iff.1 handled
    obtain ⟨follows', scan, unread, pending⟩ := follows.readLoop supplied read
    have paused : filled.pending = true → ∃ i, env.fate i = .paused := by
      rw [pending]
      exact fun pending => absurd (.inr pending) idle
    rw [← List.append_assoc, ← unread, ← scan] at scans
    rw [if_neg (by simp [follows'.alive])] at parsed
    have ran := follows'.rounds supplied paused (Nat.lt_succ_of_le (Nat.le_of_eq follows'.work)) scans plain
    simp only [parseLoop] at parsed
    rwa [parsed] at ran

def attend (env : Env) : List (List Bytes) → Conn → Option (Conn × List Event)
  | [], c => some (c, [])
  | reads :: calls, c =>
    if c.status ≠ .alive then some (c, [])
    else
      ({ c with pending := false }.handleRead env reads .drained).bind fun (c, events) =>
        (attend env calls c).map fun (c, later) => (c, events ++ later)

theorem attend_closed (closed : c.status ≠ .alive) (calls : List (List Bytes)) : attend env calls c = some (c, []) := by
  cases calls with
  | nil => rfl
  | cons reads calls => rw [attend, if_pos closed]

theorem Stands.attend {calls : List (List Bytes)} {events : List Event} (supplied : Supplied env)
    (stands : Stands env calls.flatten.flatten items status c) (noPong : .pong ∉ items)
    (attended : attend env calls c = some (c', events)) :
    ∃ left, items = itemsOf events ++ left ∧ Stands env [] left status c' := by
  induction calls generalizing c items events with
  | nil =>
    cases attended
    exact ⟨items, rfl, stands⟩
  | cons reads calls ih =>
    cases stands with
    | finished ended closed none =>
      rw [attend_closed (ended ▸ closed)] at attended
      cases attended
      exact ⟨items, rfl, .finished ended closed none⟩
    | going follows scans =>
      rw [Conn.attend, if_neg (by simp [follows.alive])] at attended
      obtain ⟨⟨c₁, events₁⟩, handled, went⟩ := Option.bind_eq_some_iff.1 attended
      obtain ⟨⟨c₂, later⟩, rested, same⟩ := Option.map_eq_some_iff.1 went
      cases same
      rw [List.flatten_cons, List.flatten_append] at scans
      have resumed : { c with pending := false }.Follows _ := ⟨follows.alive,
        ⟨follows.marks.filled, follows.marks.parsed, follows.marks.started, fun _ => rfl, by simp [bare]⟩, follows.fresh,
        fun small => ⟨⟨(follows.bounded small).1.filled, (follows.bounded small).1.parsed,
          (follows.bounded small).1.started, (follows.bounded small).1.fresh, (follows.bounded small).1.args⟩,
          (follows.bounded small).2⟩⟩
      obtain ⟨left, rfl, stands₁⟩ := resumed.handleRead supplied scans (.inr noPong) handled
      obtain ⟨left', rfl, stands₂⟩ := ih stands₁ (fun member => noPong (by simp [member])) rested
      exact ⟨left', by rw [itemsOf_append, List.append_assoc], stands₂⟩

def Rests (c : Conn) : Prop := c.status ≠ .alive ∨ c.pending = false

theorem Stands.done (stands : Stands env [] left status c) (rests : c.Rests) : left = [] ∧ c.status = status := by
  cases stands with
  | finished ended closed none => exact ⟨none, ended⟩
  | going follows reads stuck =>
    rw [List.append_nil] at reads
    obtain ⟨none, alive⟩ := reads.of_waits (stuck (rests.resolve_left (by simp [follows.alive])))
    exact ⟨none, follows.alive.trans alive.symm⟩

theorem Stands.rests (flows : ∀ i, env.fate i ≠ .paused) (stands : Stands env future left status c) : c.Rests := by
  cases stands with
  | finished ended closed none => exact .inl (ended ▸ closed)
  | going follows reads stuck paused =>
    refine .inr (Bool.eq_false_iff.2 fun pending => ?_)
    obtain ⟨i, stops⟩ := paused pending
    exact flows i stops

theorem Stands.accept {stream : Bytes} (reads : Scan.Reads .start stream items status) :
    Stands env stream items status accept :=
  .going Follows.accept reads (fun _ => .inl rfl) (by simp [Conn.accept])

end Runs

section Bytewise

variable {items : List Item} {status : Status}

def pieces (bytes : Bytes) : List Bytes := bytes.map fun b => [b]

theorem pieces_flatten (bytes : Bytes) : (pieces bytes).flatten = bytes := by
  induction bytes with
  | nil => rfl
  | cons b bytes ih => simpa [pieces] using ih

theorem readLoop_pieces (supply : ∀ n, env.bufAlloc n = true) (bytes : Bytes) (alive : c.status = .alive) :
    ∃ c', c.readLoop env (pieces bytes) = some c' := by
  induction bytes generalizing c with
  | nil => exact ⟨_, rfl⟩
  | cons b bytes ih =>
    have room := makeRoom_room supply c
    have status : (c.makeRoom env).status = .alive := (makeRoom_status supply c).trans alive
    have fits : ¬([b] = [] ∨ (c.makeRoom env).buf.cap - (c.makeRoom env).rbufLen < [b].length) := by
      simp only [List.length_singleton]
      simp
      omega
    obtain ⟨c', read⟩ := ih (c := (c.makeRoom env).append [b]) status
    refine ⟨c', ?_⟩
    rw [pieces, List.map_cons]
    simp only [Conn.readLoop, if_neg fits]
    rw [if_neg (by simp [status])]
    exact read

theorem handleRead_pieces (supply : ∀ n, env.bufAlloc n = true) (bytes : Bytes) (alive : c.status = .alive) (idle : c.pending = false) :
    ∃ c' events, c.handleRead env (pieces bytes) .drained = some (c', events) := by
  obtain ⟨filled, read⟩ := readLoop_pieces supply bytes alive
  rw [Conn.handleRead, if_neg (by simp [alive, idle]), read]
  exact ⟨_, _, rfl⟩

theorem accept_handleRead {stream : Bytes} (supplied : Supplied env) (flows : ∀ i, env.fate i ≠ .paused)
    (reads : Scan.Reads .start stream items status) :
    ∃ c events, accept.handleRead env (pieces stream) .drained = some (c, events) ∧ itemsOf events = items ∧
      c.status = status ∧ c.Rests := by
  obtain ⟨c, events, handled⟩ := handleRead_pieces (c := accept) supplied.buf stream rfl rfl
  have scans : Scan.Reads (accept.scan []) (accept.unread ++ ((pieces stream).flatten ++ [])) items status := by
    rw [pieces_flatten, List.append_nil]
    exact reads
  obtain ⟨left, rfl, stands⟩ := Follows.accept.handleRead supplied scans (.inl rfl) handled
  have rests := stands.rests flows
  obtain ⟨rfl, ended⟩ := stands.done rests
  exact ⟨c, events, handled, by simp, ended, rests⟩

end Bytewise

end Conn

section Outcomes

def pongs (events : List Event) : Nat := events.count .pong

def Event.Measured : Event → Prop
  | .dispatch argv _ _ _ _ => ∀ s ∈ argv, s.len < 2 ^ 31
  | _ => True

def Item.args : Item → Option (List Bytes)
  | .command args => some args
  | _ => none

theorem Event.item_eq_pong {e : Event} : e.item = some .pong ↔ e = .pong := by
  cases e with
  | store => simp [Event.item]
  | dispatch =>
    simp only [Event.item]
    split <;> simp
  | pong => simp [Event.item]

theorem Event.measured_iff {e : Event} : e.Measured ↔ e.item ≠ some .unbounded := by
  cases e with
  | store | pong => simp [Event.item, Event.Measured]
  | dispatch argv => simp [Event.item, Event.Measured]

theorem Event.command_eq {e : Event} (measured : e.Measured) : e.command = e.item.bind Item.args := by
  cases e with
  | store | pong => rfl
  | dispatch argv =>
    have bounded : ∀ n ∈ argv.map Slice.len, n < 2 ^ 31 := by
      intro n member
      obtain ⟨s, inside, rfl⟩ := List.mem_map.1 member
      exact measured s inside
    simp only [Event.item, if_pos bounded]
    rfl

theorem pongs_eq_zero {events : List Event} : pongs events = 0 ↔ .pong ∉ itemsOf events := by
  simp [pongs, itemsOf, List.count_eq_zero, Event.item_eq_pong]

theorem measured_iff {events : List Event} : (∀ e ∈ events, e.Measured) ↔ .unbounded ∉ itemsOf events := by
  simp [itemsOf, Event.measured_iff]

theorem commands_eq {events : List Event} (measured : ∀ e ∈ events, e.Measured) :
    commands events = (itemsOf events).filterMap Item.args := by
  rw [itemsOf, List.filterMap_filterMap]
  exact List.filterMap_congr fun e member => Event.command_eq (measured e member)

def Attended (stream : Bytes) (c : Conn) (events : List Event) : Prop :=
  ∃ env calls, Supplied env ∧ calls.flatten.flatten = stream ∧ Conn.attend env calls .accept = some (c, events) ∧ c.Rests

def BoundaryFree (stream : Bytes) : Prop :=
  ∀ c events c' events', Attended stream c events → Attended stream c' events' →
    (∀ e ∈ events, e.Measured) ∧ commands events = commands events' ∧ pongs events = pongs events' ∧
      (c.status = .dead ↔ c'.status = .dead)

theorem Attended.items {stream : Bytes} {items : List Item} {status : Status} {c : Conn} {events : List Event}
    (attended : Attended stream c events) (reads : Scan.Reads .start stream items status) (noPong : .pong ∉ items) :
    itemsOf events = items ∧ c.status = status := by
  obtain ⟨env, calls, supplied, rfl, ran, rests⟩ := attended
  obtain ⟨left, rfl, stands⟩ := (Conn.Stands.accept reads).attend supplied noPong ran
  obtain ⟨rfl, ended⟩ := stands.done rests
  exact ⟨by simp, ended⟩

theorem supplied_plentiful (fate : Nat → Fate) : Supplied (Conn.plentiful fate) := ⟨fun _ => rfl, fun _ => rfl, fun _ => rfl⟩

theorem attended_whole {stream : Bytes} {items : List Item} {status : Status} (reads : Scan.Reads .start stream items status) :
    ∃ c events, Attended stream c events ∧ itemsOf events = items := by
  have supplied := supplied_plentiful fun _ => .answered
  obtain ⟨c, events, handled, made, -, rests⟩ := Conn.accept_handleRead supplied (by simp [Conn.plentiful]) reads
  refine ⟨c, events, ⟨_, [Conn.pieces stream], supplied, by simp [Conn.pieces_flatten], ?_, rests⟩, made⟩
  change (Conn.accept.handleRead _ _ _).bind _ = _
  simp [handled, Conn.attend]

theorem attended_cut {stream : Bytes} {items : List Item} {k : Nat} (reads : Scan.Reads .start (stream.take k) items .dead) :
    ∃ c events, Attended stream c events ∧ itemsOf events = items := by
  have supplied := supplied_plentiful fun _ => .answered
  obtain ⟨c, events, handled, made, dead, rests⟩ := Conn.accept_handleRead supplied (by simp [Conn.plentiful]) reads
  refine ⟨c, events, ⟨_, [Conn.pieces (stream.take k), Conn.pieces (stream.drop k)], supplied, ?_, ?_, rests⟩, made⟩
  · simp [Conn.pieces_flatten]
  · change (Conn.accept.handleRead _ _ _).bind _ = _
    simp [handled, Conn.attend_closed, dead]

theorem boundaryFree_iff (stream : Bytes) :
    BoundaryFree stream ↔ .pong ∉ requests stream ∧ .unbounded ∉ requests stream := by
  obtain ⟨status, reads⟩ := Scan.reads_requests stream
  constructor
  · intro free
    obtain ⟨c, events, whole, items⟩ := attended_whole reads
    refine ⟨fun pong => ?_, ?_⟩
    · obtain ⟨k, before, closed, silent⟩ := reads.cut pong
      obtain ⟨c', events', cut, items'⟩ := attended_cut closed
      obtain ⟨-, -, same, -⟩ := free _ _ _ _ whole cut
      have none : pongs events' = 0 := pongs_eq_zero.2 (items' ▸ silent)
      rw [none, pongs_eq_zero, items] at same
      exact same pong
    · have measured := (free _ _ _ _ whole whole).1
      rw [← items]
      exact measured_iff.1 measured
  · rintro ⟨noPong, bounded⟩ c events c' events' first second
    obtain ⟨items, ended⟩ := first.items reads noPong
    obtain ⟨items', ended'⟩ := second.items reads noPong
    have measured : ∀ e ∈ events, e.Measured := measured_iff.2 (items ▸ bounded)
    have measured' : ∀ e ∈ events', e.Measured := measured_iff.2 (items' ▸ bounded)
    refine ⟨measured, ?_, ?_, by rw [ended, ended']⟩
    · rw [commands_eq measured, commands_eq measured', items, items']
    · rw [pongs_eq_zero.2 (items ▸ noPong), pongs_eq_zero.2 (items' ▸ noPong)]

def pingLine : Bytes := [80, 73, 78, 71, 13, 10]

theorem ping_cut : ∃ c c' events events', Attended pingLine c events ∧ Attended pingLine c' events' ∧
    pongs events = 1 ∧ c.status = .alive ∧ pongs events' = 0 ∧ c'.status = .dead := by
  have supplied := supplied_plentiful fun _ => .answered
  refine ⟨_, _, _, _, ⟨_, [[pingLine]], supplied, rfl, rfl, .inr rfl⟩,
    ⟨_, [[[80, 73, 78]], [[71, 13, 10]]], supplied, rfl, rfl, .inl ?_⟩, ?_, ?_, ?_, ?_⟩
  all_goals decide

theorem pingLine_not_boundaryFree : ¬BoundaryFree pingLine := by
  intro free
  obtain ⟨c, c', events, events', whole, cut, once, -, never, -⟩ := ping_cut
  obtain ⟨-, -, same, -⟩ := free _ _ _ _ whole cut
  rw [once, never] at same
  cases same

end Outcomes

end FreakV.Resp
