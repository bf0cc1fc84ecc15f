import FreakV.Resp.Bounds

namespace FreakV.Resp

structure Request where
  argv : List Slice
  text : List Bytes
deriving DecidableEq

def Event.request : Event → Option Request
  | .dispatch argv text _ _ fate => if fate = .answered then none else some ⟨argv, text⟩
  | _ => none

structure Client where
  conn : Conn
  waiting : List Request

inductive Move
  | act (a : Act)
  | finish (i : Nat)
deriving DecidableEq

namespace Client

def step (env : Env) (w : Client) : Move → Option Client
  | .act a => (w.conn.act env a).map fun (c, events) =>
    { conn := c, waiting := w.waiting ++ events.filterMap Event.request }
  | .finish i => if i < w.waiting.length then some { w with waiting := w.waiting.eraseIdx i } else none

def MoveFits (env : Env) (w : Client) : Move → Prop
  | .act a => w.conn.ActFits env a ∧
    match a with
    | .read (_ :: _) _ => w.conn.rbufLen = 0 → ∀ r ∈ w.waiting, ∀ s ∈ r.argv, s.buf ≠ w.conn.nb
    | _ => True
  | .finish _ => True

def Intact (w : Client) : Prop := ∀ r ∈ w.waiting, r.argv.map w.conn.text = r.text

end Client

namespace Conn

variable {env : Env} {c c' : Conn}

def Kept (c : Conn) (s : Slice) : Prop := s.buf ≤ c.nb ∧ (c.rbufLen ≠ 0 → c.Settled s)

theorem commandComplete_dispatch {argv : List Slice} {text : List Bytes} {nb received : Nat} {fate : Fate}
    (dispatched : .dispatch argv text nb received fate ∈ (c.commandComplete env).events) :
    text = argv.map c.text ∧ nb = c.nb ∧ received = c.rbufLen := by
  unfold commandComplete at dispatched
  generalize c.pipelineEnqueue env = result at dispatched
  obtain ⟨c', seq⟩ := result
  cases seq with
  | none => simp at dispatched
  | some seq =>
    simp only [List.mem_singleton, Event.dispatch.injEq] at dispatched
    obtain ⟨rfl, rfl, rfl, rfl, -⟩ := dispatched
    exact ⟨rfl, rfl, rfl⟩

theorem parseRound_dispatch (sized : c.Sized) {argv : List Slice} {text : List Bytes} {nb received : Nat} {fate : Fate}
    (dispatched : .dispatch argv text nb received fate ∈ (c.parseRound env).events) :
    text = argv.map c.text ∧ nb = c.nb ∧ received = c.rbufLen := by
  unfold parseRound at dispatched
  simp only at dispatched
  split at dispatched
  · unfold parseArrayLen inlinePing at dispatched
    split at dispatched
    · simp at dispatched
    · split at dispatched
      · simp at dispatched
      · simp only at dispatched
        split at dispatched
        · split at dispatched <;> simp at dispatched
        · split at dispatched
          · simp at dispatched
          · split at dispatched
            · simp at dispatched
            · split at dispatched <;> simp at dispatched
  · unfold parseBulkLen at dispatched
    split at dispatched
    · simp at dispatched
    · split at dispatched <;> simp at dispatched
  next data =>
    rw [show c.received.drop c.rbufParsed = c.unread from rfl, sized.parseBulkData data] at dispatched
    split at dispatched
    · simp at dispatched
    · split at dispatched
      · simp only [List.mem_cons, reduceCtorEq, false_or] at dispatched
        exact commandComplete_dispatch (c := c.stored) dispatched
      · simp at dispatched

structure Dispatches (c c' : Conn) (events : List Event) : Prop where
  bufs : c'.bufs = c.bufs
  nb : c'.nb = c.nb
  kept : c'.rbufLen = c.rbufLen ∨ c'.rbufLen = 0
  requests : ∀ r ∈ events.filterMap Event.request, r.text = r.argv.map c.text ∧
    ∀ s ∈ r.argv, s.buf = c.nb ∧ s.off + s.len ≤ c.rbufLen

theorem Bounded.round_dispatches (env : Env) (bounded : c.Bounded) (alive : c.status = .alive) (fits : c.LineFits) :
    Dispatches c (c.parseRound env).conn (c.parseRound env).events := by
  have parses := bounded.layout.parseRound env bounded.sized
  refine ⟨parses.bufs, parses.nb, parses.kept, fun r member => ?_⟩
  obtain ⟨e, emitted, request⟩ := List.mem_filterMap.1 member
  have inside := (bounded.parseRound env alive fits).events e emitted
  cases e with
  | store | pong => cases request
  | dispatch argv text nb received fate =>
    obtain ⟨same, rfl, rfl⟩ := parseRound_dispatch bounded.sized emitted
    simp only [Event.request, Option.ite_none_left_eq_some, Option.some.injEq] at request
    obtain ⟨-, rfl⟩ := request
    exact ⟨same, inside⟩

theorem Bounded.dispatches {fuel : Nat} (bounded : c.Bounded) (alive : c.status = .alive) (fits : c.RoundsFit env fuel) :
    Dispatches c (c.parseRounds env fuel).1 (c.parseRounds env fuel).2 := by
  induction fuel generalizing c with
  | zero => exact ⟨rfl, rfl, .inl rfl, by simp [Conn.parseRounds]⟩
  | succ fuel ih =>
    rw [Conn.parseRounds]
    split
    next unparsed =>
      obtain ⟨line, later⟩ := fits unparsed
      have round := bounded.parseRound env alive line
      have first := bounded.round_dispatches env alive line
      simp only
      split
      next again =>
        have rest := ih round.bounded (round.alive again) (later again)
        have text : (c.parseRound env).conn.text = c.text := by
          unfold Conn.text
          rw [first.bufs]
        refine ⟨rest.bufs.trans first.bufs, rest.nb.trans first.nb, ?_, fun r member => ?_⟩
        · rcases rest.kept with same | rewound
          · rw [same]
            exact first.kept
          · exact .inr rewound
        · rw [List.filterMap_append, List.mem_append] at member
          rcases member with now | after
          · exact first.requests r now
          · obtain ⟨same, inside⟩ := rest.requests r after
            rw [text] at same
            refine ⟨same, fun s slice => ?_⟩
            obtain ⟨here, fits'⟩ := inside s slice
            refine ⟨here.trans first.nb, ?_⟩
            rcases first.kept with kept | rewound
            · rwa [kept] at fits'
            · omega
      · exact first
    · exact ⟨rfl, rfl, .inl rfl, by simp⟩

theorem Settled.kept {s : Slice} (settled : c.Settled s) : c.Kept s := by
  refine ⟨?_, fun _ => settled⟩
  rcases settled with older | ⟨here, -⟩ <;> omega

theorem Kept.makeRoom {s : Slice} (kept : c.Kept s) : (c.makeRoom env).Kept s ∧ (c.makeRoom env).text s = c.text s := by
  unfold Conn.makeRoom rbufGrow
  split
  · split
    · exact ⟨kept, rfl⟩
    · simp only
      split
      · exact ⟨Settled.kept (.inl (Nat.lt_succ_of_le kept.1)), moveBuffer_text c _ kept.1⟩
      · exact ⟨kept, rfl⟩
  · exact ⟨kept, rfl⟩

theorem Kept.readLoop {s : Slice} {reads : List Bytes} (layout : c.Layout) (read : c.readLoop env reads = some c')
    (kept : c.Kept s) (apart : reads ≠ [] → c.rbufLen = 0 → s.buf ≠ c.nb) : c'.Kept s ∧ c'.text s = c.text s := by
  cases reads with
  | nil =>
    cases read
    exact kept.makeRoom
  | cons bytes rest =>
    have settled : c.Settled s := by
      by_cases rewound : c.rbufLen = 0
      · exact .inl (Nat.lt_of_le_of_ne kept.1 (apart (by simp) rewound))
      · exact kept.2 rewound
    obtain ⟨more, extended, -⟩ := layout.readLoop read
    obtain ⟨settled', same⟩ := extended.keeps s settled
    exact ⟨settled'.kept, same⟩

theorem Dispatches.keeps {events : List Event} {s : Slice} (dispatches : Dispatches c c' events) (kept : c.Kept s) :
    c'.Kept s ∧ c'.text s = c.text s := by
  obtain ⟨bufs, nb, len, -⟩ := dispatches
  refine ⟨⟨by rw [nb]; exact kept.1, fun more => ?_⟩, by rw [text, bufs]; rfl⟩
  rcases len with same | rewound
  · rw [same] at more
    rw [Settled, nb, same]
    exact kept.2 more
  · exact absurd rewound more

end Conn

namespace Client

variable {env : Env} {w w' : Client}

structure Good (w : Client) : Prop where
  bounded : w.conn.Bounded
  intact : w.Intact
  kept : ∀ r ∈ w.waiting, ∀ s ∈ r.argv, w.conn.Kept s

theorem Good.accept : Good { conn := .accept, waiting := [] } := ⟨.accept, by simp [Intact], by simp⟩

theorem Good.change {c : Conn} (good : w.Good) (bounded : c.Bounded)
    (keeps : ∀ r ∈ w.waiting, ∀ s ∈ r.argv, c.Kept s ∧ c.text s = w.conn.text s) : Good { w with conn := c } := by
  refine ⟨bounded, fun r member => ?_, fun r member s slice => (keeps r member s slice).1⟩
  rw [← good.intact r member]
  exact List.map_congr_left fun s slice => (keeps r member s slice).2

theorem Good.quiet (good : w.Good) :
    Good { conn := w.conn, waiting := w.waiting ++ ([] : List Event).filterMap Event.request } := by
  simpa using good

theorem Good.parse {fuel : Nat} (good : w.Good) (alive : w.conn.status = .alive) (fits : w.conn.RoundsFit env fuel) :
    Good { conn := (w.conn.parseRounds env fuel).1,
           waiting := w.waiting ++ (w.conn.parseRounds env fuel).2.filterMap Event.request } := by
  have bounded := (good.bounded.parseRounds alive fits).1
  have dispatches := good.bounded.dispatches alive fits
  generalize w.conn.parseRounds env fuel = parsed at bounded dispatches ⊢
  obtain ⟨c', events⟩ := parsed
  obtain ⟨-, intact, kept⟩ := good.change bounded fun r member s slice => dispatches.keeps (good.kept r member s slice)
  have text : c'.text = w.conn.text := by
    unfold Conn.text
    rw [dispatches.bufs]
  refine ⟨bounded, fun r member => ?_, fun r member s slice => ?_⟩
  · rcases List.mem_append.1 member with old | new
    · exact intact r old
    · rw [(dispatches.requests r new).1, text]
  · rcases List.mem_append.1 member with old | new
    · exact kept r old s slice
    · obtain ⟨here, inside⟩ := (dispatches.requests r new).2 s slice
      exact (dispatches.keeps (Conn.Settled.kept (.inr ⟨here, inside⟩))).1

theorem Good.step {m : Move} (good : w.Good) (fits : w.MoveFits env m) (stepped : w.step env m = some w') : w'.Good := by
  cases m with
  | finish i =>
    simp only [Client.step] at stepped
    split at stepped
    · cases stepped
      exact ⟨good.bounded, fun r member => good.intact r (List.mem_of_mem_eraseIdx member),
        fun r member => good.kept r (List.mem_of_mem_eraseIdx member)⟩
    · cases stepped
  | act a =>
    obtain ⟨⟨c', events⟩, acted, rfl⟩ := Option.map_eq_some_iff.1 stepped
    obtain ⟨lines, apart⟩ := fits
    have bounded := (good.bounded.act lines acted).1
    cases a with
    | resume =>
      simp only [Conn.act] at acted
      split at acted
      · cases acted
        exact (good.change bounded fun r member s slice => ⟨good.kept r member s slice, rfl⟩).quiet
      · cases acted
    | read reads ending =>
      simp only [Conn.act, Conn.handleRead] at acted
      split at acted
      · cases acted
      next called =>
        obtain ⟨c₁, read, result⟩ := Option.map_eq_some_iff.1 acted
        obtain ⟨more, extended, -⟩ := good.bounded.layout.readLoop read
        have good₁ : Good { w with conn := c₁ } := by
          refine good.change (extended.bounded good.bounded) fun r member s slice => ?_
          refine (good.kept r member s slice).readLoop good.bounded.layout read fun some rewound => ?_
          cases reads with
          | nil => exact absurd rfl some
          | cons bytes rest => exact apart rewound r member s slice
        split at result
        · cases result
          exact good₁.quiet
        next living =>
          cases ending with
          | error =>
            cases result
            exact (good₁.change bounded fun r member s slice => ⟨good₁.kept r member s slice, rfl⟩).quiet
          | drained =>
            have alive : c₁.status = .alive := by
              rcases extended.status with same | dead
              · rw [same]
                by_contra other
                exact called (.inl other)
              · exact absurd dead living
            have parsed := good₁.parse alive (lines c₁ read)
            rw [show c₁.parseRounds env (c₁.work + 1) = (c', events) from result] at parsed
            exact parsed

open Transition in
theorem waiting_intact (env : Env) {w : Client}
    (reached : Reaches (step env) (MoveFits env) { conn := .accept, waiting := [] } w) : w.Intact := by
  have good : w.Good := reached.invariant Good.accept Good.step
  exact good.intact

instance (env : Env) (w : Client) : (m : Move) → Decidable (w.MoveFits env m)
  | .act (.read [] ending) => inferInstanceAs (Decidable (w.conn.ActFits env (.read [] ending) ∧ True))
  | .act (.read (bytes :: rest) ending) => inferInstanceAs (Decidable (w.conn.ActFits env (.read (bytes :: rest) ending) ∧
      (w.conn.rbufLen = 0 → ∀ r ∈ w.waiting, ∀ s ∈ r.argv, s.buf ≠ w.conn.nb)))
  | .act .resume => inferInstanceAs (Decidable (w.conn.ActFits env .resume ∧ True))
  | .finish _ => isTrue trivial

def connected : Client := { conn := .accept, waiting := [] }

def remote : Env := Conn.plentiful fun _ => .sent

def getA : Move := .act (.read [[42, 50, 13, 10, 36, 51, 13, 10, 71, 69, 84, 13, 10, 36, 49, 13, 10, 97, 13, 10]] .drained)
def getB : Move := .act (.read [[42, 50, 13, 10, 36, 51, 13, 10, 71, 69, 84, 13, 10, 36, 49, 13, 10, 98, 13, 10]] .drained)

open Transition in
theorem waiting_intact_in_turn : ∃ w, follow (step remote) (fun w m => decide (w.MoveFits remote m))
    [getA, .finish 0, getB] connected = some w ∧ w.Intact := by
  have ran : (follow (step remote) (fun w m => decide (w.MoveFits remote m)) [getA, .finish 0, getB] connected).isSome := by
    decide +kernel
  obtain ⟨w, followed⟩ := Option.isSome_iff_exists.1 ran
  exact ⟨w, followed, waiting_intact remote (follow_reaches (fun _ _ => of_decide_eq_true) followed)⟩

theorem waiting_overwritten :
    (((step remote connected getA).bind fun w => step remote w getB).map fun w =>
      w.waiting.map fun r => (r.text, r.argv.map w.conn.text)) =
    some [([[71, 69, 84], [97]], [[71, 69, 84], [98]]), ([[71, 69, 84], [98]], [[71, 69, 84], [98]])] := by
  decide +kernel

end Client

end FreakV.Resp
