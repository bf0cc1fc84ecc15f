import FreakV.Commands.Expired
import FreakV.Lib.Transition

namespace FreakV.Commands

open Net (ascii)
open Table (storedKey)
open Transition

/-- `requests` are on their way to a shard or wait there for a lock; `pairs` are the keys of MSETs, each at the shard
that prepares it. -/
structure Server where
  tables : Nat → Table := fun _ => {}
  requests : List (Nat × Request) := []
  pairs : List (Nat × Bytes) := []

inductive Event
  | accept (shard now : Nat) (args : List Arg)
  -- `proxy_exec` for one of the requests
  | serve (index now : Nat)
  -- MSET makes something of the entry of a pair: it stores, locks, unlocks or removes it
  | mset (index : Nat) (entry : Option Stored)
  -- expiry and eviction
  | drop (shard : Nat) (key : Bytes)
  -- A later read of the connection goes to the start of the buffer that the arguments of a request or the key of a pair
  -- point into.
  | overwrite (index : Nat) (args : List Arg)
  | overwritePair (index : Nat) (key : Bytes)
deriving DecidableEq

-- What a request reads through its pointers, which stay where they are.
def Request.overwritten (args : List Arg) : Request → Option Request
  | .regular op old => if args.map (·.text.length) = old.map (·.text.length) then some (.regular op args) else none
  | .mgetPart old => args.head?.bind fun key => if key.text.length = old.length then some (.mgetPart key.text) else none
  | .delPart old => args.head?.bind fun key => if key.text.length = old.length then some (.delPart key.text) else none
  | .dbsize => none

namespace Server

def keysOf : List Arg → List Bytes
  | key :: _ :: rest => key.text :: keysOf rest
  | _ => []

def setTable (s : Server) (shard : Nat) (t : Table) : Server := { s with tables := Function.update s.tables shard t }

def post (s : Server) (more : List (Nat × Request)) : Server := { s with requests := s.requests ++ more }

variable (n : Nat)

/-- The dispatcher of a shard. Parts that it would run at once are requests to itself. -/
def accept (s : Server) (shard now : Nat) (args : List Arg) : Server :=
  let t := s.tables shard
  let d : Dispatcher := { self := shard, numShards := n }
  match d.respDispatchProxy t.isLocked args with
  | .nothing => s
  | .here => s.setTable shard (respDispatch Table.api { now := now } args t).1
  | .execLocalKey op =>
    let (t, reply) := proxyExec Table.api now (.regular op args) t
    let s := s.setTable shard t
    if reply.isNone then s.post [(shard, .regular op args)] else s
  | .send owner op => s.post [(owner, .regular op args)]
  | .mget => s.post (args.tail.map fun key => (shardForKey key.text n, .mgetPart key.text))
  | .del => s.post (args.tail.map fun key => (shardForKey key.text n, .delPart key.text))
  | .dbsize => s.post ((List.range n).map fun shard => (shard, .dbsize))
  | .mset => { s with pairs := s.pairs ++ (keysOf args.tail).map fun key => (shardForKey key n, key) }

def step (s : Server) : Event → Option Server
  | .accept shard now args => some (s.accept n shard now args)
  | .serve index now =>
    match s.requests[index]? with
    | some (shard, req) =>
      let (t, reply) := proxyExec Table.api now req (s.tables shard)
      let s := s.setTable shard t
      -- a request that has to wait stays
      some (if reply.isNone then s else { s with requests := s.requests.eraseIdx index })
    | none => none
  | .mset index entry =>
    match s.pairs[index]?, entry with
    | some (shard, key), some v => some (s.setTable shard ((s.tables shard).put (storedKey key) v))
    | some (shard, key), none => some (s.setTable shard ((s.tables shard).remove (storedKey key)))
    | none, _ => none
  | .drop shard key => some (s.setTable shard ((s.tables shard).remove key))
  | .overwrite index args =>
    s.requests[index]?.bind fun old =>
      (old.2.overwritten args).map fun req => { s with requests := s.requests.set index (old.1, req) }
  | .overwritePair index key =>
    s.pairs[index]?.bind fun old =>
      if key.length = old.2.length then some { s with pairs := s.pairs.set index (old.1, key) } else none

/-- SET with more than six arguments is read by the owner of its key, and no stored key is cut short to one of another
shard. -/
def Homed (shard : Nat) : List Arg → Prop
  | [] => True
  | name :: rest =>
    match nameOf name.text, rest with
    | some .set, key :: _ :: opts =>
      (name.text.map toupper = ascii "SET" ∧ 3 < opts.length → shardForKey key.text n = shard) ∧
        shardForKey (storedKey key.text) n = shardForKey key.text n
    | some .mset, rest => ∀ key ∈ keysOf rest, shardForKey (storedKey key) n = shardForKey key n
    | _, _ => True

def Allowed (_ : Server) : Event → Prop
  | .accept shard _ args => Homed n shard args
  | .overwrite _ _ | .overwritePair _ _ => False
  | _ => True

end Server

section Keys

def setLike : ProxyOp → Bool
  | .set | .setNx | .setXx => true
  | _ => false

variable {m : Table} {k q : Bytes}

def Table.Has (m : Table) (key : Bytes) : Prop := m.map key ≠ none

theorem Table.Has.of_put {v : Stored} (held : (m.put q v).Has k) : m.Has k ∨ k = q := by
  by_cases same : k = q
  · exact .inr same
  · exact .inl (by simpa [Table.Has, Table.put, same] using held)

theorem Table.Has.of_remove (held : (m.remove q).Has k) : m.Has k := by
  by_cases same : k = q
  · simp [Table.Has, Table.remove, same] at held
  · simpa [Table.Has, Table.remove, same] using held

theorem Table.Has.of_find {v : Stored} (found : m.find q = some v) : m.Has q := by
  rw [Table.find_eq _ (Table.short_of_find found)] at found
  simp [Table.Has, found]

theorem Table.Has.of_keyGet {now : Nat} (held : (m.keyGet q now).1.Has k) : m.Has k := by
  unfold Table.keyGet at held
  split at held
  · exact held
  · split at held
    · exact held.of_remove
    · exact held

theorem Table.Has.of_keyDelete (held : (m.keyDelete q).1.Has k) : m.Has k := by
  unfold Table.keyDelete at held
  split at held
  · exact held
  · exact held.of_remove

theorem Table.Has.of_keyExpire {time : Nat} (held : (m.keyExpire q time).1.Has k) : m.Has k := by
  unfold Table.keyExpire at held
  split at held
  · exact held
  · next found =>
    split at held
    · exact held
    · obtain held | rfl := held.of_put
      · exact held
      · exact .of_find found

theorem Table.Has.of_deleteAll {keys : List Bytes} (held : (deleteAll Table.api keys m).1.Has k) : m.Has k := by
  induction keys generalizing m with
  | nil => exact held
  | cons q rest ih =>
    rw [deleteAll_cons] at held
    exact (ih held).of_keyDelete

theorem Call.run_keys (call : Call) (now : Nat) (held : (call.run Table.api now m).1.Has k) :
    m.Has k ∨ ∃ key val o, call = .set key val o ∧ k = storedKey key := by
  cases call with
  | read what key => exact .inl (Table.Has.of_keyGet held)
  | ttl ms key => exact .inl held
  | set key val o =>
    simp only [Call.run, Table.api_keySet, Table.keySet] at held
    split at held
    · exact .inl held
    · split at held
      · exact .inl held
      · obtain held | same := held.of_put
        · exact .inl held
        · exact .inr ⟨key, val, o, rfl, same⟩
  | expire key time => exact .inl (Table.Has.of_keyExpire held)
  | delete keys => exact .inl (Table.Has.of_deleteAll held)
  | answer text => exact .inl held

theorem localCall_set {now : Nat} {name : Arg} {rest : List Arg} {key val : Bytes} {o : SetOptions}
    (calls : localCall now name rest = some (.set key val o)) :
    nameOf name.text = some .set ∧ ∃ a b opts, rest = a :: b :: opts ∧ a.text = key := by
  cases known : nameOf name.text with
  | none => simp [localCall, known] at calls
  | some cmd =>
    unfold localCall at calls
    rw [known] at calls
    obtain _ | ⟨a, _ | ⟨b, opts⟩⟩ := rest <;> cases cmd <;> cases calls
    exact ⟨rfl, _, _, _, rfl, rfl⟩

theorem respDispatch_other {σ : Type} {api : ShardApi σ} {env : Env} {name : Arg} {rest : List Arg} (s : σ)
    (other : localCall env.now name rest = none) :
    (respDispatch api env (name :: rest) s).1 = s ∨ (respDispatch api env (name :: rest) s).1 = api.flush s := by
  cases known : nameOf name.text with
  | none => simp [respDispatch, known]
  | some cmd =>
    unfold localCall at other
    rw [known] at other
    obtain _ | ⟨a, _ | ⟨b, opts⟩⟩ := rest <;> cases cmd <;> cases other <;> simp [respDispatch, known]

theorem respDispatch_keys {env : Env} {args : List Arg} (held : (respDispatch Table.api env args m).1.Has k) :
    m.Has k ∨ ∃ name key val opts, args = name :: key :: val :: opts ∧ nameOf name.text = some .set ∧
      k = storedKey key.text := by
  match args with
  | [] => exact .inl (respDispatch_nil Table.api env m ▸ held)
  | name :: rest =>
    cases calls : localCall env.now name rest with
    | some call =>
      have run : (respDispatch Table.api env (name :: rest) m).1 = (call.run Table.api env.now m).1 :=
        congrArg Prod.fst (respDispatch_call calls m)
      rw [run] at held
      obtain held | ⟨key, val, o, rfl, same⟩ := Call.run_keys call env.now held
      · exact .inl held
      · obtain ⟨known, a, b, opts, rfl, rfl⟩ := localCall_set calls
        exact .inr ⟨name, a, b, opts, rfl, known, same⟩
    | none =>
      obtain same | same : (respDispatch Table.api env (name :: rest) m).1 = m ∨ _ = Table.api.flush m :=
        respDispatch_other m calls
      · rw [same] at held
        exact .inl held
      · rw [same] at held
        exact absurd rfl held

theorem proxyExec_keys_regular {now : Nat} {op : ProxyOp} {name key : Arg} {more : List Arg}
    (held : (proxyExec Table.api now (.regular op (name :: key :: more)) m).1.Has k) :
    m.Has k ∨ (setLike op = true ∧ k = storedKey key.text) := by
  have run : (proxyExec Table.api now (.regular op (name :: key :: more)) m).1 =
      (Table.guarded key.text (fun s => (proxyCall now op key more).run Table.api now s) m).1 :=
    congrArg (fun run => (run m).1) (runRequest_regular now op name key more)
  rw [run, Table.guarded] at held
  split at held
  · exact .inl held
  · obtain held | ⟨key', val, o, call, same⟩ := Call.run_keys _ now held
    · exact .inl held
    · cases op <;> cases more <;> cases call <;> exact .inr ⟨rfl, same⟩

theorem proxyExec_keys_part {now : Nat} {req : Request} (part : ∀ op args, req ≠ .regular op args)
    (held : (proxyExec Table.api now req m).1.Has k) : m.Has k := by
  cases req with
  | regular op args => exact absurd rfl (part op args)
  | mgetPart q =>
    have run : (proxyExec Table.api now (.mgetPart q) m).1 = _ := congrArg (fun run => (run m).1) (runRequest_mgetPart now q)
    rw [run, Table.guarded] at held
    split at held
    · exact held
    · exact Table.Has.of_keyGet held
  | delPart q =>
    have run : (proxyExec Table.api now (.delPart q) m).1 = _ := congrArg (fun run => (run m).1) (runRequest_delPart now q)
    rw [run, Table.guarded] at held
    split at held
    · exact held
    · exact Table.Has.of_keyDelete held
  | dbsize => exact held

end Keys

section Routes

variable {d : Dispatcher} {isLocked : Bytes → Bool} {name : Arg} {rest : List Arg} {op : ProxyOp}

def Route.sentOp : Route → Option ProxyOp
  | .execLocalKey op | .send _ op => some op
  | _ => none

theorem Dispatcher.forward_op (key : Arg) (op : ProxyOp) : (d.forward key op).sentOp = some op := by
  unfold forward
  simp only
  split <;> rfl

theorem Dispatcher.fast_op {key : Arg} {op' : ProxyOp} (sent : (d.fast isLocked key op').sentOp = some op) :
    op' = op ∧ d.fast isLocked key op' = d.forward key op := by
  unfold fast at sent ⊢
  split at sent
  · cases sent
  · next away =>
    rw [forward_op, Option.some.injEq] at sent
    rw [if_neg away, sent]
    exact ⟨rfl, rfl⟩

def Forwarded (d : Dispatcher) (isLocked : Bytes → Bool) (name : Arg) (rest : List Arg) (op : ProxyOp) : Prop :=
  ∃ key more, rest = key :: more ∧ d.respDispatchProxy isLocked (name :: rest) = d.forward key op ∧
    (setLike op = true → nameOf name.text = some .set ∧ more ≠ [])

theorem Forwarded.of_fast {key : Arg} {more : List Arg} {op' : ProxyOp}
    (route : d.respDispatchProxy isLocked (name :: key :: more) = d.fast isLocked key op')
    (sent : (d.respDispatchProxy isLocked (name :: key :: more)).sentOp = some op)
    (set : setLike op' = true → nameOf name.text = some .set ∧ more ≠ []) : Forwarded d isLocked name (key :: more) op := by
  rw [route] at sent
  obtain ⟨rfl, forward⟩ := Dispatcher.fast_op sent
  exact ⟨key, more, rfl, route.trans forward, set⟩

theorem Stays.not_sent (stays : Stays (name :: rest)) (shared : d.isShared = true)
    (sent : (d.respDispatchProxy isLocked (name :: rest)).sentOp = some op) : Forwarded d isLocked name rest op := by
  rw [stays d shared isLocked] at sent
  cases sent

theorem forwarded_set (known : nameOf name.text = some .set) (shared : d.isShared = true)
    (sent : (d.respDispatchProxy isLocked (name :: rest)).sentOp = some op) : Forwarded d isLocked name rest op := by
  match rest with
  | key :: val :: opts =>
    by_cases letters : name.text.map toupper = ascii "SET"
    · by_cases few : opts.length ≤ 3
      · exact .of_fast (forwards_set_letters letters few d shared isLocked) sent fun _ => ⟨known, by simp⟩
      · exact (stays_set_many letters (by omega)).not_sent shared sent
    · exact .of_fast (forwards_set_words known letters d shared isLocked) sent fun _ => ⟨known, by simp⟩
  | [] => exact (stays_set_few known (by simp)).not_sent shared sent
  | [_] => exact (stays_set_few known (by simp)).not_sent shared sent

theorem forwarded_get (known : nameOf name.text = some .get) (shared : d.isShared = true)
    (sent : (d.respDispatchProxy isLocked (name :: rest)).sentOp = some op) : Forwarded d isLocked name rest op := by
  by_cases one : rest.length = 1
  · obtain ⟨key, rfl⟩ := List.length_eq_one_iff.1 one
    exact .of_fast (forwards_get known d shared isLocked) sent (by simp [setLike])
  · exact (stays_get known one).not_sent shared sent

theorem setLike_proxyOp {cmd : Name} (sent : cmd.proxyOp = some op) : setLike op = false := by
  cases cmd <;> cases sent <;> rfl

theorem not_sent_other (known : ∀ cmd, nameOf name.text = some cmd → cmd ≠ .get ∧ cmd ≠ .set ∧ (cmd.proxyOp = none ∨ rest = []))
    (sent : (d.respDispatchProxy isLocked (name :: rest)).sentOp = some op) : Forwarded d isLocked name rest op := by
  exfalso
  have notGet : name.text.map toupper ≠ ascii "GET" := fun upper => (known _ (nameOf_get upper)).1 rfl
  have notSet : name.text.map toupper ≠ ascii "SET" := fun upper => (known _ (nameOf_set upper)).2.1 rfl
  cases named : nameOf name.text with
  | none =>
    simp only [Dispatcher.respDispatchProxy, if_neg notGet, if_neg notSet, named] at sent
    cases rest with
    | nil => cases sent
    | cons key more => (repeat' split at sent) <;> cases sent
  | some cmd =>
    obtain ⟨get, set, quiet⟩ := known cmd named
    simp only [Dispatcher.respDispatchProxy, if_neg notGet, if_neg notSet, named] at sent
    cases rest with
    | nil => cases cmd <;> simp only at sent <;> (repeat' split at sent) <;> cases sent
    | cons key more =>
      cases cmd <;> simp [Name.proxyOp] at get set quiet <;> simp only at sent <;> (repeat' split at sent) <;> cases sent

theorem Dispatcher.forwarded (shared : d.isShared = true)
    (sent : (d.respDispatchProxy isLocked (name :: rest)).sentOp = some op) : Forwarded d isLocked name rest op := by
  cases known : nameOf name.text with
  | none => exact not_sent_other (fun cmd named => by rw [known] at named; cases named) sent
  | some cmd =>
    by_cases get : cmd = .get
    · subst get
      exact forwarded_get known shared sent
    by_cases set : cmd = .set
    · subst set
      exact forwarded_set known shared sent
    have other : (cmd.proxyOp = none ∨ rest = []) → Forwarded d isLocked name rest op := by
      intro quiet
      refine not_sent_other (fun cmd' named => ?_) sent
      obtain rfl : cmd = cmd' := Option.some.inj (known.symm.trans named)
      exact ⟨get, set, quiet⟩
    cases proxied : cmd.proxyOp with
    | none => exact other (.inl proxied)
    | some op' =>
      match rest with
      | [] => exact other (.inr rfl)
      | key :: more =>
        by_cases unary : cmd.unary = true ∧ more ≠ []
        · exact (stays_unary known ⟨get, set⟩ unary.1 unary.2).not_sent shared sent
        · have forwards : Forwards name key more op' := forwards_slow known ⟨get, set⟩ proxied (by simpa using unary)
          exact .of_fast (forwards d shared isLocked) sent (by simp [setLike_proxyOp proxied])

theorem here_set {key val : Arg} {opts : List Arg} (known : nameOf name.text = some .set) (shared : d.isShared = true)
    (here : d.respDispatchProxy isLocked (name :: key :: val :: opts) = .here) :
    shardForKey key.text d.numShards = d.self ∨ (name.text.map toupper = ascii "SET" ∧ 3 < opts.length) := by
  have fast : ∀ op, d.fast isLocked key op = .here → shardForKey key.text d.numShards = d.self := by
    intro op here
    unfold Dispatcher.fast at here
    split at here
    · next own => exact own.1
    · unfold Dispatcher.forward at here
      simp only at here
      split at here <;> cases here
  by_cases letters : name.text.map toupper = ascii "SET"
  · by_cases few : opts.length ≤ 3
    · rw [forwards_set_letters letters few d shared isLocked] at here
      exact .inl (fast _ here)
    · exact .inr ⟨letters, by omega⟩
  · rw [forwards_set_words known letters d shared isLocked] at here
    exact .inl (fast _ here)

theorem forward_ne_mset (key : Arg) (op : ProxyOp) : d.forward key op ≠ .mset := by
  unfold Dispatcher.forward
  simp only
  split <;> simp

theorem fast_ne_mset (key : Arg) (op : ProxyOp) : d.fast isLocked key op ≠ .mset := by
  unfold Dispatcher.fast
  split
  · simp
  · exact forward_ne_mset key op

theorem nameOf_mset (route : d.respDispatchProxy isLocked (name :: rest) = .mset) : nameOf name.text = some .mset := by
  by_cases get : name.text.map toupper = ascii "GET"
  · simp only [Dispatcher.respDispatchProxy, if_pos get] at route
    (repeat' split at route) <;> first | cases route | exact absurd route (fast_ne_mset _ _)
  by_cases set : name.text.map toupper = ascii "SET"
  · simp only [Dispatcher.respDispatchProxy, if_neg get, if_pos set] at route
    (repeat' split at route) <;> first | cases route | exact absurd route (fast_ne_mset _ _)
  cases named : nameOf name.text with
  | none =>
    simp only [Dispatcher.respDispatchProxy, if_neg get, if_neg set, named] at route
    (repeat' split at route) <;> cases route
  | some cmd =>
    simp only [Dispatcher.respDispatchProxy, if_neg get, if_neg set, named] at route
    cases cmd <;> first
      | rfl
      | simp only at route
        (repeat' split at route) <;> first | cases route | exact absurd route (forward_ne_mset _ _)

end Routes

section Home

def Request.Home (n shard : Nat) : Request → Prop
  | .regular op args =>
    ∃ name key more, args = name :: key :: more ∧ (setLike op = true → shardForKey (storedKey key.text) n = shard)
  | _ => True

def Table.Home (n shard : Nat) (m : Table) : Prop := ∀ k, m.Has k → shardForKey k n = shard

structure Server.Home (n : Nat) (s : Server) : Prop where
  tables : ∀ shard, (s.tables shard).Home n shard
  requests : ∀ r ∈ s.requests, r.2.Home n r.1
  pairs : ∀ p ∈ s.pairs, shardForKey (storedKey p.2) n = p.1

variable {n shard now : Nat} {s : Server}

theorem Table.Home.proxyExec {m : Table} {req : Request} (now : Nat) (home : m.Home n shard) (meant : req.Home n shard) :
    (proxyExec Table.api now req m).1.Home n shard := by
  intro k held
  cases req with
  | regular op args =>
    obtain ⟨name, key, more, rfl, stores⟩ := meant
    obtain held | ⟨set, rfl⟩ := proxyExec_keys_regular held
    · exact home k held
    · exact stores set
  | _ => exact home k (proxyExec_keys_part (by simp) held)

namespace Server

theorem Home.setTable (home : s.Home n) {t : Table} (inside : t.Home n shard) : (s.setTable shard t).Home n where
  tables i := by
    by_cases same : i = shard
    · subst same
      simpa [Server.setTable] using inside
    · simpa [Server.setTable, same] using home.tables i
  requests := home.requests
  pairs := home.pairs

theorem Home.post (home : s.Home n) {more : List (Nat × Request)} (meant : ∀ r ∈ more, r.2.Home n r.1) :
    (s.post more).Home n where
  tables := home.tables
  requests r member := (List.mem_append.1 member).elim (home.requests r) (meant r)
  pairs := home.pairs

section Accept

variable {name key : Arg} {rest more : List Arg} {op : ProxyOp} {isLocked : Bytes → Bool}

theorem Homed.request (homed : Homed n shard (name :: key :: more))
    (set : setLike op = true → nameOf name.text = some .set ∧ more ≠ []) :
    (Request.regular op (name :: key :: more)).Home n (shardForKey key.text n) := by
  refine ⟨name, key, more, rfl, fun stores => ?_⟩
  obtain ⟨known, some⟩ := set stores
  obtain ⟨val, opts, rfl⟩ := List.exists_cons_of_ne_nil some
  simp only [Homed, known] at homed
  exact homed.2

theorem Homed.here (homed : Homed n shard (name :: rest)) (home : (s.tables shard).Home n shard)
    (here : ({ self := shard, numShards := n } : Dispatcher).respDispatchProxy isLocked (name :: rest) = .here) :
    (respDispatch Table.api { now := now } (name :: rest) (s.tables shard)).1.Home n shard := by
  intro k held
  obtain held | ⟨_, key, val, opts, args, known, rfl⟩ := respDispatch_keys held
  · exact home k held
  · cases args
    simp only [Homed, known] at homed
    obtain own | long := here_set known rfl here
    · exact homed.2.trans own
    · exact homed.2.trans (homed.1 long)

theorem Home.accept (home : s.Home n) {args : List Arg} (homed : Homed n shard args) : (s.accept n shard now args).Home n := by
  match args with
  | [] =>
    rw [Server.accept]
    simp only [Dispatcher.respDispatchProxy_nil]
    exact home
  | name :: rest =>
    have own := home.tables shard
    unfold Server.accept
    simp only
    cases route : ({ self := shard, numShards := n } : Dispatcher).respDispatchProxy (s.tables shard).isLocked (name :: rest)
    case nothing => exact home
    case here => exact home.setTable (homed.here own route)
    case execLocalKey op =>
      obtain ⟨key, more, rfl, forward, set⟩ := Dispatcher.forwarded rfl (congrArg Route.sentOp route)
      have owner : shardForKey key.text n = shard := by
        by_contra away
        rw [route, Dispatcher.forward, if_neg away] at forward
        cases forward
      have meant := homed.request set
      rw [owner] at meant
      have after := home.setTable (own.proxyExec now meant)
      simp only
      split
      · exact after.post (by simpa using meant)
      · exact after
    case send owner op =>
      obtain ⟨key, more, rfl, forward, set⟩ := Dispatcher.forwarded rfl (congrArg Route.sentOp route)
      have same : owner = shardForKey key.text n := by
        rw [route] at forward
        unfold Dispatcher.forward at forward
        simp only at forward
        split at forward
        · cases forward
        · injection forward
      subst same
      exact home.post (by simpa using homed.request set)
    case mget => exact home.post (by simp [Request.Home])
    case del => exact home.post (by simp [Request.Home])
    case dbsize => exact home.post (by simp [Request.Home])
    case mset =>
      have known := nameOf_mset route
      simp only [Homed, known] at homed
      refine ⟨home.tables, home.requests, fun p member => ?_⟩
      obtain member | member := List.mem_append.1 member
      · exact home.pairs p member
      · obtain ⟨key, given, rfl⟩ := List.mem_map.1 member
        exact homed key given

end Accept

theorem Home.step (home : s.Home n) {event : Event} {next : Server} (allowed : Allowed n s event)
    (moved : s.step n event = some next) : next.Home n := by
  cases event with
  | accept shard now args =>
    cases moved
    exact home.accept allowed
  | serve index now =>
    simp only [Server.step] at moved
    split at moved
    next shard req found =>
      cases moved
      have member := List.mem_of_getElem? found
      have after := home.setTable ((home.tables shard).proxyExec now (home.requests _ member))
      split
      · exact after
      · exact ⟨after.tables, fun r left => home.requests r (List.mem_of_mem_eraseIdx left), after.pairs⟩
    · cases moved
  | mset index entry =>
    simp only [Server.step] at moved
    split at moved
    next shard key v found =>
      cases moved
      refine home.setTable fun k held => ?_
      obtain held | rfl := held.of_put
      · exact home.tables shard k held
      · have owned := home.pairs _ (List.mem_of_getElem? found)
        exact owned
    next shard key found =>
      cases moved
      exact home.setTable fun k held => home.tables shard k held.of_remove
    · cases moved
  | drop shard key =>
    cases moved
    exact home.setTable fun k held => home.tables shard k held.of_remove
  | overwrite index args => exact allowed.elim
  | overwritePair index key => exact allowed.elim

theorem Home.initial : ({} : Server).Home n where
  tables _ _ held := absurd rfl held
  requests _ member := by cases member
  pairs _ member := by cases member

theorem keys_at_home (n : Nat) {s : Server} (reached : Reaches (step n) (Allowed n) {} s) :
    (∀ shard key, (s.tables shard).map key ≠ none → shardForKey key n = shard) ∧
    ∀ shard other key, (s.tables shard).map key ≠ none → (s.tables other).map key ≠ none → shard = other := by
  have home : s.Home n := reached.invariant Home.initial fun home allowed moved => home.step allowed moved
  refine ⟨home.tables, fun shard other key one two => ?_⟩
  exact (home.tables shard key one).symm.trans (home.tables other key two)

def stranger : Nat := 1 - shardForKey (ascii "k") 2

def strangeSet (options : List String) : Event := .accept stranger 9 ((["SET", "k", "v"] ++ options).map arg)

theorem keys_at_home_sent : ∃ s, Reaches (step 2) (Allowed 2) {} s ∧
    (s.tables (shardForKey (ascii "k") 2)).map (ascii "k") ≠ none ∧
    ∀ shard, (s.tables shard).map (ascii "k") ≠ none → shard = shardForKey (ascii "k") 2 := by
  have known : nameOf (arg "SET").text = some .set := by decide +kernel
  have allowed : Allowed 2 {} (strangeSet []) := by
    simp only [Allowed, strangeSet, Homed, List.append_nil, List.map_cons, known]
    decide +kernel
  have stored : ((({} : Server).step 2 (strangeSet [])).bind fun s => (s.step 2 (.serve 0 9)).map
      fun s => ((s.tables (shardForKey (ascii "k") 2)).map (ascii "k")).isSome) = some true := by decide +kernel
  obtain ⟨sent, accepted, stored⟩ := Option.bind_eq_some_iff.1 stored
  obtain ⟨s, served, stored⟩ := Option.map_eq_some_iff.1 stored
  have free : Allowed 2 sent (.serve 0 9) := trivial
  have reached : Reaches (step 2) (Allowed 2) {} s := .tail (.tail .refl allowed accepted) free served
  have held := Option.isSome_iff_ne_none.1 stored
  exact ⟨s, reached, held, fun shard there => (keys_at_home 2 reached).2 shard _ _ there held⟩

/-- A SET with seven arguments is stored by the shard that accepts it, whoever owns the key; and a request whose
arguments are overwritten by the next one stores the key of that. -/
theorem keys_stray : (∃ s shard, Reaches (step 2) (fun _ _ => True) {} s ∧
      (s.tables shard).map (ascii "k") ≠ none ∧ shardForKey (ascii "k") 2 ≠ shard) ∧
    (shardForKey (ascii "a") 2 = 1 ∧ shardForKey (ascii "b") 2 = 0 ∧
      (follow (step 2) (fun _ _ => true)
        [.accept 0 9 (["SET", "a", "1"].map arg), .overwrite 0 (["SET", "b", "2"].map arg), .serve 0 9] {}).map
          (fun s => ((s.tables 1).map (ascii "b")).isSome) = some true) := by
  have stored : ((({} : Server).step 2 (strangeSet ["EX", "10", "EX", "10"])).map
      fun s => ((s.tables stranger).map (ascii "k")).isSome) = some true := by decide +kernel
  obtain ⟨s, accepted, stored⟩ := Option.map_eq_some_iff.1 stored
  refine ⟨⟨s, stranger, .tail .refl trivial accepted, Option.isSome_iff_ne_none.1 stored, by decide +kernel⟩, ?_⟩
  exact ⟨by decide +kernel, by decide +kernel, by decide +kernel⟩

end Server

end Home

end FreakV.Commands
