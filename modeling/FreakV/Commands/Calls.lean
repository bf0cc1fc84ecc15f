import FreakV.Commands.Agreement

namespace FreakV.Commands

open HashTable (PutFlags)
open Net (ascii Reply)

inductive Reading
  | get
  | exists_
  | strlen
  | type
deriving DecidableEq

def Reading.reply : Reading → Option Bytes → Reply
  | .get, v => kvReply v
  | .exists_, v => intReply v.isSome.toNat
  | .strlen, v => intReply (v.elim 0 List.length : Nat)
  | .type, v => bufReply (ascii (if v.isSome then "+string\r\n" else "+none\r\n"))

inductive Call
  | read (what : Reading) (key : Bytes)
  | ttl (ms : Bool) (key : Bytes)
  | set (key val : Bytes) (o : SetOptions)
  | expire (key : Bytes) (time : Nat)
  | delete (keys : List Bytes)
  -- nothing but an answer
  | answer (text : Bytes)
deriving DecidableEq

def setReply (flags : PutFlags) (ok : Bool) : Reply :=
  if ok then { replyType := .ok } else if flags ≠ .none then { replyType := .nil } else errReply "OOM"

section Run

variable {σ : Type} (api : ShardApi σ)

def deleteOne (p : σ × Int) (key : Bytes) : σ × Int :=
  ((api.keyDelete p.1 key).1, p.2 + ((api.keyDelete p.1 key).2.toNat : Nat))

def deleteAll (keys : List Bytes) (s : σ) : σ × Int := keys.foldl (deleteOne api) (s, 0)

def Call.run (now : Nat) (s : σ) : Call → σ × Bytes
  | .read what key =>
    let (s, v) := api.keyGet s key now
    (s, replyBytes (what.reply v))
  | .ttl ms key => (s, replyBytes (intReply (shardKeyTtl (api.expireGet s key) now ms)))
  | .set key val o =>
    let (s, ok) := api.keySet s key val (keptExpire api s key o) o.flags
    (s, replyBytes (setReply o.flags ok))
  | .expire key time =>
    let (s, done) := api.keyExpire s key time
    (s, replyBytes (intReply done.toNat))
  | .delete keys =>
    let (s, count) := deleteAll api keys s
    (s, replyBytes (intReply count))
  | .answer text => (s, text)

theorem foldl_deleteOne (keys : List Bytes) (s : σ) (count : Int) :
    keys.foldl (deleteOne api) (s, count) = ((deleteAll api keys s).1, count + (deleteAll api keys s).2) := by
  induction keys generalizing s count with
  | nil => simp [deleteAll]
  | cons q rest ih =>
    have whole : deleteAll api (q :: rest) s = rest.foldl (deleteOne api) (deleteOne api (s, 0) q) := rfl
    rw [whole, List.foldl_cons, deleteOne, deleteOne, ih, ih, Int.zero_add, Int.add_assoc]

theorem deleteAll_cons (q : Bytes) (rest : List Bytes) (s : σ) :
    deleteAll api (q :: rest) s =
      ((deleteAll api rest (api.keyDelete s q).1).1,
        ((api.keyDelete s q).2.toNat : Nat) + (deleteAll api rest (api.keyDelete s q).1).2) := by
  rw [deleteAll, List.foldl_cons, deleteOne, foldl_deleteOne, Int.zero_add]

theorem deleteAll_nonneg (keys : List Bytes) (s : σ) : 0 ≤ (deleteAll api keys s).2 := by
  induction keys generalizing s with
  | nil => simp [deleteAll]
  | cons q rest ih =>
    have more := ih (api.keyDelete s q).1
    rw [deleteAll_cons]
    simp only
    omega

end Run

section Local

def expireIn (now : Nat) (unit : Int) (n : Arg) : Nat := if 0 < number n then wrap (now + number n * unit) else 1

def expireAt (unit : Int) (n : Arg) : Nat := wrap (number n * unit)

def timedCall (expire : Arg → Nat) : List Arg → Call
  | key :: n :: _ => .expire key.text (expire n)
  | _ => .answer (Answer.err "wrong number of args").bytes

def keyCall (call : Bytes → Call) (msg : String) : List Arg → Call
  | key :: _ => call key.text
  | [] => .answer (Answer.err msg).bytes

def localCall (now : Nat) (name : Arg) (rest : List Arg) : Option Call :=
  match nameOf name.text with
  | some .get =>
    match rest with
    | [key] => some (.read .get key.text)
    | _ => some (.answer (Answer.err "wrong number of args for GET").bytes)
  | some .set =>
    match rest with
    | key :: val :: opts => some (.set key.text val.text (localOptions now {} opts))
    | _ => some (.answer (Answer.written (errText "wrong number of args for SET")).bytes)
  | some .del =>
    match rest with
    | [] => some (.answer (Answer.err "wrong number of args for DEL").bytes)
    | keys => some (.delete (keys.map Arg.text))
  | some .exists_ => some (keyCall (.read .exists_) "wrong number of args for EXISTS" rest)
  | some .strlen => some (keyCall (.read .strlen) "wrong number of args for STRLEN" rest)
  | some .type => some (keyCall (.read .type) "wrong number of args for TYPE" rest)
  | some .ttl => some (keyCall (.ttl false) "wrong number of args" rest)
  | some .pttl => some (keyCall (.ttl true) "wrong number of args" rest)
  | some .persist => some (keyCall (.expire · 0) "wrong number of args" rest)
  | some .expire => some (timedCall (expireIn now 1000) rest)
  | some .pexpire => some (timedCall (expireIn now 1) rest)
  | some .expireat => some (timedCall (expireAt 1000) rest)
  | some .pexpireat => some (timedCall (expireAt 1) rest)
  | _ => none

variable {σ : Type} {api : ShardApi σ} {env : Env} {name : Arg} {rest : List Arg} {call : Call}

theorem deleteAll_eq (keys : List Arg) (s : σ) :
    keys.foldl (fun (p : σ × Int) key =>
      let (s, deleted) := p
      let (s, done) := api.keyDelete s key.text
      (s, deleted + done.toNat)) (s, 0) = deleteAll api (keys.map Arg.text) s := by
  rw [deleteAll, List.foldl_map]
  rfl

theorem respDispatch_call (calls : localCall env.now name rest = some call) (s : σ) :
    ((respDispatch api env (name :: rest) s).1, (respDispatch api env (name :: rest) s).2.bytes) = call.run api env.now s := by
  unfold localCall at calls
  cases known : nameOf name.text with
  | none => simp [known] at calls
  | some cmd =>
    rw [known] at calls
    simp only [respDispatch, known]
    cases cmd
    case get =>
      rcases rest with _ | ⟨key, _ | ⟨_, _⟩⟩ <;> cases calls
      · rfl
      · exact congrArg _ (Answer.bytes_kv _)
      · rfl
    case set =>
      rcases rest with _ | ⟨key, _ | ⟨val, opts⟩⟩ <;> cases calls
      · rfl
      · rfl
      · exact congrArg _ (Answer.bytes_set _ _)
    case del =>
      cases rest <;> cases calls
      · rfl
      · simp only [deleteAll_eq]
        rfl
    case exists_ | strlen | type | ttl | pttl | persist | expire | pexpire | expireat | pexpireat =>
      all_goals rcases rest with _ | ⟨_, _ | ⟨_, _⟩⟩ <;> cases calls <;> rfl
    all_goals cases calls

end Local

section Proxy

def proxyTimed (expire : Arg → Nat) (key : Arg) : List Arg → Call
  | n :: _ => .expire key.text (expire n)
  | [] => .answer (replyBytes (errReply "wrong number of arguments"))

def proxyCall (now : Nat) (op : ProxyOp) (key : Arg) (more : List Arg) : Call :=
  match op with
  | .get => .read .get key.text
  | .set | .setNx | .setXx => .set key.text (textAt more 0) (proxyOptions now { flags := op.flags } (more.drop 1))
  | .del => .delete ((key :: more).map Arg.text)
  | .exists_ => .read .exists_ key.text
  | .strlen => .read .strlen key.text
  | .type => .read .type key.text
  | .ttl => .ttl false key.text
  | .pttl => .ttl true key.text
  | .persist => .expire key.text 0
  | .expire => proxyTimed (expireIn now 1000) key more
  | .pexpire => proxyTimed (expireIn now 1) key more
  | .expireat => proxyTimed (expireAt 1000) key more
  | .pexpireat => proxyTimed (expireAt 1) key more

variable {σ : Type} {api : ShardApi σ} {now : Nat} {key : Arg} {more : List Arg}

theorem proxySwitch_call (name : Arg) (op : ProxyOp) (s : σ) :
    ((proxySwitch api now op (name :: key :: more) s).1, replyBytes (proxySwitch api now op (name :: key :: more) s).2) =
      (proxyCall now op key more).run api now s := by
  cases op
  case del =>
    simp only [proxySwitch, List.drop_succ_cons, List.drop_zero, deleteAll_eq]
    rfl
  case expire | pexpire | expireat | pexpireat => all_goals cases more <;> rfl
  all_goals rfl

end Proxy

end FreakV.Commands
