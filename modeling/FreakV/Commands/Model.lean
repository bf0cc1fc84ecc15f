import FreakV.HashTable.Model
import FreakV.Net.Pipeline

namespace FreakV.Commands

open HashTable (PutFlags)
open Net (ascii digitsOf PipelineSlot Reply)

/-- An argument, and the bytes that follow it in the read buffer. -/
structure Arg where
  text : Bytes
  behind : Bytes := [13, 10]
deriving DecidableEq

def toupper (b : UInt8) : UInt8 := if 97 ≤ b ∧ b ≤ 122 then b - 32 else b

def word (limit : Nat) (text : Bytes) : Bytes := ((text.take limit).map toupper).takeWhile (· ≠ 0)

inductive Name
  | ping
  | echo
  | set
  | persist
  | expireat
  | pexpireat
  | get
  | del
  | exists_
  | strlen
  | expire
  | pexpire
  | ttl
  | pttl
  | type
  | cluster
  | info
  | dbsize
  | flushdb
  | flushall
  | command
  | client
  | select
  | hello
  | mget
  | mset
  | config
  | reset
deriving DecidableEq

def Name.table : List (String × Name) :=
  [("PING", .ping), ("ECHO", .echo), ("SET", .set), ("PERSIST", .persist), ("EXPIREAT", .expireat),
    ("PEXPIREAT", .pexpireat), ("GET", .get), ("DEL", .del), ("EXISTS", .exists_), ("STRLEN", .strlen),
    ("EXPIRE", .expire), ("PEXPIRE", .pexpire), ("TTL", .ttl), ("PTTL", .pttl), ("TYPE", .type),
    ("CLUSTER", .cluster), ("INFO", .info), ("DBSIZE", .dbsize), ("FLUSHDB", .flushdb), ("FLUSHALL", .flushall),
    ("COMMAND", .command), ("CLIENT", .client), ("SELECT", .select), ("HELLO", .hello), ("MGET", .mget),
    ("MSET", .mset), ("CONFIG", .config), ("RESET", .reset)]

def nameOf (name : Bytes) : Option Name := (Name.table.find? fun entry => ascii entry.1 = word 31 name).map Prod.snd

inductive ProxyOp
  | get
  | set
  | setNx
  | setXx
  | del
  | exists_
  | ttl
  | pttl
  | expire
  | pexpire
  | persist
  | expireat
  | pexpireat
  | type
  | strlen
deriving DecidableEq

inductive Request
  | regular (op : ProxyOp) (args : List Arg)
  | mgetPart (key : Bytes)
  | delPart (key : Bytes)
  | dbsize
deriving DecidableEq

/-- The functions of a shard that commands call. `lockDefer` is the part of `mset_check_lock_defer` behind its test of
the lock bit. -/
structure ShardApi (σ : Type) where
  isLocked : σ → Bytes → Bool
  lockDefer : σ → Request → σ × Bool
  keySet : σ → Bytes → Bytes → Nat → PutFlags → σ × Bool
  keyGet : σ → Bytes → Nat → σ × Option Bytes
  keyDelete : σ → Bytes → σ × Bool
  keyExpire : σ → Bytes → Nat → σ × Bool
  expireGet : σ → Bytes → Nat
  used : σ → Nat
  flush : σ → σ

def noExpire : Nat := 2 ^ 64 - 1

def wrap (n : Int) : Nat := (n % 2 ^ 64).toNat

def shardKeyTtl (exp cur : Nat) (ms : Bool) : Int :=
  if exp = noExpire then -2
  else if exp = 0 then -1
  else if exp ≤ cur then 0
  else if ms then ((exp - cur : Nat) : Int).bmod (2 ^ 64)
  else (((exp - cur + 999) % 2 ^ 64 / 1000 : Nat) : Int)

def number (arg : Arg) : Int := PipelineSlot.strtoll (arg.text.take 31)

def numberInPlace (arg : Arg) : Int := PipelineSlot.strtoll (arg.text ++ arg.behind)

def errText (msg : String) : Bytes := ascii "-ERR " ++ ascii msg ++ ascii "\r\n"

def intText (n : Nat) : Bytes := ascii ":" ++ digitsOf n ++ ascii "\r\n"

structure SetOptions where
  flags : PutFlags := .none
  keepttl : Bool := false
  expire : Nat := 0
deriving DecidableEq

def textAt (args : List Arg) (i : Nat) : Bytes := (args[i]?).elim [] Arg.text

section Local

/-- What `resp_dispatch` leaves behind: the fields of the slot, or bytes that it has written itself. -/
structure Answer where
  reply : Reply := { replyType := .none }
  text : Bytes := []
deriving DecidableEq

namespace Answer

def ok : Answer := { reply := { replyType := .ok } }
def pong : Answer := { reply := { replyType := .pong } }
def nil : Answer := { reply := { replyType := .nil } }
def int (n : Int) : Answer := { reply := { replyType := .int, replyInt := n } }
def err (msg : String) : Answer := { reply := { replyType := .err, replyBuf := some (ascii msg) } }
def static (text : String) : Answer := { reply := { replyType := .bufStatic, replyBuf := some (ascii text) } }
def written (text : Bytes) : Answer := { text := text }

def kv : Option Bytes → Answer
  | some value => { reply := { replyType := .kvObj, kvObj := some value } }
  | none => nil

end Answer

-- The option loop of SET in resp_dispatch.
def localOptions (now : Nat) (o : SetOptions) : List Arg → SetOptions
  | [] => o
  | opt :: rest =>
    if word 15 opt.text = ascii "NX" then localOptions now { o with flags := .nx } rest
    else if word 15 opt.text = ascii "XX" then localOptions now { o with flags := .xx } rest
    else if word 15 opt.text = ascii "KEEPTTL" then localOptions now { o with keepttl := true } rest
    else if word 15 opt.text = ascii "EX" then
      match rest with
      | value :: rest => localOptions now { o with expire := wrap (now + numberInPlace value * 1000) } rest
      | [] => o
    else if word 15 opt.text = ascii "PX" then
      match rest with
      | value :: rest => localOptions now { o with expire := wrap (now + numberInPlace value) } rest
      | [] => o
    else localOptions now o rest

structure Env where
  now : Nat
  clusterSlots : Bytes := []
deriving DecidableEq

variable {σ : Type} (api : ShardApi σ) (env : Env)

-- KEEPTTL keeps what ht_expire_get reads, unless there is no key or no expiry.
def keptExpire (s : σ) (key : Bytes) (o : SetOptions) : Nat :=
  let old := api.expireGet s key
  if o.keepttl ∧ old ≠ noExpire ∧ 0 < old then old else o.expire

def respDispatch (args : List Arg) (s : σ) : σ × Answer :=
  match args with
  | [] => (s, .err "empty command")
  | name :: rest =>
    match nameOf name.text with
    | some .ping =>
      match rest with
      | [] => (s, .pong)
      | arg :: _ => (s, .written (PipelineSlot.bulk arg.text))
    | some .echo =>
      match rest with
      | [] => (s, .written (errText "wrong number of arguments for 'echo' command"))
      | arg :: _ => (s, .written (PipelineSlot.bulk arg.text))
    | some .set =>
      match rest with
      | key :: val :: opts =>
        let o := localOptions env.now {} opts
        let (s, ok) := api.keySet s key.text val.text (keptExpire api s key.text o) o.flags
        (s, if ok then .ok else if o.flags ≠ .none then .nil else .err "OOM")
      | _ => (s, .written (errText "wrong number of args for SET"))
    | some .persist =>
      match rest with
      | [] => (s, .err "wrong number of args")
      | key :: _ =>
        let (s, done) := api.keyExpire s key.text 0
        (s, .int done.toNat)
    | some .expireat => expireAt 1000 rest
    | some .pexpireat => expireAt 1 rest
    | some .get =>
      match rest with
      | [key] =>
        let (s, v) := api.keyGet s key.text env.now
        (s, .kv v)
      | _ => (s, .err "wrong number of args for GET")
    | some .del =>
      match rest with
      | [] => (s, .err "wrong number of args for DEL")
      | keys =>
        let (s, deleted) := keys.foldl (fun (s, deleted) key =>
          let (s, done) := api.keyDelete s key.text
          (s, deleted + done.toNat)) (s, 0)
        (s, .int deleted)
    | some .exists_ =>
      match rest with
      | [] => (s, .err "wrong number of args for EXISTS")
      | key :: _ =>
        let (s, v) := api.keyGet s key.text env.now
        (s, .int v.isSome.toNat)
    | some .strlen =>
      match rest with
      | [] => (s, .err "wrong number of args for STRLEN")
      | key :: _ =>
        let (s, v) := api.keyGet s key.text env.now
        (s, .int (v.elim 0 List.length : Nat))
    | some .expire => expireIn 1000 rest
    | some .pexpire => expireIn 1 rest
    | some .ttl => ttl false rest
    | some .pttl => ttl true rest
    | some .type =>
      match rest with
      | [] => (s, .err "wrong number of args for TYPE")
      | key :: _ =>
        let (s, v) := api.keyGet s key.text env.now
        (s, .static (if v.isSome then "+string\r\n" else "+none\r\n"))
    | some .cluster =>
      match rest with
      | [] => (s, .written (errText "wrong args for CLUSTER"))
      | sub :: _ =>
        (s, .written (if word 31 sub.text = ascii "SLOTS" ∨ word 31 sub.text = ascii "SHARDS" then env.clusterSlots
          else ascii "+OK\r\n"))
    | some .info =>
      (s, .written (PipelineSlot.bulk (ascii "# Server\r\nvalkyd_version:0.1.0\r\n# Cluster\r\ncluster_enabled:1\r\n")))
    | some .dbsize => (s, .written (intText (api.used s)))
    | some .flushdb | some .flushall => (api.flush s, .written (ascii "+OK\r\n"))
    | some .command => (s, .written (ascii "*0\r\n"))
    | some .client | some .select => (s, .written (ascii "+OK\r\n"))
    | some .hello =>
      (s, .written (ascii ("*14\r\n$6\r\nserver\r\n$7\r\nvalkyd\r\n$7\r\nversion\r\n$5\r\n0.1.0\r\n$5\r\nproto\r\n:2\r\n" ++
        "$2\r\nid\r\n:1\r\n$4\r\nmode\r\n$7\r\ncluster\r\n$4\r\nrole\r\n$6\r\nmaster\r\n$7\r\nmodules\r\n*0\r\n")))
    | some .mget | some .mset | some .config | some .reset | none => (s, .written (errText "unknown command"))
where
  expireAt (unit : Int) : List Arg → σ × Answer
    | key :: n :: _ =>
      let (s, done) := api.keyExpire s key.text (wrap (number n * unit))
      (s, .int done.toNat)
    | _ => (s, .err "wrong number of args")
  expireIn (unit : Int) : List Arg → σ × Answer
    | key :: n :: _ =>
      let exp := if 0 < number n then wrap (env.now + number n * unit) else 1
      let (s, done) := api.keyExpire s key.text exp
      (s, .int done.toNat)
    | _ => (s, .err "wrong number of args")
  ttl (ms : Bool) : List Arg → σ × Answer
    | key :: _ => (s, .int (shardKeyTtl (api.expireGet s key.text) env.now ms))
    | [] => (s, .err "wrong number of args")

end Local

section Proxy

-- The option loop of SET in proxy_exec. NX and XX come with the request.
def proxyOptions (cur : Nat) (o : SetOptions) : List Arg → SetOptions
  | [] => o
  | opt :: rest =>
    if word 15 opt.text = ascii "EX" then
      match rest with
      | value :: rest =>
        proxyOptions cur (if 0 < number value then { o with expire := wrap (cur + number value * 1000) } else o) rest
      | [] => o
    else if word 15 opt.text = ascii "PX" then
      match rest with
      | value :: rest =>
        proxyOptions cur (if 0 < number value then { o with expire := wrap (cur + number value) } else o) rest
      | [] => o
    else if word 15 opt.text = ascii "KEEPTTL" then proxyOptions cur { o with keepttl := true } rest
    else proxyOptions cur o rest

def ProxyOp.flags : ProxyOp → PutFlags
  | .setNx => .nx
  | .setXx => .xx
  | _ => .none

def Request.key : Request → Option Bytes
  | .regular _ args => (args[1]?).map Arg.text
  | .mgetPart key | .delPart key => some key
  | .dbsize => none

def errReply (msg : String) : Reply := { replyType := .err, replyBuf := some (ascii msg) }

def kvReply : Option Bytes → Reply
  | some value => { replyType := .kvObj, kvObj := some value }
  | none => { replyType := .nil }

def intReply (n : Int) : Reply := { replyType := .int, replyInt := n }

def bufReply (text : Bytes) : Reply := { replyType := .buf, replyBuf := some text }

variable {σ : Type} (api : ShardApi σ)

def msetCheckLockDefer (req : Request) (s : σ) : σ × Bool :=
  match req.key with
  | some key => if api.isLocked s key then api.lockDefer s req else (s, false)
  | none => (s, false)

-- The switch of proxy_exec for the commands that carry their arguments.
def proxySwitch (cur : Nat) (op : ProxyOp) (args : List Arg) (s : σ) : σ × Reply :=
  let key := textAt args 1
  match op with
  | .get =>
    let (s, v) := api.keyGet s key cur
    (s, kvReply v)
  | .set | .setNx | .setXx =>
    let o := proxyOptions cur { flags := op.flags } (args.drop 3)
    let (s, ok) := api.keySet s key (textAt args 2) (keptExpire api s key o) o.flags
    (s, if ok then { replyType := .ok } else if o.flags ≠ .none then { replyType := .nil } else errReply "OOM")
  | .del =>
    let (s, count) := (args.drop 1).foldl (fun (s, count) key =>
      let (s, done) := api.keyDelete s key.text
      (s, count + done.toNat)) (s, 0)
    (s, intReply count)
  | .exists_ =>
    let (s, v) := api.keyGet s key cur
    (s, intReply v.isSome.toNat)
  | .ttl => (s, intReply (shardKeyTtl (api.expireGet s key) cur false))
  | .pttl => (s, intReply (shardKeyTtl (api.expireGet s key) cur true))
  | .expire => expireIn key 1000
  | .pexpire => expireIn key 1
  | .persist =>
    let (s, done) := api.keyExpire s key 0
    (s, intReply done.toNat)
  | .expireat => expireAt key 1000
  | .pexpireat => expireAt key 1
  | .type =>
    let (s, v) := api.keyGet s key cur
    (s, bufReply (ascii (if v.isSome then "+string\r\n" else "+none\r\n")))
  | .strlen =>
    let (s, v) := api.keyGet s key cur
    (s, intReply (v.elim 0 List.length : Nat))
where
  expireIn (key : Bytes) (unit : Int) : σ × Reply :=
    match args[2]? with
    | some n =>
      let exp := if 0 < number n then wrap (cur + number n * unit) else 1
      let (s, done) := api.keyExpire s key exp
      (s, intReply done.toNat)
    | none => (s, errReply "wrong number of arguments")
  expireAt (key : Bytes) (unit : Int) : σ × Reply :=
    match args[2]? with
    | some n =>
      let (s, done) := api.keyExpire s key (wrap (number n * unit))
      (s, intReply done.toNat)
    | none => (s, errReply "wrong number of arguments")

def proxyExec (cur : Nat) (req : Request) (s : σ) : σ × Option Reply :=
  match msetCheckLockDefer api req s with
  | (s, true) => (s, none)
  | (s, false) =>
    match req with
    | .regular op args =>
      if args = [] then (s, some (errReply "invalid proxy cmd"))
      else
        let (s, reply) := proxySwitch api cur op args s
        (s, some reply)
    | .mgetPart key =>
      let (s, v) := api.keyGet s key cur
      (s, some (kvReply v))
    | .delPart key =>
      let (s, deleted) := api.keyDelete s key
      (s, some (bufReply (intText deleted.toNat)))
    | .dbsize => (s, some (bufReply (intText (api.used s))))

end Proxy

section Dispatch

/-- What `resp_dispatch_proxy` decides: nothing at all, `resp_dispatch` on the shard itself, `proxy_exec_local_key`, a
request to the owner, or one of the commands that go out in parts. -/
inductive Route
  | nothing
  | here
  | execLocalKey (op : ProxyOp)
  | send (owner : Nat) (op : ProxyOp)
  | mget
  | mset
  | del
  | dbsize
deriving DecidableEq

def setOp : PutFlags → ProxyOp
  | .none => .set
  | .nx => .setNx
  | .xx => .setXx

def letterFlags (opts : List Arg) : PutFlags :=
  opts.foldl (fun flags opt =>
    if opt.text.map toupper = ascii "NX" then .nx else if opt.text.map toupper = ascii "XX" then .xx else flags) .none

def wordFlags (opts : List Arg) : PutFlags :=
  opts.foldl (fun flags opt =>
    if word 15 opt.text = ascii "NX" then .nx else if word 15 opt.text = ascii "XX" then .xx else flags) .none

structure Dispatcher where
  self : Nat
  numShards : Nat
  isShared : Bool := true

variable (d : Dispatcher) (isLocked : Bytes → Bool)

def Dispatcher.forward (key : Arg) (op : ProxyOp) : Route :=
  let owner := shardForKey key.text d.numShards
  if owner = d.self then .execLocalKey op else .send owner op

def Dispatcher.fast (key : Arg) (op : ProxyOp) : Route :=
  if shardForKey key.text d.numShards = d.self ∧ isLocked key.text = false then .here else d.forward key op

def Dispatcher.respDispatchProxy : List Arg → Route
  | [] => .nothing
  | name :: rest =>
    if name.text.map toupper = ascii "GET" then
      match rest with
      | [key] => if d.isShared then d.fast isLocked key .get else .here
      | _ => .here
    else if name.text.map toupper = ascii "SET" then
      match rest with
      | key :: _ :: opts =>
        if 3 < opts.length ∨ ¬d.isShared then .here else d.fast isLocked key (setOp (letterFlags opts))
      | _ => .here
    else
      match nameOf name.text with
      | some .ping | some .echo | some .command | some .cluster | some .flushdb | some .flushall | some .select
      | some .config | some .client | some .info | some .hello | some .reset => .here
      | some .dbsize => if d.isShared then .dbsize else .here
      | cmd =>
        match rest with
        | [] => .here
        | key :: more =>
          if ¬d.isShared then .here
          else if shardForKey key.text d.numShards = d.self ∧ cmd ≠ some .mget ∧ cmd ≠ some .mset ∧ cmd ≠ some .del ∧
              isLocked key.text = false then .here
          else
            match cmd with
            | some .get => if more = [] then d.forward key .get else .here
            | some .set => if more = [] then .here else d.forward key (setOp (wordFlags (more.drop 1)))
            | some .del => .del
            | some .exists_ => if more = [] then d.forward key .exists_ else .here
            | some .ttl => if more = [] then d.forward key .ttl else .here
            | some .pttl => if more = [] then d.forward key .pttl else .here
            | some .type => if more = [] then d.forward key .type else .here
            | some .strlen => d.forward key .strlen
            | some .expire => d.forward key .expire
            | some .pexpire => d.forward key .pexpire
            | some .persist => d.forward key .persist
            | some .expireat => d.forward key .expireat
            | some .pexpireat => d.forward key .pexpireat
            | some .mget => .mget
            | some .mset => .mset
            | _ => .here

theorem Dispatcher.respDispatchProxy_nil : d.respDispatchProxy isLocked [] = .nothing := by
  rw [Dispatcher.respDispatchProxy]

theorem respDispatch_nil {σ : Type} (api : ShardApi σ) (env : Env) (s : σ) : (respDispatch api env [] s).1 = s := by
  rw [respDispatch]

end Dispatch

end FreakV.Commands
