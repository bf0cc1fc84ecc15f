import FreakV.Commands.Table
import Mathlib.Data.List.TakeWhile

namespace FreakV.Commands

open HashTable (PutFlags)
open Net (ascii PipelineSlot Reply)

section Serve

def Answer.bytes (a : Answer) : Bytes := (({} : PipelineSlot).dispatch (.answered a.reply a.text)).serialize

def executedBytes (r : Reply) : Bytes := (({} : PipelineSlot).dispatch (.executed r)).serialize

def sentBytes (r : Reply) : Bytes := ((({} : PipelineSlot).dispatch .sent).answer r).serialize

def delHereBytes (r : Reply) : Bytes := (({} : PipelineSlot).dispatch (.multi .delPart 1 [r])).serialize

def delSentBytes (r : Reply) : Bytes := ((({} : PipelineSlot).dispatch (.multi .delPart 1 [])).answer r).serialize

variable {σ : Type} (api : ShardApi σ) (env : Env) (d : Dispatcher)

def serveHere (args : List Arg) (s : σ) : σ × Option Bytes :=
  match d.respDispatchProxy (api.isLocked s) args with
  | .here =>
    let (s, a) := respDispatch api env args s
    (s, some a.bytes)
  | .execLocalKey op =>
    let (s, r) := proxyExec api env.now (.regular op args) s
    (s, r.map executedBytes)
  | .del =>
    let (s, r) := proxyExec api env.now (.delPart (textAt args 1)) s
    (s, r.map delHereBytes)
  | _ => (s, none)

def serveThere (args : List Arg) (t s : σ) : σ × σ × Option Bytes :=
  match d.respDispatchProxy (api.isLocked t) args with
  | .here =>
    let (t, a) := respDispatch api env args t
    (t, s, some a.bytes)
  | .send _ op =>
    let (s, r) := proxyExec api env.now (.regular op args) s
    (t, s, r.map sentBytes)
  | .del =>
    let (s, r) := proxyExec api env.now (.delPart (textAt args 1)) s
    (t, s, r.map delSentBytes)
  | _ => (t, s, none)

end Serve

def SingleKey : List Arg → Prop
  | name :: rest =>
    match nameOf name.text with
    | some .del => rest.length ≤ 1
    | some .set | some .get | some .exists_ | some .strlen | some .expire | some .pexpire | some .expireat
    | some .pexpireat | some .persist | some .ttl | some .pttl | some .type => True
    | _ => False
  | [] => False

def Agree {σ : Type} (api : ShardApi σ) (env : Env) (numShards : Nat) (args : List Arg) (s t : σ) : Prop :=
  ∀ self other, shardForKey (textAt args 1) numShards = self → other ≠ self →
    serveThere api env { self := other, numShards := numShards } args t s =
      (t, (serveHere api env { self := self, numShards := numShards } args s))

section Bytes

def replyBytes (r : Reply) : Bytes := (({} : PipelineSlot).fill r .done).serialize

theorem sentBytes_eq (r : Reply) : sentBytes r = replyBytes r := rfl

theorem Answer.bytes_written (text : Bytes) : (Answer.written text).bytes = text := by cases text <;> rfl

theorem Answer.bytes_kv (v : Option Bytes) : (Answer.kv v).bytes = replyBytes (kvReply v) := by cases v <;> rfl

theorem Answer.bytes_set (ok : Bool) (flags : PutFlags) :
    (if ok then Answer.ok else if flags ≠ .none then .nil else .err "OOM").bytes =
      replyBytes (if ok then { replyType := .ok } else if flags ≠ .none then { replyType := .nil } else errReply "OOM") := by
  cases ok <;> cases flags <;> rfl

end Bytes

section Options

inductive Item
  | flag (flags : PutFlags)
  | keepttl
  | time (unit : Int) (value : Arg)
  | other
deriving DecidableEq

def items : List Arg → List Item
  | [] => []
  | opt :: rest =>
    if word 15 opt.text = ascii "NX" then .flag .nx :: items rest
    else if word 15 opt.text = ascii "XX" then .flag .xx :: items rest
    else if word 15 opt.text = ascii "KEEPTTL" then .keepttl :: items rest
    else if word 15 opt.text = ascii "EX" then
      match rest with
      | value :: rest => .time 1000 value :: items rest
      | [] => []
    else if word 15 opt.text = ascii "PX" then
      match rest with
      | value :: rest => .time 1 value :: items rest
      | [] => []
    else .other :: items rest

def localItem (now : Nat) (o : SetOptions) : Item → SetOptions
  | .flag flags => { o with flags := flags }
  | .keepttl => { o with keepttl := true }
  | .time unit value => { o with expire := wrap (now + numberInPlace value * unit) }
  | .other => o

def proxyItem (cur : Nat) (o : SetOptions) : Item → SetOptions
  | .keepttl => { o with keepttl := true }
  | .time unit value => if 0 < number value then { o with expire := wrap (cur + number value * unit) } else o
  | .flag _ | .other => o

theorem localOptions_eq (now : Nat) (o : SetOptions) (opts : List Arg) :
    localOptions now o opts = (items opts).foldl (localItem now) o := by
  fun_induction localOptions now o opts <;> unfold items <;> simp_all [localItem]

theorem proxyOptions_eq (cur : Nat) (o : SetOptions) (opts : List Arg) :
    proxyOptions cur o opts = (items opts).foldl (proxyItem cur) o := by
  have nx : ascii "NX" ≠ ascii "EX" ∧ ascii "NX" ≠ ascii "PX" ∧ ascii "NX" ≠ ascii "KEEPTTL" := by decide
  have xx : ascii "XX" ≠ ascii "EX" ∧ ascii "XX" ≠ ascii "PX" ∧ ascii "XX" ≠ ascii "KEEPTTL" := by decide
  have keep : ascii "KEEPTTL" ≠ ascii "EX" ∧ ascii "KEEPTTL" ≠ ascii "PX" := by decide
  fun_induction items opts generalizing o <;> unfold proxyOptions <;> simp_all [proxyItem]

def Item.flags : Item → Option PutFlags
  | .flag flags => some flags
  | _ => none

def Item.span : Item → Option (Int × Arg)
  | .time unit value => some (unit, value)
  | _ => none

def lastOr {α : Type} (default : α) (l : List α) : α := l.getLast?.getD default

theorem lastOr_cons {α : Type} (default a : α) (l : List α) : lastOr default (a :: l) = lastOr a l := by
  simp [lastOr, List.getLast?_cons]

def inPlace (now : Nat) (span : Int × Arg) : Nat := wrap (now + numberInPlace span.2 * span.1)

def copied (now : Nat) (span : Int × Arg) : Nat := wrap (now + number span.2 * span.1)

theorem foldl_localItem (now : Nat) (o : SetOptions) (l : List Item) :
    l.foldl (localItem now) o =
      { flags := lastOr o.flags (l.filterMap Item.flags), keepttl := o.keepttl || decide (.keepttl ∈ l),
        expire := lastOr o.expire ((l.filterMap Item.span).map (inPlace now)) } := by
  induction l generalizing o with
  | nil => simp [lastOr]
  | cons item rest ih =>
    rw [List.foldl_cons, ih]
    cases item <;> simp [localItem, Item.flags, Item.span, lastOr_cons, inPlace, List.filterMap_cons]

theorem foldl_proxyItem (cur : Nat) (o : SetOptions) (l : List Item) :
    l.foldl (proxyItem cur) o =
      { flags := o.flags, keepttl := o.keepttl || decide (.keepttl ∈ l),
        expire := lastOr o.expire (((l.filterMap Item.span).filter fun span => 0 < number span.2).map (copied cur)) } := by
  induction l generalizing o with
  | nil => simp [lastOr]
  | cons item rest ih =>
    rw [List.foldl_cons, ih]
    cases item with
    | time unit value =>
      by_cases positive : 0 < number value <;> simp [proxyItem, Item.span, lastOr_cons, copied, positive]
    | _ => simp [proxyItem, Item.span, List.filterMap_cons]

def spans (opts : List Arg) : List (Int × Arg) := (items opts).filterMap Item.span

/-- The last EX or PX, read in place, sets the expiry that the last positive one sets, read from a copy of 31 bytes. -/
def SameExpiry (now : Nat) (opts : List Arg) : Prop :=
  lastOr 0 ((spans opts).map (inPlace now)) =
    lastOr 0 (((spans opts).filter fun span => 0 < number span.2).map (copied now))

instance (now : Nat) (opts : List Arg) : Decidable (SameExpiry now opts) := inferInstanceAs (Decidable (_ = _))

theorem localOptions_eq_proxyOptions_iff (now : Nat) (flags : PutFlags) (opts : List Arg) :
    localOptions now {} opts = proxyOptions now { flags := flags } opts ↔
      lastOr .none ((items opts).filterMap Item.flags) = flags ∧ SameExpiry now opts := by
  rw [localOptions_eq, proxyOptions_eq, foldl_localItem, foldl_proxyItem]
  simp [SameExpiry, spans]

theorem foldl_lastOr {α β : Type} (f : α → Option β) (default : β) (l : List α) :
    l.foldl (fun b a => (f a).getD b) default = lastOr default (l.filterMap f) := by
  induction l generalizing default with
  | nil => rfl
  | cons a rest ih =>
    rw [List.foldl_cons, ih, List.filterMap_cons]
    cases f a <;> simp [lastOr_cons]

def letterFlag (opt : Arg) : Option PutFlags :=
  if opt.text.map toupper = ascii "NX" then some .nx else if opt.text.map toupper = ascii "XX" then some .xx else none

def wordFlag (opt : Arg) : Option PutFlags :=
  if word 15 opt.text = ascii "NX" then some .nx else if word 15 opt.text = ascii "XX" then some .xx else none

theorem foldl_flags (read : Arg → Bytes) (opts : List Arg) :
    opts.foldl (fun flags opt => if read opt = ascii "NX" then .nx else if read opt = ascii "XX" then .xx else flags)
        PutFlags.none =
      lastOr .none (opts.filterMap fun opt =>
        if read opt = ascii "NX" then some .nx else if read opt = ascii "XX" then some .xx else none) := by
  rw [← foldl_lastOr]
  congr 1
  funext flags opt
  split
  · rfl
  · split <;> rfl

theorem letterFlags_eq (opts : List Arg) : letterFlags opts = lastOr .none (opts.filterMap letterFlag) :=
  foldl_flags (fun opt => opt.text.map toupper) opts

theorem wordFlags_eq (opts : List Arg) : wordFlags opts = lastOr .none (opts.filterMap wordFlag) :=
  foldl_flags (fun opt => word 15 opt.text) opts

def SameFlags (flag : Arg → Option PutFlags) (opts : List Arg) : Prop :=
  lastOr .none ((items opts).filterMap Item.flags) = lastOr .none (opts.filterMap flag)

instance (flag : Arg → Option PutFlags) (opts : List Arg) : Decidable (SameFlags flag opts) :=
  inferInstanceAs (Decidable (_ = _))

end Options

section Routes

variable {name key : Arg} {more : List Arg} {op : ProxyOp}

theorem word_of_letters {text : Bytes} {limit : Nat} {letters : Bytes} (upper : text.map toupper = letters)
    (short : letters.length ≤ limit) (filled : letters.all (· ≠ 0) = true) : word limit text = letters := by
  rw [word, List.map_take, upper, List.take_of_length_le short, List.takeWhile_eq_self_iff]
  simpa using filled

theorem nameOf_get (upper : name.text.map toupper = ascii "GET") : nameOf name.text = some .get := by
  rw [nameOf, word_of_letters upper (by decide) (by decide)]
  decide

theorem nameOf_set (upper : name.text.map toupper = ascii "SET") : nameOf name.text = some .set := by
  rw [nameOf, word_of_letters upper (by decide) (by decide)]
  decide

def Forwards (name key : Arg) (more : List Arg) (op : ProxyOp) : Prop :=
  ∀ d : Dispatcher, d.isShared = true → ∀ isLocked, d.respDispatchProxy isLocked (name :: key :: more) = d.fast isLocked key op

def Stays (args : List Arg) : Prop :=
  ∀ d : Dispatcher, d.isShared = true → ∀ isLocked, d.respDispatchProxy isLocked args = .here

variable {σ : Type} {api : ShardApi σ} {env : Env} {numShards : Nat} {s t : σ}

theorem Forwards.agree (forwards : Forwards name key more op)
    (state : (respDispatch api env (name :: key :: more) s).1 = (proxySwitch api env.now op (name :: key :: more) s).1)
    (reply : (respDispatch api env (name :: key :: more) s).2.bytes =
      replyBytes (proxySwitch api env.now op (name :: key :: more) s).2) :
    Agree api env numShards (name :: key :: more) s t := by
  intro self other owner away
  have owned : shardForKey key.text numShards = self := owner
  rw [serveThere, serveHere, forwards _ rfl, forwards _ rfl]
  simp only [Dispatcher.fast, Dispatcher.forward, owned, Ne.symm away, false_and, if_false, true_and, if_true]
  by_cases locked : api.isLocked s key.text
  · simp only [locked, Bool.true_eq_false, if_false]
    rfl
  · have free : api.isLocked s key.text = false := by simpa using locked
    simp only [free, if_true, proxyExec, msetCheckLockDefer, Request.key, List.getElem?_cons_succ, List.getElem?_cons_zero,
      Option.map_some, Bool.false_eq_true, if_false, reduceCtorEq, state, reply, sentBytes_eq]

theorem Stays.agree {args : List Arg} {a : Answer} (stays : Stays args) (constant : ∀ s, respDispatch api env args s = (s, a)) :
    Agree api env numShards args s t := by
  intro self other _ _
  rw [serveThere, serveHere, stays _ rfl, stays _ rfl]
  simp only [constant]

/-- What decides between the two ways to run a command: SET has at most six arguments and options that both parsers
read alike, and the other commands have the number of arguments for which they are sent on and answered alike. -/
def Uniform (env : Env) : List Arg → Prop
  | [] => True
  | name :: rest =>
    match nameOf name.text, rest with
    | some .set, _ :: _ :: opts =>
      if name.text.map toupper = ascii "SET" then
        opts.length ≤ 3 ∧ SameFlags letterFlag opts ∧ SameExpiry env.now opts
      else SameFlags wordFlag opts ∧ SameExpiry env.now opts
    | some .exists_, _ | some .ttl, _ | some .pttl, _ | some .type, _ => rest.length ≤ 1
    | some .expire, _ | some .pexpire, _ | some .expireat, _ | some .pexpireat, _ => rest.length ≠ 1
    | _, _ => True

def Name.proxyOp : Name → Option ProxyOp
  | .exists_ => some .exists_
  | .ttl => some .ttl
  | .pttl => some .pttl
  | .type => some .type
  | .strlen => some .strlen
  | .expire => some .expire
  | .pexpire => some .pexpire
  | .persist => some .persist
  | .expireat => some .expireat
  | .pexpireat => some .pexpireat
  | _ => none

def Name.unary : Name → Bool
  | .exists_ | .ttl | .pttl | .type => true
  | _ => false

section Slow

variable {cmd : Name} (known : nameOf name.text = some cmd) (slow : cmd ≠ .get ∧ cmd ≠ .set)

include known slow

theorem not_fast : name.text.map toupper ≠ ascii "GET" ∧ name.text.map toupper ≠ ascii "SET" := by
  constructor
  · intro upper
    rw [nameOf_get upper, Option.some.injEq] at known
    exact slow.1 known.symm
  · intro upper
    rw [nameOf_set upper, Option.some.injEq] at known
    exact slow.2 known.symm

theorem forwards_slow (sent : cmd.proxyOp = some op) (arity : cmd.unary = true → more = []) :
    Forwards name key more op := by
  obtain ⟨notGet, notSet⟩ := not_fast known slow
  intro d shared isLocked
  simp only [Dispatcher.respDispatchProxy, if_neg notGet, if_neg notSet, known]
  cases cmd <;> simp_all [Name.proxyOp, Name.unary, Dispatcher.fast]

theorem stays_unary (arity : cmd.unary = true) (others : more ≠ []) : Stays (name :: key :: more) := by
  obtain ⟨notGet, notSet⟩ := not_fast known slow
  intro d shared isLocked
  simp only [Dispatcher.respDispatchProxy, if_neg notGet, if_neg notSet, known]
  cases cmd <;> simp_all [Name.unary]

theorem stays_alone (keyed : SingleKey [name]) : Stays [name] := by
  obtain ⟨notGet, notSet⟩ := not_fast known slow
  intro d shared isLocked
  simp only [Dispatcher.respDispatchProxy, if_neg notGet, if_neg notSet, known]
  cases cmd <;> simp_all [SingleKey]

end Slow

section Fast

variable {rest opts : List Arg} {val : Arg}

theorem get_not_set (known : nameOf name.text = some .get) : name.text.map toupper ≠ ascii "SET" := by
  intro upper
  rw [nameOf_set upper] at known
  cases known

theorem set_not_get (known : nameOf name.text = some .set) : name.text.map toupper ≠ ascii "GET" := by
  intro upper
  rw [nameOf_get upper] at known
  cases known

theorem forwards_get (known : nameOf name.text = some .get) : Forwards name key [] .get := by
  have notSet := get_not_set known
  intro d shared isLocked
  by_cases upper : name.text.map toupper = ascii "GET"
  · simp [Dispatcher.respDispatchProxy, upper, shared]
  · simp [Dispatcher.respDispatchProxy, upper, notSet, known, shared, Dispatcher.fast]

theorem stays_get (known : nameOf name.text = some .get) (arity : rest.length ≠ 1) : Stays (name :: rest) := by
  have notSet := get_not_set known
  intro d shared isLocked
  match rest, arity with
  | [], _ => simp [Dispatcher.respDispatchProxy, notSet, known]
  | key :: other :: more, _ => simp [Dispatcher.respDispatchProxy, notSet, known, shared]

theorem forwards_set_letters (upper : name.text.map toupper = ascii "SET") (few : opts.length ≤ 3) :
    Forwards name key (val :: opts) (setOp (letterFlags opts)) := by
  have notGet : ascii "SET" ≠ ascii "GET" := by decide
  intro d shared isLocked
  simp [Dispatcher.respDispatchProxy, notGet, upper, shared, Nat.not_lt.2 few]

theorem forwards_set_words (known : nameOf name.text = some .set) (slow : name.text.map toupper ≠ ascii "SET") :
    Forwards name key (val :: opts) (setOp (wordFlags opts)) := by
  have notGet := set_not_get known
  intro d shared isLocked
  simp [Dispatcher.respDispatchProxy, notGet, slow, known, shared, Dispatcher.fast]

theorem stays_set_many (upper : name.text.map toupper = ascii "SET") (many : 3 < opts.length) :
    Stays (name :: key :: val :: opts) := by
  intro d shared isLocked
  simp [Dispatcher.respDispatchProxy, upper, many]

theorem stays_set_few (known : nameOf name.text = some .set) (few : rest.length < 2) : Stays (name :: rest) := by
  have notGet := set_not_get known
  intro d shared isLocked
  match rest, few with
  | [], _ => simp [Dispatcher.respDispatchProxy, notGet, known]
  | [key], _ => simp [Dispatcher.respDispatchProxy, notGet, known, shared]

end Fast

section Same

variable {rest opts : List Arg} {val : Arg}

theorem agree_set {flags : PutFlags} (known : nameOf name.text = some .set)
    (forwards : Forwards name key (val :: opts) (setOp flags))
    (same : localOptions env.now {} opts = proxyOptions env.now { flags := flags } opts) :
    Agree api env numShards (name :: key :: val :: opts) s t := by
  have switch : proxySwitch api env.now (setOp flags) (name :: key :: val :: opts) s =
      let o := proxyOptions env.now { flags := flags } opts
      let r := api.keySet s key.text val.text (keptExpire api s key.text o) o.flags
      (r.1, if r.2 then { replyType := .ok } else if o.flags ≠ .none then { replyType := .nil } else errReply "OOM") := by
    cases flags <;> rfl
  refine forwards.agree ?_ ?_
  · simp only [respDispatch, known, switch, same]
  · simp only [respDispatch, known, switch, same]
    exact Answer.bytes_set _ _

theorem agree_get (known : nameOf name.text = some .get) : Agree api env numShards [name, key] s t := by
  refine (forwards_get known).agree ?_ ?_
  · simp only [respDispatch, known]
    rfl
  · simp only [respDispatch, known, Answer.bytes_kv]
    rfl

theorem delHereBytes_eq (r : Reply) : delHereBytes r = delSentBytes r := by
  by_cases first : r.subIdx < 1 <;>
    simp [delHereBytes, delSentBytes, PipelineSlot.dispatch, PipelineSlot.answer, PipelineSlot.storePart,
      PipelineSlot.finish, first]

theorem agree_del (known : nameOf name.text = some .del) : Agree api env numShards [name, key] s t := by
  obtain ⟨notGet, notSet⟩ := not_fast known (by decide)
  intro self other _ _
  simp only [serveThere, serveHere, Dispatcher.respDispatchProxy, if_neg notGet, if_neg notSet, known]
  simp [funext delHereBytes_eq]

def Name.timed : Name → Bool
  | .expire | .pexpire | .expireat | .pexpireat => true
  | _ => false

theorem agree_sent {cmd : Name} (known : nameOf name.text = some cmd) (sent : cmd.proxyOp = some op)
    (arity : cmd.unary = true → more = []) (enough : cmd.timed = true → more ≠ []) :
    Agree api env numShards (name :: key :: more) s t := by
  have slow : cmd ≠ .get ∧ cmd ≠ .set := by
    constructor <;> rintro rfl <;> cases sent
  refine (forwards_slow known slow sent arity).agree ?_ ?_
  · cases more <;> cases cmd <;> cases sent <;> simp_all [respDispatch, proxySwitch, textAt, Name.timed, Name.unary,
      respDispatch.expireAt, respDispatch.expireIn, respDispatch.ttl, proxySwitch.expireAt, proxySwitch.expireIn]
  · cases more <;> cases cmd <;> cases sent <;> simp_all [respDispatch, proxySwitch, textAt, Name.timed, Name.unary,
      respDispatch.expireAt, respDispatch.expireIn, respDispatch.ttl, proxySwitch.expireAt, proxySwitch.expireIn]
    all_goals rfl

theorem agree_alone {cmd : Name} (known : nameOf name.text = some cmd) (keyed : SingleKey [name]) (slow : cmd ≠ .get ∧ cmd ≠ .set) :
    Agree api env numShards [name] s t := by
  have stays := stays_alone known slow keyed
  have constant : ∃ a, ∀ s, respDispatch api env [name] s = (s, a) := by
    simp only [respDispatch, known]
    cases cmd <;> simp_all [SingleKey, respDispatch.expireAt, respDispatch.expireIn, respDispatch.ttl]
    all_goals exact ⟨_, fun _ => rfl⟩
  obtain ⟨a, constant⟩ := constant
  exact stays.agree constant

theorem agree_get_arity (known : nameOf name.text = some .get) (arity : rest.length ≠ 1) :
    Agree api env numShards (name :: rest) s t := by
  refine (stays_get known arity).agree (a := .err "wrong number of args for GET") fun s => ?_
  match rest, arity with
  | [], _ => simp only [respDispatch, known]
  | _ :: _ :: _, _ => simp only [respDispatch, known]

theorem agree_set_arity (known : nameOf name.text = some .set) (few : rest.length < 2) :
    Agree api env numShards (name :: rest) s t := by
  refine (stays_set_few known few).agree (a := .written (errText "wrong number of args for SET")) fun s => ?_
  match rest, few with
  | [], _ => simp only [respDispatch, known]
  | [_], _ => simp only [respDispatch, known]

theorem Uniform.agree_set (uniform : Uniform env (name :: key :: val :: opts)) (known : nameOf name.text = some .set) :
    Agree api env numShards (name :: key :: val :: opts) s t := by
  simp only [Uniform, known] at uniform
  split at uniform
  next upper =>
    obtain ⟨few, flags, expiry⟩ := uniform
    refine Commands.agree_set known (forwards_set_letters upper few) ?_
    rw [localOptions_eq_proxyOptions_iff, letterFlags_eq]
    exact ⟨flags, expiry⟩
  next slow =>
    obtain ⟨flags, expiry⟩ := uniform
    refine Commands.agree_set known (forwards_set_words known slow) ?_
    rw [localOptions_eq_proxyOptions_iff, wordFlags_eq]
    exact ⟨flags, expiry⟩

theorem Uniform.agree {args : List Arg} (uniform : Uniform env args) (keyed : SingleKey args) :
    Agree api env numShards args s t := by
  match args, keyed with
  | name :: rest, keyed =>
    cases known : nameOf name.text with
    | none => simp [SingleKey, known] at keyed
    | some cmd =>
      by_cases get : cmd = .get
      · subst get
        match rest with
        | [key] => exact agree_get known
        | [] => exact agree_get_arity known (by simp)
        | _ :: _ :: _ => exact agree_get_arity known (by simp)
      by_cases set : cmd = .set
      · subst set
        match rest with
        | key :: val :: opts => exact uniform.agree_set known
        | [] => exact agree_set_arity known (by simp)
        | [_] => exact agree_set_arity known (by simp)
      match rest with
      | [] => exact agree_alone known keyed ⟨get, set⟩
      | key :: more =>
        cases sent : cmd.proxyOp with
        | some op =>
          refine agree_sent known sent ?_ ?_ <;>
            cases cmd <;> simp_all [Uniform, Name.unary, Name.timed]
        | none =>
          by_cases del : cmd = .del
          · subst del
            have single : more = [] := by simpa [SingleKey, known] using keyed
            subst single
            exact agree_del known
          · cases cmd <;> simp_all [SingleKey, Name.proxyOp]

end Same

section Differ

theorem Stays.of_agree {args : List Arg} (stays : Stays args) (agree : Agree api env numShards args s t) :
    (respDispatch api env args s).1 = s ∧
    (respDispatch api env args t).2.bytes = (respDispatch api env args s).2.bytes := by
  have served := agree _ (shardForKey (textAt args 1) numShards + 1) rfl (Nat.succ_ne_self _)
  rw [serveThere, serveHere, stays _ rfl, stays _ rfl] at served
  simp only [Prod.mk.injEq, Option.some.injEq] at served
  exact ⟨served.2.1.symm, served.2.2⟩

theorem Forwards.of_agree (forwards : Forwards name key more op) (free : api.isLocked s key.text = false)
    (agree : Agree api env numShards (name :: key :: more) s t) :
    (proxySwitch api env.now op (name :: key :: more) s).1 = (respDispatch api env (name :: key :: more) s).1 ∧
    replyBytes (proxySwitch api env.now op (name :: key :: more) s).2 = (respDispatch api env (name :: key :: more) s).2.bytes := by
  have served := agree _ (shardForKey key.text numShards + 1) rfl (Nat.succ_ne_self _)
  rw [serveThere, serveHere, forwards _ rfl, forwards _ rfl] at served
  simp only [Dispatcher.fast, Dispatcher.forward, textAt, List.getElem?_cons_succ, List.getElem?_cons_zero, Option.elim_some,
    (Nat.succ_ne_self _).symm, false_and, if_false, true_and, free, if_true, proxyExec, msetCheckLockDefer, Request.key,
    Option.map_some, Bool.false_eq_true, reduceCtorEq, Prod.mk.injEq, Option.some.injEq, sentBytes_eq] at served
  exact served

section Set

variable {val : Arg} {opts : List Arg} {flags : PutFlags}

theorem respDispatch_set (known : nameOf name.text = some .set) {o : SetOptions} (same : localOptions env.now {} opts = o) :
    (respDispatch api env (name :: key :: val :: opts) s).1 =
      (api.keySet s key.text val.text (keptExpire api s key.text o) o.flags).1 := by
  simp only [respDispatch, known, same]

theorem proxySwitch_set {o : SetOptions} (same : proxyOptions env.now { flags := flags } opts = o) :
    (proxySwitch api env.now (setOp flags) (name :: key :: val :: opts) s).1 =
      (api.keySet s key.text val.text (keptExpire api s key.text o) o.flags).1 := by
  subst same
  cases flags <;> rfl

theorem Stays.differ (known : nameOf name.text = some .set) (short : key.text.length < 2 ^ 16)
    (stays : Stays (name :: key :: val :: opts)) :
    ¬∀ s t, Agree Table.api env numShards (name :: key :: val :: opts) s t := by
  intro agree
  let v := Table.other key.text val.text
  have absent := congrArg (Table.map · key.text) (stays.of_agree (agree {} {})).1
  have present := congrArg (Table.map · key.text) (stays.of_agree (agree (Table.only key.text v) {})).1
  simp only [respDispatch_set known rfl, Table.set_empty short, Table.set_only short v rfl] at absent present
  generalize localOptions env.now {} opts = o at absent present
  cases flags : o.flags <;> simp_all [Table.only, Table.other, v]

theorem Forwards.same_options (known : nameOf name.text = some .set) (short : key.text.length < 2 ^ 16)
    (forwards : Forwards name key (val :: opts) (setOp flags))
    (agree : ∀ s t, Agree Table.api env numShards (name :: key :: val :: opts) s t) :
    localOptions env.now {} opts = proxyOptions env.now { flags := flags } opts := by
  let v := Table.other key.text val.text
  have absent := congrArg (Table.map · key.text) (forwards.of_agree (Table.isLocked_empty _) (agree {} {})).1
  have present := congrArg (Table.map · key.text)
    (forwards.of_agree (Table.isLocked_only rfl) (agree (Table.only key.text v) {})).1
  simp only [respDispatch_set known rfl, proxySwitch_set rfl, Table.set_empty short, Table.set_only short v rfl] at absent present
  have keepttl : (localOptions env.now {} opts).keepttl = (proxyOptions env.now { flags := flags } opts).keepttl := by
    rw [localOptions_eq, proxyOptions_eq, foldl_localItem, foldl_proxyItem]
  generalize localOptions env.now {} opts = o at absent present keepttl ⊢
  generalize proxyOptions env.now { flags := flags } opts = p at absent present keepttl ⊢
  obtain ⟨oFlags, _, _⟩ := o
  obtain ⟨pFlags, _, _⟩ := p
  cases oFlags <;> cases pFlags <;> simp_all [Table.other, v]

end Set

theorem Stays.unary_differ {cmd : Name} (known : nameOf name.text = some cmd) (unary : cmd.unary = true)
    (short : key.text.length < 2 ^ 16) (stays : Stays (name :: key :: more)) :
    ¬∀ s t, Agree Table.api env numShards (name :: key :: more) s t := by
  intro agree
  have same := (stays.of_agree (agree (Table.only key.text { value := [], expire := 0 }) {})).2
  revert same
  simp only [respDispatch, known]
  cases cmd <;> simp_all [Name.unary, respDispatch.ttl, Table.api, Table.keyGet, Table.expireGet, Table.find_eq, Table.only,
    Stored.stale, shardKeyTtl]
  all_goals decide

theorem Forwards.timed_differ {cmd : Name} (known : nameOf name.text = some cmd) (timed : cmd.timed = true)
    (sent : cmd.proxyOp = some op) (forwards : Forwards name key [] op) :
    ¬∀ s t, Agree Table.api env numShards [name, key] s t := by
  intro agree
  have same := (forwards.of_agree (Table.isLocked_empty _) (agree {} {})).2
  revert same
  simp only [respDispatch, known]
  cases cmd <;> cases sent <;> simp_all [Name.timed, respDispatch.expireAt, respDispatch.expireIn, proxySwitch,
    proxySwitch.expireAt, proxySwitch.expireIn]
  all_goals decide

theorem Uniform.of_agree_set {val : Arg} {opts : List Arg} (known : nameOf name.text = some .set)
    (short : key.text.length < 2 ^ 16) (agree : ∀ s t, Agree Table.api env numShards (name :: key :: val :: opts) s t) :
    Uniform env (name :: key :: val :: opts) := by
  simp only [Uniform, known]
  split
  next upper =>
    by_cases few : opts.length ≤ 3
    · have same := (forwards_set_letters upper few).same_options known short agree
      rw [localOptions_eq_proxyOptions_iff, letterFlags_eq] at same
      exact ⟨few, same⟩
    · exact absurd agree ((stays_set_many upper (by omega)).differ known short)
  next slow =>
    have same := (forwards_set_words known slow).same_options known short agree
    rw [localOptions_eq_proxyOptions_iff, wordFlags_eq] at same
    exact same

theorem Uniform.of_agree {args : List Arg} (short : (textAt args 1).length < 2 ^ 16)
    (agree : ∀ s t, Agree Table.api env numShards args s t) : Uniform env args := by
  match args with
  | [] => trivial
  | name :: rest =>
    cases known : nameOf name.text with
    | none => simp [Uniform, known]
    | some cmd =>
      by_cases set : cmd = .set
      · subst set
        match rest with
        | [] => simp [Uniform, known]
        | [_] => simp [Uniform, known]
        | key :: val :: opts => exact Uniform.of_agree_set known short agree
      by_cases get : cmd = .get
      · subst get
        simp [Uniform, known]
      match rest with
      | [] => cases cmd <;> simp_all [Uniform]
      | key :: more =>
        by_cases unary : cmd.unary = true ∧ more ≠ []
        · exact absurd agree ((stays_unary known ⟨get, set⟩ unary.1 unary.2).unary_differ known unary.1 short)
        by_cases timed : cmd.timed = true ∧ more = []
        · obtain ⟨timed, rfl⟩ := timed
          obtain ⟨op, sent⟩ : ∃ op, cmd.proxyOp = some op := by cases cmd <;> simp_all [Name.timed, Name.proxyOp]
          exact absurd agree ((forwards_slow known ⟨get, set⟩ sent fun _ => rfl).timed_differ known timed sent)
        · cases cmd <;> simp_all [Uniform, Name.unary, Name.timed]

end Differ

theorem agree_iff_uniform (env : Env) (numShards : Nat) (args : List Arg) (keyed : SingleKey args) :
    (Uniform env args → ∀ {σ : Type} (api : ShardApi σ) (s t : σ), Agree api env numShards args s t) ∧
    ((textAt args 1).length < 2 ^ 16 → (∀ s t, Agree Table.api env numShards args s t) → Uniform env args) := by
  constructor
  · intro uniform σ api s t
    exact uniform.agree keyed
  · intro short agree
    exact Uniform.of_agree short agree

end Routes

section Runs

def arg (text : String) : Arg := { text := ascii text }

def setFor (seconds : String) : List Arg := [arg "SET", arg "k", arg "v", arg "EX", arg seconds]

theorem agree_iff_uniform_set :
    SingleKey (setFor "10") ∧ Uniform { now := 1000 } (setFor "10") ∧
    ∀ s t, Agree Table.api { now := 1000 } 4 (setFor "10") s t := by
  have known : nameOf (arg "SET").text = some .set := by decide +kernel
  have upper : (arg "SET").text.map toupper = ascii "SET" := by decide +kernel
  have keyed : SingleKey (setFor "10") := by simp [SingleKey, setFor, known]
  have uniform : Uniform { now := 1000 } (setFor "10") := by
    simp only [Uniform, setFor, known, if_pos upper]
    decide +kernel
  exact ⟨keyed, uniform, (agree_iff_uniform _ _ _ keyed).1 uniform Table.api⟩

theorem set_without_time_differs : ¬Agree Table.api { now := 1000 } 4 (setFor "0") {} {} := by
  intro agree
  have same := agree (shardForKey (ascii "k") 4) (shardForKey (ascii "k") 4 + 1) rfl (by decide +kernel)
  have kept := congrArg (fun out => (out.2.1.map (ascii "k")).map Stored.expire) same
  revert kept
  decide +kernel

end Runs

end FreakV.Commands
