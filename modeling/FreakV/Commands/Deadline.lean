import FreakV.Commands.Expired

namespace FreakV.Commands

open Net (ascii decimalInt length_decimalInt strtoll_decimalInt)
open Table

inductive Expiry
  | expire
  | pexpire
  | expireat
  | pexpireat
deriving DecidableEq

namespace Expiry

def name : Expiry → Name
  | .expire => .expire
  | .pexpire => .pexpire
  | .expireat => .expireat
  | .pexpireat => .pexpireat

def op : Expiry → ProxyOp
  | .expire => .expire
  | .pexpire => .pexpire
  | .expireat => .expireat
  | .pexpireat => .pexpireat

def deadline (now : Nat) (n : Int) : Expiry → Int
  | .expire => now + 1000 * n
  | .pexpire => now + n
  | .expireat => 1000 * n
  | .pexpireat => n

def time (now : Nat) (n : Arg) : Expiry → Nat
  | .expire => expireIn now 1000 n
  | .pexpire => expireIn now 1 n
  | .expireat => expireAt 1000 n
  | .pexpireat => expireAt 1 n

end Expiry

section Reads

def afterReads (reads : List (Nat × Bytes)) (s : Table) : Table := reads.foldl (fun s r => (s.keyGet r.2 r.1).1) s

def reply (t : Nat) (command : String) (key : Arg) (s : Table) : Bytes := (runHere { now := t } [arg command, key] s).2

def nilText : Bytes := ascii "$-1\r\n"

def Meant (now : Nat) (key : Arg) (value : Bytes) (deadline : Int) (after : Table) : Prop :=
  ∀ reads t, now ≤ t → (∀ r ∈ reads, now ≤ r.1 ∧ r.1 ≤ t) →
    let s := afterReads reads after
    if deadline ≤ now then
      reply t "GET" key s = nilText ∧ reply t "EXISTS" key s = ascii ":0\r\n" ∧ reply t "TTL" key s = ascii ":-2\r\n"
    else if t < deadline then
      reply t "GET" key s = Net.PipelineSlot.bulk value ∧ reply t "EXISTS" key s = ascii ":1\r\n" ∧
      reply t "PTTL" key s = intText (deadline - t).toNat ∧
      reply t "TTL" key s = intText ((deadline - t + 999) / 1000).toNat
    else reply t "GET" key s = nilText ∧ reply t "EXISTS" key s = ascii ":0\r\n"

variable {key : Arg} {s : Table} {x : Stored}

theorem reply_eq {command : String} {t : Nat} (call : Call) (calls : localCall t (arg command) [key] = some call) :
    reply t command key s = (call.run Table.api t s).2 := by
  have made : localCall ({ now := t } : Env).now (arg command) [key] = some call := calls
  exact congrArg Prod.snd (respDispatch_call made s)

theorem nameOf_reads : nameOf (arg "GET").text = some .get ∧ nameOf (arg "EXISTS").text = some .exists_ ∧
    nameOf (arg "TTL").text = some .ttl ∧ nameOf (arg "PTTL").text = some .pttl := by decide +kernel

theorem reply_get (t : Nat) : reply t "GET" key s = replyBytes (kvReply (s.keyGet key.text t).2) :=
  reply_eq (.read .get key.text) (by simp only [localCall, nameOf_reads])

theorem reply_exists (t : Nat) : reply t "EXISTS" key s = replyBytes (intReply ((s.keyGet key.text t).2.isSome.toNat : Nat)) :=
  reply_eq (.read .exists_ key.text) (by simp only [localCall, nameOf_reads, keyCall])

theorem reply_ttl (t : Nat) :
    reply t "TTL" key s = replyBytes (intReply (shardKeyTtl (s.expireGet key.text) t false)) :=
  reply_eq (.ttl false key.text) (by simp only [localCall, nameOf_reads, keyCall])

theorem reply_pttl (t : Nat) :
    reply t "PTTL" key s = replyBytes (intReply (shardKeyTtl (s.expireGet key.text) t true)) :=
  reply_eq (.ttl true key.text) (by simp only [localCall, nameOf_reads, keyCall])

theorem find_keyGet (q : Bytes) (t : Nat) (k : Bytes) :
    (s.keyGet q t).1.find k = s.find k ∨ (q = k ∧ (s.keyGet q t).1.find k = none ∧ ∃ x, s.find k = some x ∧ x.stale t) := by
  unfold keyGet
  split
  · exact .inl rfl
  · next x found =>
    split
    · next gone =>
      by_cases same : q = k
      · subst same
        exact .inr ⟨rfl, by rw [find_remove, if_pos rfl], x, found, gone.1⟩
      · exact .inl (by rw [find_remove, if_neg (Ne.symm same)])
    · exact .inl rfl

theorem find_afterReads {k : Bytes} {t : Nat} (found : s.find k = some x) (reads : List (Nat × Bytes))
    (past : ∀ r ∈ reads, r.1 ≤ t) :
    (afterReads reads s).find k = some x ∨ ((afterReads reads s).find k = none ∧ x.stale t) := by
  have run : ∀ s : Table, (s.find k = some x ∨ (s.find k = none ∧ x.stale t)) →
      (afterReads reads s).find k = some x ∨ ((afterReads reads s).find k = none ∧ x.stale t) := by
    induction reads with
    | nil => exact fun s here => here
    | cons r rest ih =>
      intro s here
      refine ih (fun r member => past r (List.mem_cons_of_mem _ member)) _ ?_
      obtain same | ⟨_, none, y, held, stale⟩ := find_keyGet (s := s) r.2 r.1 k
      · rwa [same]
      · obtain held' | ⟨absent, _⟩ := here
        · obtain rfl : y = x := Option.some.inj (held.symm.trans held')
          exact .inr ⟨none, stale.later (past r (List.mem_cons_self ..))⟩
        · rw [held] at absent
          cases absent
  exact run s (.inl found)

end Reads

section Times

variable {key : Arg} {s : Table} {x : Stored} {t : Nat}

theorem keyGet_later (free : x.locked = false)
    (here : s.find key.text = some x ∨ (s.find key.text = none ∧ x.stale t)) :
    (s.keyGet key.text t).2 = if x.stale t then none else some x.value := by
  obtain found | ⟨none, stale⟩ := here
  · simp only [keyGet, found, free, and_true]
    split <;> rfl
  · simp [keyGet, none, stale]

theorem replies_gone (value : (s.keyGet key.text t).2 = none) :
    reply t "GET" key s = nilText ∧ reply t "EXISTS" key s = ascii ":0\r\n" := by
  rw [reply_get, reply_exists, value]
  decide

theorem ttl_live {d : Nat} (before : t < d) (small : d < 2 ^ 63) :
    shardKeyTtl d t true = ((d - t : Nat) : Int) ∧ shardKeyTtl d t false = (((d - t + 999) / 1000 : Nat) : Int) := by
  have sentinel : d ≠ noExpire := by rw [noExpire]; omega
  have wrapped : ((d - t : Nat) : Int).bmod (2 ^ 64) = ((d - t : Nat) : Int) := by
    apply Int.bmod_eq_of_le <;> omega
  simp only [shardKeyTtl, sentinel, if_false, Nat.ne_of_gt (Nat.zero_lt_of_lt before), Nat.not_le.2 before, if_true, wrapped,
    Bool.false_eq_true, true_and]
  rw [Nat.mod_eq_of_lt (by omega)]

theorem replies_live {d : Nat} (found : s.find key.text = some x) (time : x.expire = d) (before : t < d) (small : d < 2 ^ 63) :
    reply t "GET" key s = Net.PipelineSlot.bulk x.value ∧ reply t "EXISTS" key s = ascii ":1\r\n" ∧
    reply t "PTTL" key s = intText (d - t) ∧ reply t "TTL" key s = intText ((d - t + 999) / 1000) := by
  have fresh : ¬x.stale t := fun stale => by have := stale.2.2; omega
  have value : (s.keyGet key.text t).2 = some x.value := by simp [keyGet, found, fresh]
  have exp : s.expireGet key.text = d := by simp [expireGet, found, time]
  obtain ⟨pttl, ttl⟩ := ttl_live before small
  rw [reply_get, reply_exists, reply_pttl, reply_ttl, value, exp, pttl, ttl, replyBytes_int, replyBytes_int]
  have one : intText 1 = ascii ":1\r\n" := by decide
  exact ⟨rfl, one, rfl, rfl⟩

variable {now : Nat} {deadline : Int}

theorem meant_live {d : Nat} (found : s.find key.text = some x) (free : x.locked = false) (time : x.expire = d)
    (later : now < d) (small : d < 2 ^ 63) : Meant now key x.value d s := by
  intro reads t after times
  have here := find_afterReads found reads fun r member => (times r member).2
  simp only [if_neg (show ¬(d : Int) ≤ now by omega)]
  split
  next before =>
    have fresh : ¬x.stale t := fun stale => by have := stale.2.2; omega
    obtain held | ⟨_, stale⟩ := here
    · have live := replies_live held time (show t < d by omega) small
      have left : ((d : Int) - t).toNat = d - t := by omega
      have rounded : (((d : Int) - t + 999) / 1000).toNat = (d - t + 999) / 1000 := by omega
      rwa [left, rounded]
    · exact absurd stale fresh
  next passed =>
    have stale : x.stale t := ⟨by omega, by omega, by omega⟩
    exact replies_gone (by rw [keyGet_later free here, if_pos stale])

theorem ttl_text (t : Nat) (ms : Bool) : replyBytes (intReply (shardKeyTtl noExpire t ms)) = ascii ":-2\r\n" := by
  have none : shardKeyTtl noExpire t ms = -2 := by simp [shardKeyTtl]
  rw [none]
  decide

theorem stale_of_reply (found : s.find key.text = some x) (get : reply t "GET" key s = nilText) : x.stale t := by
  by_contra fresh
  have value : (s.keyGet key.text t).2 = some x.value := by simp [keyGet, found, fresh]
  rw [reply_get, value] at get
  exact kv_bytes_ne x.value get

theorem meant_passed_iff (found : s.find key.text = some x) (free : x.locked = false) (value : Bytes)
    (passed : deadline ≤ now) : Meant now key value deadline s ↔ x.expire = noExpire ∧ x.stale now := by
  constructor
  · intro meant
    have replies := meant [] now (Nat.le_refl now) (by simp)
    simp only [if_pos passed, afterReads, List.foldl_nil] at replies
    obtain ⟨get, _, ttl⟩ := replies
    have stale := stale_of_reply found get
    rw [reply_ttl, expireGet, found, Option.elim_some, ← ttl_text now false, ttl_bytes_iff stale] at ttl
    exact ⟨ttl, stale⟩
  · rintro ⟨forever, stale⟩ reads t after times
    have here := find_afterReads found reads fun r member => (times r member).2
    have gone : ((afterReads reads s).keyGet key.text t).2 = none := by
      rw [keyGet_later free here, if_pos (stale.later after)]
    have exp : (afterReads reads s).expireGet key.text = noExpire := by
      obtain held | ⟨none, _⟩ := here
      · simp [expireGet, held, forever]
      · simp [expireGet, none]
    simp only [if_pos passed]
    obtain ⟨get, exist⟩ := replies_gone gone
    refine ⟨get, exist, ?_⟩
    rw [reply_ttl, exp, ttl_text]

theorem not_meant_forever (found : s.find key.text = some x) (forever : x.expire = noExpire) (value : Bytes)
    (later : now < deadline) : ¬Meant now key value deadline s := by
  intro meant
  have replies := meant [] now (Nat.le_refl now) (by simp)
  simp only [if_neg (Int.not_le.2 later), if_pos later, afterReads, List.foldl_nil] at replies
  have pttl := replies.2.2.1
  rw [reply_pttl, expireGet, found, Option.elim_some, forever, ttl_text] at pttl
  obtain ⟨b, rest, digits, low, _⟩ := Net.digitsOf_cons (deadline - now).toNat
  rw [intText, digits] at pttl
  have same : 58 :: 45 :: ascii "2\r\n" = 58 :: b :: (rest ++ ascii "\r\n") := pttl
  have second : 45 = b := (List.cons.inj (List.cons.inj same).2).1
  exact absurd low (by rw [← second]; decide)

end Times

section Commands

variable {cmd : Expiry} {now : Nat} {n : Int} {num : Arg}

theorem number_eq (text : num.text = decimalInt n) (short : n.natAbs < 10 ^ 30) :
    number num = max (min n (2 ^ 63 - 1)) (-2 ^ 63) := by
  have length := length_decimalInt (by decide) short
  rw [number, text, List.take_of_length_le length, strtoll_decimalInt]

theorem wrap_eq {i : Int} (low : 0 ≤ i) (high : i < 2 ^ 64) : (wrap i : Int) = i := by
  rw [wrap, Int.emod_eq_of_lt low high, Int.toNat_of_nonneg low]

theorem wrap_eq_noExpire_iff {i : Int} (low : -2 ^ 63 ≤ i) (high : i < 2 ^ 63) : wrap i = noExpire ↔ i = -1 := by
  rw [wrap, noExpire]
  omega

section Time

variable (text : num.text = decimalInt n) (word : now < 2 ^ 64) (low : -2 ^ 63 ≤ cmd.deadline now n)
  (high : cmd.deadline now n < 2 ^ 63)

include text word low high

theorem number_min : number num = max (min n (2 ^ 63 - 1)) (-2 ^ 63) := by
  refine number_eq text ?_
  cases cmd <;> simp only [Expiry.deadline] at low high <;> omega

theorem time_later (later : now < cmd.deadline now n) : (cmd.time now num : Int) = cmd.deadline now n := by
  have value := number_min text word low high
  have same : number num = n := by
    cases cmd <;> simp only [Expiry.deadline] at low high later <;> omega
  cases cmd <;> simp only [Expiry.deadline] at low high later <;> simp only [Expiry.time, Expiry.deadline, expireIn, expireAt, same]
  case expire => rw [if_pos (by omega), wrap_eq (by omega) (by omega), Int.mul_comm]
  case pexpire => rw [if_pos (by omega), wrap_eq (by omega) (by omega), Int.mul_one]
  case expireat => rw [wrap_eq (by omega) (by omega), Int.mul_comm]
  case pexpireat => rw [wrap_eq (by omega) (by omega), Int.mul_one]

theorem time_passed_iff (passed : cmd.deadline now n ≤ now) :
    cmd.time now num = noExpire ↔ cmd = .pexpireat ∧ n = -1 := by
  have value := number_min text word low high
  have one : 1 ≠ noExpire := by decide
  cases cmd <;> simp only [Expiry.deadline] at low high passed <;> simp only [Expiry.time, expireIn, expireAt]
  case expire => simp [if_neg (show ¬0 < number num by omega), one]
  case pexpire => simp [if_neg (show ¬0 < number num by omega), one]
  case expireat =>
    have same : number num = n := by omega
    rw [same, wrap_eq_noExpire_iff (by omega) (by omega)]
    simp
    omega
  case pexpireat =>
    have same : number num = n := by omega
    rw [same, wrap_eq_noExpire_iff (by omega) (by omega)]
    simp

end Time

variable {m : Table} {key name : Arg} {v : Stored}

theorem keyExpire_unchanged {k : Bytes} (expire : Nat) (found : m.find k = some v)
    (refused : v.expire = noExpire ∨ (expire = 0 ∧ v.expire = 0)) : (m.keyExpire k expire).1.find k = some v := by
  simp only [keyExpire, found, if_pos refused]

theorem keyExpire_changed {k : Bytes} (expire : Nat) (found : m.find k = some v)
    (accepted : ¬(v.expire = noExpire ∨ (expire = 0 ∧ v.expire = 0))) :
    (m.keyExpire k expire).1.find k = some { v with expire := expire, locked := false } := by
  simp only [keyExpire, found, if_neg accepted, find_put (short_of_find found), if_true]

theorem runHere_state (known : nameOf name.text = some cmd.name) :
    (runHere { now := now } [name, key, num] m).1 = (m.keyExpire key.text (cmd.time now num)).1 := by
  have calls : localCall ({ now := now } : Env).now name [key, num] = some (.expire key.text (cmd.time now num)) := by
    simp only [localCall, known]
    cases cmd <;> rfl
  exact congrArg Prod.fst (respDispatch_call calls m)

theorem runRequest_state (found : m.find key.text = some v) (free : v.locked = false) :
    (runRequest now (.regular cmd.op [name, key, num]) m).1 = (m.keyExpire key.text (cmd.time now num)).1 := by
  have unlocked : m.isLocked key.text = false := by simp [isLocked, found, free]
  rw [runRequest_regular, guarded, unlocked]
  cases cmd <;> rfl

def Honoured (cmd : Expiry) (now : Nat) (n : Int) (v : Stored) : Prop :=
  (now < cmd.deadline now n ∧ v.expire ≠ noExpire) ∨ (cmd = .pexpireat ∧ n = -1 ∧ noExpire ≤ now)

theorem meant_iff (found : m.find key.text = some v) (fresh : ¬v.stale now) (free : v.locked = false) (clock : 0 < now)
    (word : now < 2 ^ 64) (text : num.text = decimalInt n) (low : -2 ^ 63 ≤ cmd.deadline now n)
    (high : cmd.deadline now n < 2 ^ 63) :
    Meant now key v.value (cmd.deadline now n) (m.keyExpire key.text (cmd.time now num)).1 ↔ Honoured cmd now n v := by
  by_cases later : now < cmd.deadline now n
  · have time := time_later text word low high later
    have other : ¬(cmd = .pexpireat ∧ n = -1 ∧ noExpire ≤ now) := by
      rintro ⟨rfl, rfl, _⟩
      simp only [Expiry.deadline] at later
      omega
    simp only [Honoured, later, other, true_and, or_false]
    by_cases forever : v.expire = noExpire
    · have held := keyExpire_unchanged (cmd.time now num) found (.inl forever)
      simpa [forever] using not_meant_forever held forever v.value later
    · have held := keyExpire_changed (cmd.time now num) found (by omega)
      have soon : now < cmd.time now num := by omega
      have live := meant_live (d := cmd.time now num) held rfl rfl soon (by omega)
      rw [time] at live
      simpa [forever] using live
  · have passed := Int.not_lt.1 later
    have sentinel := time_passed_iff text word low high passed
    simp only [Honoured, later, false_and, false_or, ← and_assoc, ← sentinel]
    by_cases refused : v.expire = noExpire ∨ (cmd.time now num = 0 ∧ v.expire = 0)
    · rw [meant_passed_iff (keyExpire_unchanged _ found refused) free _ passed]
      have never : ¬(cmd.time now num = noExpire ∧ noExpire ≤ now) := by
        rintro ⟨time, reached⟩
        obtain forever | ⟨zero, _⟩ := refused
        · exact fresh ⟨by rw [forever]; decide, by omega, by rwa [forever]⟩
        · rw [zero] at time
          exact absurd time (by decide)
      simp [fresh, never]
    · rw [meant_passed_iff (keyExpire_changed _ found refused) rfl _ passed]
      simp only [Stored.stale]
      constructor
      · rintro ⟨time, _, _, reached⟩
        exact ⟨time, by rwa [← time]⟩
      · rintro ⟨time, reached⟩
        exact ⟨time, by rw [time]; decide, by omega, by rwa [time]⟩

theorem expiry_meant_iff (cmd : Expiry) (m : Table) (name key num : Arg) (v : Stored) (now : Nat) (n : Int)
    (known : nameOf name.text = some cmd.name) (found : m.find key.text = some v) (fresh : ¬v.stale now)
    (free : v.locked = false) (clock : 0 < now) (word : now < 2 ^ 64) (text : num.text = decimalInt n)
    (low : -2 ^ 63 ≤ cmd.deadline now n) (high : cmd.deadline now n < 2 ^ 63) :
    (Meant now key v.value (cmd.deadline now n) (runHere { now := now } [name, key, num] m).1 ↔ Honoured cmd now n v) ∧
    (Meant now key v.value (cmd.deadline now n) (runRequest now (.regular cmd.op [name, key, num]) m).1 ↔
      Honoured cmd now n v) := by
  rw [runHere_state known, runRequest_state found free]
  have core := meant_iff found fresh free clock word text low high
  exact ⟨core, core⟩

def oneShard : Table := Table.only (ascii "k") { value := ascii "v", expire := 0 }

theorem expiry_meant_ten :
    Meant 1000 (arg "k") (ascii "v") 11000 (runHere { now := 1000 } [arg "EXPIRE", arg "k", arg "10"] oneShard).1 := by
  have found : oneShard.find (arg "k").text = some { value := ascii "v", expire := 0 } := by decide +kernel
  have deadline : Expiry.expire.deadline 1000 10 = 11000 := by decide +kernel
  rw [← deadline]
  have known : nameOf (arg "EXPIRE").text = some Expiry.expire.name := by decide +kernel
  have text : (arg "10").text = decimalInt 10 := by decide +kernel
  have low : -2 ^ 63 ≤ Expiry.expire.deadline 1000 10 := by rw [deadline]; norm_num
  have high : Expiry.expire.deadline 1000 10 < 2 ^ 63 := by rw [deadline]; norm_num
  have core := expiry_meant_iff .expire oneShard (arg "EXPIRE") (arg "k") (arg "10") { value := ascii "v", expire := 0 }
    1000 10 known found (fun stale => stale.1 rfl) rfl (by norm_num) (by norm_num) text low high
  have kept : Honoured .expire 1000 10 { value := ascii "v", expire := 0 } :=
    .inl ⟨by rw [deadline]; norm_num, by decide⟩
  obtain ⟨here, _⟩ := core
  rw [here]
  exact kept

theorem pexpireat_zero_persists :
    ¬Meant 1000 (arg "k") (ascii "v") 0 (runHere { now := 1000 } [arg "PEXPIREAT", arg "k", arg "0"] oneShard).1 := by
  intro meant
  have replies := meant [] 1000 (Nat.le_refl _) (by simp)
  revert replies
  decide +kernel

end Commands

end FreakV.Commands
