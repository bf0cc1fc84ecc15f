import FreakV.Step

namespace FreakV

structure MessageUnion where
  w0 : Nat
  w1 : Nat
  w2 : Nat
  w3 : Nat
  w4 : Nat
  w5 : Nat
  w6 : Nat
deriving DecidableEq

def halves (low high : Nat) : Nat := low % 2 ^ 32 + 2 ^ 32 * (high % 2 ^ 32)

structure Memory where
  word : Nat → Option Nat
  bytes : Nat → Nat → Option Bytes

structure ReplyFields where
  kvObjPtr : Nat := 0
  replyBuf : Nat := 0
  replyInt : Nat := 0
  replyLen : Nat := 0
  replyType : Nat

namespace MessageUnion

def regularReq (u : MessageUnion) (argc argv arglen connPtr reqNb pipelineIdx : Nat) : MessageUnion :=
  { u with
    w0 := halves argc (u.w0 / 2 ^ 32)
    w1 := argv
    w2 := arglen
    w3 := connPtr
    w4 := reqNb
    w5 := halves pipelineIdx (u.w5 / 2 ^ 32) }

def connPtr (part : Bool) (u : MessageUnion) : Nat := if part then u.w1 else u.w3

def reqNb (part : Bool) (u : MessageUnion) : Nat := if part then u.w2 else u.w4

def pipelineIdx (part : Bool) (u : MessageUnion) : Nat := if part then u.w3 / 2 ^ 32 else u.w5 % 2 ^ 32

def subIdx (part : Bool) (u : MessageUnion) : Nat := if part then u.w4 % 2 ^ 32 else 0

def finish (part : Bool) (u : MessageUnion) (r : ReplyFields) : MessageUnion where
  w0 := u.connPtr part
  w1 := u.reqNb part
  w2 := r.kvObjPtr
  w3 := r.replyBuf
  w4 := r.replyInt
  w5 := halves (u.pipelineIdx part) (u.subIdx part)
  w6 := halves r.replyLen (r.replyType % 256 + 256 * (u.w6 / 2 ^ 40))

/-- Key and length as `proxy_exec` and `mset_reanchor_lock_after_regular` take them from the message. Nothing is the
read of an address that is not mapped; without a key both are 0. -/
def keyOf (part : Bool) (mem : Memory) (u : MessageUnion) : Option (Nat × Nat) :=
  if part then some (u.w0, u.w3 % 2 ^ 32)
  else if 1 < u.w0 % 2 ^ 32 then
    match mem.word (u.w1 + 8), mem.word (u.w2 + 8) with
    | some key, some klen => some (key, klen)
    | _, _ => none
  else some (0, 0)

end MessageUnion

def RegularOp.isPart : RegularOp → Bool
  | .mgetPart | .delPart => true
  | _ => false

/-- The message of `m`: its key stands in the input buffer, before the line end of the protocol, and the connection
is not in the buffer. The buffer's address is above its size. -/
structure Carries (mem : Memory) (u : MessageUnion) (m : RegularReq) (cap key klen : Nat) : Prop where
  deferred : u.keyOf m.op.isPart mem = some (key, klen)
  bytes : mem.bytes key klen = some m.key
  room : mem.word (u.reqNb m.op.isPart + 8) = some cap
  inside : u.reqNb m.op.isPart + 16 ≤ key ∧ key + klen < u.reqNb m.op.isPart + 16 + cap
  apart : u.connPtr m.op.isPart < u.reqNb m.op.isPart ∨
    u.reqNb m.op.isPart + 16 + cap ≤ u.connPtr m.op.isPart
  above : cap < u.reqNb m.op.isPart

variable {mem : Memory} {u : MessageUnion} {m : RegularReq} {cap key klen : Nat}

theorem Carries.keyOf_finish (carries : Carries mem u m cap key klen) (r : ReplyFields) :
    (u.finish m.op.isPart r).keyOf m.op.isPart mem ≠ some (key, klen) := by
  obtain ⟨-, -, room, ⟨first, last⟩, apart, above⟩ := carries
  cases part : m.op.isPart with
  | true =>
    simp only [part] at first last apart above
    simp only [MessageUnion.keyOf, MessageUnion.finish, if_true, ne_eq, Option.some.injEq, Prod.mk.injEq, not_and]
    omega
  | false =>
    simp only [part] at room first last apart above
    simp only [MessageUnion.keyOf, MessageUnion.finish, Bool.false_eq_true, if_false, room]
    split
    · cases mem.word (r.kvObjPtr + 8) with
      | none => simp
      | some length =>
        simp only [ne_eq, Option.some.injEq, Prod.mk.injEq, not_and]
        omega
    · simp only [ne_eq, Option.some.injEq, Prod.mk.injEq, not_and]
      omega

def Memory.misread (mem : Memory) : Option (Nat × Nat) → Misread
  | none => .fault
  | some (key, klen) =>
    if key = 0 ∨ klen = 0 then .nothing
    else
      match mem.bytes key klen with
      | none => .fault
      | some bytes => .key bytes

structure Answers (mem : Memory) (m : RegularReq) (reply : Reply) (r : ReplyFields) : Prop where
  found : reply.kvObjPtr.isSome → mem.word (r.kvObjPtr + 8) = some 0
  missing : reply.kvObjPtr = none → r.kvObjPtr = 0
  silent : m.op = .mgetPart → r.replyBuf = 0
  unmapped : mem.word 8 = none

namespace Engine

theorem rereadKey_eq {reply : Reply} {r : ReplyFields} (carries : Carries mem u m cap key klen)
    (answers : Answers mem m reply r) (env : StepEnv) :
    let read := mem.misread ((u.finish m.op.isPart r).keyOf m.op.isPart mem)
    rereadKey m reply { env with misread := read } = read := by
  have room := carries.room
  intro read
  unfold rereadKey
  split
  next op =>
    have part : m.op.isPart = true := by rw [op]; rfl
    have length : (u.finish true r).w3 = 0 := answers.silent op
    simp [read, part, MessageUnion.keyOf, length, Memory.misread]
  · rfl
  next notGet notDel =>
    have part : m.op.isPart = false := by
      unfold RegularOp.isPart
      split
      next op => exact absurd op notGet
      next op => exact absurd op notDel
      · rfl
    rw [part] at room
    simp only [read, part, MessageUnion.keyOf, MessageUnion.finish, Bool.false_eq_true, if_false, room]
    cases kv : reply.kvObjPtr with
    | some obj =>
      have first := answers.found (by simp [kv])
      split <;> simp [first, Memory.misread]
    | none =>
      have null := answers.missing kv
      have unmapped : mem.word (r.kvObjPtr + 8) = none := by
        rw [null, Nat.zero_add]
        exact answers.unmapped
      split <;> simp [unmapped, Memory.misread]

def drainMessage (e : Engine) (s : ShardId) (l : LeId) (env : StepEnv) (mem : Memory) (u : MessageUnion) (m : RegularReq)
    (r : ReplyFields) : Engine :=
  e.drainRegular s l { env with misread := mem.misread ((u.finish m.op.isPart r).keyOf m.op.isPart mem) } m

structure Reanchors (e : Engine) (s : ShardId) (l : LeId) (env : StepEnv) (mem : Memory) (u : MessageUnion) (m : RegularReq)
    (r : ReplyFields) : Prop where
  read : (u.finish m.op.isPart r).keyOf m.op.isPart mem = u.keyOf m.op.isPart mem
  sound : (e.drainMessage s l env mem u m r).fault = false
  anchored : ∀ obj, (e.drainMessage s l env mem u m r).htBucketGet s m.key = some obj →
    ((e.drainMessage s l env mem u m r).les l).objPtr = obj

theorem never_reanchors (carries : Carries mem u m cap key klen) (e : Engine) (s : ShardId) (l : LeId) (env : StepEnv)
    (r : ReplyFields) : ¬ e.Reanchors s l env mem u m r := by
  intro reanchors
  have same := reanchors.read
  rw [carries.deferred] at same
  exact carries.keyOf_finish r same

def committed : Engine :=
  ((((Engine.init 1 1 fun _ => 0).allocObj [107] [49] none).shardBucketPut 0 0 0).addLe 0 0 (hash56 [107]) 0).updLe 0
    fun le => { le with holder := none }

def setMemory : Memory where
  word address :=
    match address with
    | 20008 => some 65579
    | 20108 => some 1
    | 65544 => some 4096
    | _ => none
  bytes address length := if address = 65579 ∧ length = 1 then some [107] else none

def setMessage : MessageUnion :=
  MessageUnion.regularReq ⟨0, 0, 0, 0, 0, 0, 0⟩ 3 20000 20100 8192 65536 0

def setReq : RegularReq :=
  { op := .set [50] .always .none, key := [107], origin := 0, conn := 0, pipelineIdx := 0, subIdx := 0, rid := 0,
    arrival := 0 }

theorem carries_set : Carries setMemory setMessage setReq 4096 65579 1 where
  deferred := by decide +kernel
  bytes := by decide +kernel
  room := by decide +kernel
  inside := by decide +kernel
  apart := by decide +kernel
  above := by decide +kernel

theorem never_reanchors_set : ¬ committed.Reanchors 0 0 {} setMemory setMessage setReq { replyType := 1 } :=
  never_reanchors carries_set committed 0 0 {} { replyType := 1 }

/-- The reply of the SET has no object, so the length of the key is read through NULL. Were it not, the entry would still
be filed under the object that the SET has replaced. -/
theorem set_reads_null :
    (setMessage.finish false { replyType := 1 }).keyOf false setMemory = none ∧
    (committed.drainMessage 0 0 {} setMemory setMessage setReq { replyType := 1 }).fault = true ∧
    (committed.drainMessage 0 0 {} setMemory setMessage setReq { replyType := 1 }).htBucketGet 0 [107] = some 1 ∧
    ((committed.drainMessage 0 0 {} setMemory setMessage setReq { replyType := 1 }).les 0).objPtr = 0 ∧
    ¬ committed.Reanchors 0 0 {} setMemory setMessage setReq { replyType := 1 } := by
  have broken : (committed.drainMessage 0 0 {} setMemory setMessage setReq { replyType := 1 }).fault = true := by
    decide +kernel
  refine ⟨by decide +kernel, broken, by decide +kernel, by decide +kernel, fun reanchors => ?_⟩
  have sound := reanchors.sound
  rw [broken] at sound
  cases sound

end Engine

end FreakV
