import FreakV.Commands.Model

namespace FreakV.Commands

open HashTable (PutFlags)

structure Stored where
  value : Bytes
  expire : Nat
  locked : Bool := false
deriving DecidableEq

def Stored.stale (v : Stored) (now : Nat) : Prop := v.expire ≠ 0 ∧ now ≠ 0 ∧ v.expire ≤ now

instance (v : Stored) (now : Nat) : Decidable (v.stale now) :=
  inferInstanceAs (Decidable (v.expire ≠ 0 ∧ now ≠ 0 ∧ v.expire ≤ now))

structure Table where
  map : Bytes → Option Stored := fun _ => none
  used : Nat := 0
  memFull : Bool := false

namespace Table

def storedKey (key : Bytes) : Bytes := key.take (key.length % 2 ^ 16)

def storedValue (key val : Bytes) : Bytes := ((key ++ val ++ [0]).drop (key.length % 2 ^ 16)).take (val.length % 2 ^ 32)

def find (m : Table) (key : Bytes) : Option Stored := if key.length < 2 ^ 16 then m.map key else none

def put (m : Table) (key : Bytes) (v : Stored) : Table :=
  { m with map := Function.update m.map key (some v), used := if (m.map key).isSome then m.used else m.used + 1 }

def remove (m : Table) (key : Bytes) : Table :=
  { m with map := Function.update m.map key none, used := if (m.map key).isSome then m.used - 1 else m.used }

def isLocked (m : Table) (key : Bytes) : Bool := (m.find key).elim false Stored.locked

def expireGet (m : Table) (key : Bytes) : Nat := (m.find key).elim noExpire Stored.expire

def keySet (m : Table) (key val : Bytes) (expire : Nat) (flags : PutFlags) : Table × Bool :=
  if (flags = .nx ∧ (m.find key).isSome) ∨ (flags = .xx ∧ (m.find key).isNone) then (m, false)
  else if m.memFull then (m, false)
  else (m.put (storedKey key) { value := storedValue key val, expire := expire }, true)

def keyGet (m : Table) (key : Bytes) (now : Nat) : Table × Option Bytes :=
  match m.find key with
  | none => (m, none)
  | some v => if v.stale now ∧ v.locked = false then (m.remove key, none) else (m, some v.value)

def keyDelete (m : Table) (key : Bytes) : Table × Bool :=
  match m.find key with
  | none => (m, false)
  | some _ => (m.remove key, true)

def keyExpire (m : Table) (key : Bytes) (expire : Nat) : Table × Bool :=
  match m.find key with
  | none => (m, false)
  | some v =>
    if v.expire = noExpire ∨ (expire = 0 ∧ v.expire = 0) then (m, false)
    else (m.put key { v with expire := expire, locked := false }, true)

def flush (m : Table) : Table := { m with map := fun _ => none, used := 0 }

def api : ShardApi Table where
  isLocked := isLocked
  lockDefer := fun m _ => (m, true)
  keySet := keySet
  keyGet := keyGet
  keyDelete := keyDelete
  keyExpire := keyExpire
  expireGet := expireGet
  used := used
  flush := flush

@[simp] theorem api_isLocked : api.isLocked = isLocked := rfl
@[simp] theorem api_keySet : api.keySet = keySet := rfl
@[simp] theorem api_keyGet : api.keyGet = keyGet := rfl
@[simp] theorem api_keyDelete : api.keyDelete = keyDelete := rfl
@[simp] theorem api_keyExpire : api.keyExpire = keyExpire := rfl
@[simp] theorem api_expireGet : api.expireGet = expireGet := rfl

section One

variable {key : Bytes}

theorem find_eq (m : Table) (short : key.length < 2 ^ 16) : m.find key = m.map key := if_pos short

theorem storedKey_eq (short : key.length < 2 ^ 16) : storedKey key = key := by
  rw [storedKey, Nat.mod_eq_of_lt short, List.take_length]

def only (key : Bytes) (v : Stored) : Table := { map := Function.update (fun _ => none) key (some v), used := 1 }

def other (key val : Bytes) : Stored := { value := storedValue key val ++ [0], expire := 0 }

theorem isLocked_empty (key : Bytes) : api.isLocked {} key = false := by
  simp [isLocked, find]

theorem isLocked_only {v : Stored} (free : v.locked = false) : api.isLocked (only key v) key = false := by
  simp only [api_isLocked, isLocked, find, only, Function.update_self]
  split
  · exact free
  · rfl

theorem set_empty (short : key.length < 2 ^ 16) (val : Bytes) (o : SetOptions) :
    (api.keySet {} key val (keptExpire api {} key o) o.flags).1.map key =
      if o.flags = .xx then none else some { value := storedValue key val, expire := o.expire } := by
  have kept : keptExpire api {} key o = o.expire := by simp [keptExpire, expireGet, find_eq _ short]
  rw [kept]
  cases o.flags <;> simp [keySet, find_eq _ short, put, storedKey_eq short]

theorem set_only (short : key.length < 2 ^ 16) (v : Stored) (lasts : v.expire = 0) (val : Bytes) (o : SetOptions) :
    (api.keySet (only key v) key val (keptExpire api (only key v) key o) o.flags).1.map key =
      if o.flags = .nx then some v else some { value := storedValue key val, expire := o.expire } := by
  have kept : keptExpire api (only key v) key o = o.expire := by
    simp [keptExpire, expireGet, find_eq _ short, only, lasts]
  rw [kept]
  cases o.flags <;> simp [keySet, find_eq _ short, put, only, storedKey_eq short]

end One

end Table

end FreakV.Commands
