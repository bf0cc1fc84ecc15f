import FreakV.HashTable.Model

namespace FreakV.HashTable

abbrev ShortKey := { key : Bytes // key.length ≤ 65535 }

structure ShortObj where
  obj : RawObj
  keyLen_le : obj.keyLen ≤ 65535
  keyLen_le_data : obj.keyLen ≤ obj.data.length

def ShortObj.key (o : ShortObj) : ShortKey :=
  ⟨o.obj.objKeyGet, by simpa [RawObj.objKeyGet] using Or.inl o.keyLen_le⟩

structure Entry where
  obj : RawObj
  expire : Nat
  locked : Bool
deriving DecidableEq

abbrev KeyMap := Bytes → Option Entry

inductive Op
  | put (obj : ShortObj) (expire : Nat) (flags : PutFlags) (load : Bool)
  | get (key : ShortKey) (now : Nat)
  | getLazy (key : ShortKey) (now : Nat)
  | take (key : ShortKey)
  | takeIfUnlocked (key : ShortKey) (expected : Nat)
  | delete (key : ShortKey)
  | setLockStatus (key : ShortKey) (locked : Bool)
  | isLocked (key : ShortKey)
  | expireGet (key : ShortKey)

inductive Result
  | put (r : PutResult)
  | obj (o : Option RawObj)
  | expired (live stale : Option RawObj)
  | taken (o : Option RawObj) (lockedOut : Bool)
  | bool (b : Bool)
  | expire (at_ : Nat)
deriving DecidableEq

def KeyMap.empty : KeyMap := fun _ => none

def KeyMap.remove (m : KeyMap) (key : Bytes) : KeyMap := Function.update m key none

theorem KeyMap.remove_eq_some {m : KeyMap} {key other : Bytes} {v : Entry} :
    m.remove key other = some v ↔ other ≠ key ∧ m other = some v := by
  rw [remove, Function.update_apply]
  split <;> simp_all

theorem KeyMap.update_eq_some {m : KeyMap} {key other : Bytes} {v w : Entry} :
    Function.update m key (some v) other = some w ↔ other = key ∧ v = w ∨ m.remove key other = some w := by
  rw [remove_eq_some, Function.update_apply]
  split <;> simp_all

def KeyMap.put (m : KeyMap) (obj : RawObj) (expire : Nat) (flags : PutFlags) : KeyMap × PutResult :=
  let key := obj.objKeyGet
  if (flags = .nx ∧ (m key).isSome) ∨ (flags = .xx ∧ (m key).isNone) then (m, .refused)
  else
    (Function.update m key (some { obj := obj, expire := expire, locked := false }),
      match m key with
      | some old => .replaced (some old.obj)
      | none => .inserted)

def Entry.stale (v : Entry) (now : Nat) : Prop := v.expire ≠ 0 ∧ now ≠ 0 ∧ v.expire ≤ now

instance (v : Entry) (now : Nat) : Decidable (v.stale now) :=
  inferInstanceAs (Decidable (v.expire ≠ 0 ∧ now ≠ 0 ∧ v.expire ≤ now))

def KeyMap.step (m : KeyMap) : Op → KeyMap × Result
  | .put obj expire flags _ => ((m.put obj.obj expire flags).1, .put (m.put obj.obj expire flags).2)
  | .get key now => (m, .obj (((m key).filter fun v => ¬v.stale now).map Entry.obj))
  | .getLazy key now =>
    match m key with
    | none => (m, .expired none none)
    | some v => if v.stale now ∧ ¬v.locked then (m.remove key, .expired none (some v.obj)) else (m, .expired (some v.obj) none)
  | .take key => (m.remove key, .obj ((m key).map Entry.obj))
  | .takeIfUnlocked key expected =>
    match m key with
    | none => (m, .taken none false)
    | some v =>
      if v.obj.addr ≠ expected then (m, .taken none false)
      else if v.locked then (m, .taken none true)
      else (m.remove key, .taken (some v.obj) false)
  | .delete key => (m.remove key, .bool (m key).isSome)
  | .setLockStatus key locked => (Function.update m key ((m key).map fun v => { v with locked := locked }), .bool (m key).isSome)
  | .isLocked key => (m, .bool ((m key).elim false Entry.locked))
  | .expireGet key => (m, .expire ((m key).elim (2 ^ 64 - 1) Entry.expire))

def KeyMap.run (m : KeyMap) : List Op → KeyMap × List Result
  | [] => (m, [])
  | op :: ops =>
    let (m, r) := m.step op
    let (m, rs) := m.run ops
    (m, r :: rs)

section Table

variable (hash : Bytes → BitVec 64)

def step (t : HashTable) (g : Growth) : Op → HashTable × Result
  | .put obj expire flags load =>
    let (t, r) := t.bucketPut hash obj.obj expire flags { g with load := load }
    (t, .put r)
  | .get key now => (t, .obj (t.bucketGet hash key now))
  | .getLazy key now =>
    let (t, live, stale) := t.bucketGetLazy hash key now
    (t, .expired live stale)
  | .take key =>
    let (t, o) := t.bucketTake hash key
    (t, .obj o)
  | .takeIfUnlocked key expected =>
    let (t, o, lockedOut) := t.bucketTakeIfUnlocked hash key expected
    (t, .taken o lockedOut)
  | .delete key =>
    let (t, b) := t.bucketDelete hash key
    (t, .bool b)
  | .setLockStatus key locked =>
    let (t, b) := t.bucketSetLockStatus hash key locked
    (t, .bool b)
  | .isLocked key => (t, .bool (t.bucketIsLocked hash key))
  | .expireGet key => (t, .expire (t.expireGet hash key))

def run (t : HashTable) : List Op → HashTable × List Result
  | [] => (t, [])
  | op :: ops =>
    let (t, r) := t.step hash {} op
    let (t, rs) := t.run ops
    (t, r :: rs)

end Table

end FreakV.HashTable
