import FreakV.Commands.Calls
import FreakV.Net.Digits

namespace FreakV.Commands

open HashTable (PutFlags)
open Net (ascii digitsOf PipelineSlot leadingNumber_digitsOf)

def Stored.shown (v : Stored) (t : Nat) : Option (Bytes × Nat) := if v.stale t then none else some (v.value, v.expire)

theorem Stored.stale.later {v : Stored} {now t : Nat} (past : v.stale now) (later : now ≤ t) : v.stale t := by
  obtain ⟨timed, clock, reached⟩ := past
  exact ⟨timed, by omega, by omega⟩

theorem Stored.shown_iff {v x : Stored} {now : Nat} (past : v.stale now) :
    (∀ t, now ≤ t → v.shown t = x.shown t) ↔ x.expire ≠ 0 ∧ x.expire ≤ now := by
  constructor
  · intro same
    have unseen := same now (Nat.le_refl now)
    rw [shown, if_pos past, shown] at unseen
    split at unseen
    · next past => exact ⟨past.1, past.2.2⟩
    · cases unseen
  · rintro ⟨timed, reached⟩ t later
    have stale : x.stale now := ⟨timed, past.2.1, reached⟩
    rw [shown, shown, if_pos (past.later later), if_pos (stale.later later)]

namespace Table

def visible (m : Table) (t : Nat) (key : Bytes) : Option (Bytes × Nat) := (m.find key).bind (Stored.shown · t)

def SameView (now : Nat) (m m' : Table) : Prop := ∀ t, now ≤ t → ∀ key, m.visible t key = m'.visible t key

def Beside (hole : Option (Bytes × Stored)) (q : Bytes) : Prop := ∀ v, hole ≠ some (q, v)

structure Twins (hole : Option (Bytes × Stored)) (m m' : Table) : Prop where
  rest : ∀ key, Beside hole key → m.find key = m'.find key
  apart : ∀ k v, hole = some (k, v) → m.find k = some v ∧ m'.find k = none
  full : m.memFull = m'.memFull

section Find

variable {m m' : Table} {key q : Bytes} {x : Stored}

theorem find_put (short : q.length < 2 ^ 16) : (m.put q x).find key = if key = q then some x else m.find key := by
  by_cases same : key = q
  · subst same
    simp [find_eq _ short, put]
  · simp [find, put, same]

theorem find_remove : (m.remove q).find key = if key = q then none else m.find key := by
  by_cases same : key = q
  · simp [find, remove, same]
  · simp [find, remove, same]

theorem short_of_find (found : m.find key = some x) : key.length < 2 ^ 16 := by
  by_contra long
  rw [find, if_neg long] at found
  cases found

theorem length_storedKey (key : Bytes) : (storedKey key).length < 2 ^ 16 := by
  have small := Nat.mod_lt key.length (show 0 < 2 ^ 16 by norm_num)
  simp only [storedKey, List.length_take]
  omega

theorem beside_none (q : Bytes) : Beside none q := by rintro v ⟨⟩

theorem beside_some {k : Bytes} {v : Stored} (other : q ≠ k) : Beside (some (k, v)) q := by
  rintro _ ⟨⟩
  exact other rfl

theorem Twins.of_remove {k : Bytes} {v : Stored} (found : m.find k = some v) : Twins (some (k, v)) m (m.remove k) where
  rest key beside := by
    rw [find_remove, if_neg]
    rintro rfl
    exact beside v rfl
  apart := by
    rintro _ _ ⟨⟩
    exact ⟨found, by rw [find_remove, if_pos rfl]⟩
  full := rfl

theorem Twins.view {hole : Option (Bytes × Stored)} {now : Nat} (twins : Twins hole m m')
    (past : ∀ k v, hole = some (k, v) → v.stale now) : SameView now m m' := by
  intro t later key
  by_cases beside : Beside hole key
  · rw [visible, visible, twins.rest key beside]
  · obtain ⟨v, here⟩ := not_forall_not.1 beside
    obtain ⟨found, gone⟩ := twins.apart key v here
    simp [visible, found, gone, Stored.shown, (past key v here).later later]

end Find

section Steps

variable {hole : Option (Bytes × Stored)} {m m' : Table} {q : Bytes} {x : Stored}
  (twins : Twins hole m m') (beside : Beside hole q)

include twins beside

theorem Twins.put (short : q.length < 2 ^ 16) : Twins hole (m.put q x) (m'.put q x) where
  rest key away := by rw [find_put short, find_put short, twins.rest key away]
  apart k v here := by
    have other : k ≠ q := fun same => beside v (same ▸ here)
    rw [find_put short, find_put short, if_neg other, if_neg other]
    exact twins.apart k v here
  full := twins.full

theorem Twins.remove : Twins hole (m.remove q) (m'.remove q) where
  rest key away := by rw [find_remove, find_remove, twins.rest key away]
  apart k v here := by
    have other : k ≠ q := fun same => beside v (same ▸ here)
    rw [find_remove, find_remove, if_neg other, if_neg other]
    exact twins.apart k v here
  full := twins.full

theorem Twins.keyGet (now : Nat) :
    (m.keyGet q now).2 = (m'.keyGet q now).2 ∧ Twins hole (m.keyGet q now).1 (m'.keyGet q now).1 := by
  unfold Table.keyGet
  rw [← twins.rest q beside]
  split
  · exact ⟨rfl, twins⟩
  · split
    · exact ⟨rfl, twins.remove beside⟩
    · exact ⟨rfl, twins⟩

theorem Twins.keyDelete : (m.keyDelete q).2 = (m'.keyDelete q).2 ∧ Twins hole (m.keyDelete q).1 (m'.keyDelete q).1 := by
  unfold Table.keyDelete
  rw [← twins.rest q beside]
  split
  · exact ⟨rfl, twins⟩
  · exact ⟨rfl, twins.remove beside⟩

theorem Twins.keyExpire (expire : Nat) :
    (m.keyExpire q expire).2 = (m'.keyExpire q expire).2 ∧
      Twins hole (m.keyExpire q expire).1 (m'.keyExpire q expire).1 := by
  unfold Table.keyExpire
  rw [← twins.rest q beside]
  split
  · exact ⟨rfl, twins⟩
  · next found =>
    split
    · exact ⟨rfl, twins⟩
    · exact ⟨rfl, twins.put beside (short_of_find found)⟩

end Steps

section Hole

variable {m m' : Table} {k : Bytes} {v x : Stored} (twin : Twins (some (k, v)) m m')

include twin

theorem Twins.found : m.find k = some v := (twin.apart k v rfl).1

theorem Twins.gone : m'.find k = none := (twin.apart k v rfl).2

theorem Twins.unseen {now : Nat} (past : v.stale now) : SameView now m m' := by
  refine twin.view ?_
  rintro _ _ ⟨⟩
  exact past

theorem Twins.put_same : Twins none (m.put k x) (m'.put k x) where
  rest key _ := by
    have short := short_of_find twin.found
    rw [find_put short, find_put short]
    split
    · rfl
    · next away => exact twin.rest key (beside_some away)
  apart := by rintro _ _ ⟨⟩
  full := twin.full

theorem Twins.view_put_iff {x x' : Stored} (now : Nat) :
    SameView now (m.put k x) (m'.put k x') ↔ ∀ t, now ≤ t → x.shown t = x'.shown t := by
  have short := short_of_find twin.found
  constructor
  · intro view t later
    simpa [visible, find_put short] using view t later k
  · intro shown t later key
    rw [visible, visible, find_put short, find_put short]
    split
    · exact shown t later
    · next away => rw [twin.rest key (beside_some away)]

theorem Twins.remove_same : Twins none (m.remove k) m' where
  rest key _ := by
    rw [find_remove]
    split
    · next same => rw [same, twin.gone]
    · next away => exact twin.rest key (beside_some away)
  apart := by rintro _ _ ⟨⟩
  full := twin.full

end Hole

theorem Twins.same {m m' : Table} (twins : Twins none m m') (now : Nat) : SameView now m m' :=
  twins.view (by rintro _ _ ⟨⟩)

section Calls

variable {m m' : Table} {k q : Bytes} {v : Stored} {now : Nat} {β : Type}

def Unseen (now : Nat) (m m' : Table) (run : Table → Table × β) : Prop :=
  (run m).2 = (run m').2 ∧ SameView now (run m).1 (run m').1

variable (twin : Twins (some (k, v)) m m') (past : v.stale now)

include twin past

theorem unseen_const (b : β) : Unseen now m m' fun s => (s, b) := ⟨rfl, twin.unseen past⟩

theorem unseen_get (f : Option Bytes → β) :
    (Unseen now m m' fun s => ((s.keyGet q now).1, f (s.keyGet q now).2)) ↔
      (q = k → v.locked = true → f (some v.value) = f none) := by
  by_cases same : q = k
  · subst same
    have none : m'.keyGet q now = (m', none) := by simp [keyGet, twin.gone]
    cases locked : v.locked with
    | true =>
      have kept : m.keyGet q now = (m, some v.value) := by simp [keyGet, twin.found, locked]
      simp only [Unseen, kept, none, forall_const, and_iff_left_iff_imp]
      exact fun _ => twin.unseen past
    | false =>
      have removed : m.keyGet q now = (m.remove q, Option.none) := by simp [keyGet, twin.found, locked, past]
      simpa [Unseen, removed, none] using twin.remove_same.same now
  · obtain ⟨reply, twin⟩ := twin.keyGet (beside_some same) now
    simp only [same, false_imp_iff, iff_true]
    exact ⟨congrArg f reply, twin.unseen past⟩

theorem unseen_ttl (f : Nat → β) :
    (Unseen now m m' fun s => (s, f (s.expireGet q))) ↔ (q = k → f v.expire = f noExpire) := by
  have view := twin.unseen past
  by_cases same : q = k
  · subst same
    simp [Unseen, view, expireGet, twin.found, twin.gone]
  · simp [Unseen, view, expireGet, twin.rest q (beside_some same), same]

theorem unseen_expire (f : Bool → β) (tells : f true ≠ f false) (expire : Nat) :
    (Unseen now m m' fun s => ((s.keyExpire q expire).1, f (s.keyExpire q expire).2)) ↔ (q = k → v.expire = noExpire) := by
  by_cases same : q = k
  · subst same
    by_cases forever : v.expire = noExpire
    · simp [Unseen, twin.unseen past, keyExpire, twin.found, twin.gone, forever]
    · simp [Unseen, keyExpire, twin.found, twin.gone, forever, past.1, tells]
  · obtain ⟨reply, twin⟩ := twin.keyExpire (beside_some same) expire
    simp only [same, false_imp_iff, iff_true]
    exact ⟨congrArg f reply, twin.unseen past⟩

/-- A SET of the key itself goes unnoticed only without NX and XX, and with KEEPTTL only if it sets no other time than one
that is over. When memory is exhausted it does nothing at all. -/
def QuietSet (v : Stored) (full : Bool) (now : Nat) (o : SetOptions) : Prop :=
  full = true ∨ (o.flags = .none ∧ (o.keepttl = true ∧ v.expire ≠ noExpire → o.expire ≠ 0 ∧ o.expire ≤ now))

theorem unseen_set_other (other : q ≠ k) (f : Bool → β) (val : Bytes) (o : SetOptions) :
    Unseen now m m' fun s =>
      ((api.keySet s q val (keptExpire api s q o) o.flags).1, f (api.keySet s q val (keptExpire api s q o) o.flags).2) := by
  have same := twin.rest q (beside_some other)
  have old : api.expireGet m q = api.expireGet m' q := by simp only [api_expireGet, expireGet, same]
  have kept : keptExpire api m q o = keptExpire api m' q o := by rw [keptExpire, keptExpire, old]
  simp only [Unseen, api_keySet, kept, keySet, same, twin.full]
  split
  · exact ⟨rfl, twin.unseen past⟩
  · split
    · exact ⟨rfl, twin.unseen past⟩
    · refine ⟨rfl, ?_⟩
      -- a key of 2^16 bytes or more may be stored in the place of `k`
      by_cases place : storedKey q = k
      · rw [place]
        exact twin.put_same.same now
      · exact (twin.put (beside_some place) (length_storedKey q)).unseen past

theorem view_put_kept (value : Bytes) (o : SetOptions) :
    SameView now (m.put k { value := value, expire := keptExpire api m k o }) (m'.put k { value := value, expire := o.expire }) ↔
      (o.keepttl = true ∧ v.expire ≠ noExpire → o.expire ≠ 0 ∧ o.expire ≤ now) := by
  rw [twin.view_put_iff]
  by_cases keeps : o.keepttl = true ∧ v.expire ≠ noExpire
  · have kept : keptExpire api m k o = v.expire := by
      simp [keptExpire, expireGet, twin.found, keeps.1, keeps.2, Nat.pos_of_ne_zero past.1]
    have stays : ({ value := value, expire := v.expire } : Stored).stale now := past
    rw [kept, Stored.shown_iff stays]
    simp [keeps]
  · have kept : keptExpire api m k o = o.expire := by
      simp only [keptExpire, api_expireGet, expireGet, twin.found, Option.elim_some]
      rw [if_neg fun keep => keeps ⟨keep.1, keep.2.1⟩]
    simp [kept, keeps]

theorem unseen_set (f : Bool → β) (tells : f true ≠ f false) (val : Bytes) (o : SetOptions) :
    (Unseen now m m' fun s =>
      ((api.keySet s q val (keptExpire api s q o) o.flags).1, f (api.keySet s q val (keptExpire api s q o) o.flags).2)) ↔
    (q = k → QuietSet v m.memFull now o) := by
  by_cases same : q = k
  · subst same
    have short := short_of_find twin.found
    have full := twin.full
    have view := twin.unseen past
    have fresh : keptExpire api m' q o = o.expire := by simp [keptExpire, expireGet, twin.gone]
    simp only [forall_const]
    cases memory : m.memFull with
    | true =>
      rw [memory] at full
      cases flags : o.flags <;> simp [Unseen, QuietSet, keySet, twin.found, twin.gone, memory, ← full, view]
    | false =>
      rw [memory] at full
      cases flags : o.flags with
      | nx => simp [Unseen, QuietSet, keySet, twin.found, twin.gone, ← full, flags, tells.symm]
      | xx => simp [Unseen, QuietSet, keySet, twin.found, twin.gone, memory, flags, tells]
      | none =>
        have stored : m.keySet q val (keptExpire api m q o) .none =
            (m.put q { value := storedValue q val, expire := keptExpire api m q o }, true) := by
          simp [keySet, memory, storedKey_eq short]
        have stored' : m'.keySet q val o.expire .none =
            (m'.put q { value := storedValue q val, expire := o.expire }, true) := by
          simp [keySet, ← full, storedKey_eq short]
        simp only [Unseen, api_keySet, fresh, stored, stored', true_and, view_put_kept twin past]
        simp [QuietSet, flags]
  · simpa [same] using unseen_set_other twin past same f val o

section Guard

-- `mset_check_lock_defer` leaves a command on a locked key waiting.
def guarded (q : Bytes) (run : Table → Table × β) (s : Table) : Table × Option β :=
  if s.isLocked q then (s, none) else ((run s).1, some (run s).2)

theorem unseen_guarded {run : Table → Table × β} {P : Prop} (inner : Unseen now m m' run ↔ (q = k → P)) :
    Unseen now m m' (guarded q run) ↔ (q = k → v.locked = false ∧ P) := by
  by_cases same : q = k
  · subst same
    have free : m'.isLocked q = false := by simp [isLocked, twin.gone]
    cases locked : v.locked with
    | true => simp [Unseen, guarded, isLocked, twin.found, twin.gone, locked]
    | false =>
      have unlocked : m.isLocked q = false := by simp [isLocked, twin.found, locked]
      simpa [Unseen, guarded, free, unlocked] using inner
  · simp only [same, false_imp_iff, iff_true] at inner ⊢
    have both : m.isLocked q = m'.isLocked q := by simp only [isLocked, twin.rest q (beside_some same)]
    cases locked : m'.isLocked q with
    | true => simpa [Unseen, guarded, both, locked] using twin.unseen past
    | false => simpa [Unseen, guarded, both, locked] using inner

end Guard

end Calls

section Lists

variable {γ : Type}

def each (step : Bytes → Table → Table × γ) : List Bytes → Table → Table × List γ
  | [], s => (s, [])
  | q :: rest, s => ((each step rest (step q s).1).1, (step q s).2 :: (each step rest (step q s).1).2)

variable {step : Bytes → Table → Table × γ} {k : Bytes} {v : Stored}
  (steps : ∀ hole q m m', Twins hole m m' → Beside hole q →
    (step q m).2 = (step q m').2 ∧ Twins hole (step q m).1 (step q m').1)

include steps

theorem Twins.each {m m' : Table} (twins : Twins none m m') (keys : List Bytes) :
    (each step keys m).2 = (each step keys m').2 ∧ Twins none (each step keys m).1 (each step keys m').1 := by
  induction keys generalizing m m' with
  | nil => exact ⟨rfl, twins⟩
  | cons q rest ih =>
    obtain ⟨reply, twins⟩ := steps none q _ _ twins (beside_none q)
    obtain ⟨replies, twins⟩ := ih twins
    simp only [Table.each, reply, replies]
    exact ⟨trivial, twins⟩

theorem unseen_each {P : Prop} {now : Nat} (past : v.stale now)
    (quiet : P → ∀ m m', Twins (some (k, v)) m m' → (step k m).2 = (step k m').2 ∧ Twins none (step k m).1 (step k m').1)
    (loud : ¬P → ∀ m m', Twins (some (k, v)) m m' → (step k m).2 ≠ (step k m').2)
    {m m' : Table} (twin : Twins (some (k, v)) m m') (keys : List Bytes) :
    Unseen now m m' (each step keys) ↔ (k ∈ keys → P) := by
  induction keys generalizing m m' with
  | nil => simpa using ⟨rfl, twin.unseen past⟩
  | cons q rest ih =>
    by_cases same : q = k
    · subst same
      by_cases fine : P
      · obtain ⟨reply, twins⟩ := quiet fine _ _ twin
        obtain ⟨replies, twins⟩ := Twins.each steps twins rest
        simp only [Unseen, Table.each, reply, replies, fine]
        simpa using twins.same now
      · have differ := loud fine _ _ twin
        simp [Unseen, Table.each, differ, fine]
    · obtain ⟨reply, twin⟩ := steps _ q _ _ twin (beside_some same)
      rw [List.mem_cons, or_iff_right (Ne.symm same), ← ih twin]
      simp [Unseen, Table.each, reply]

end Lists

end Table

section Replies

theorem intText_injective {n k : Nat} (same : intText n = intText k) : n = k := by
  have digits : digitsOf n ++ ascii "\r\n" = digitsOf k ++ ascii "\r\n" := by simpa [intText] using same
  have numbers := congrArg (PipelineSlot.leadingNumber 0) digits
  have stop : ∀ b ∈ (ascii "\r\n").head?, ¬(48 ≤ b ∧ b ≤ 57) := by
    rintro _ ⟨⟩
    decide
  rwa [leadingNumber_digitsOf n stop, leadingNumber_digitsOf k stop] at numbers

theorem Answer.bytes_int (n : Nat) : (Answer.int n).bytes = intText n := by
  simp [Answer.bytes, Answer.int, PipelineSlot.dispatch, PipelineSlot.fill, PipelineSlot.serialize, intText]

theorem replyBytes_int (n : Nat) : replyBytes (intReply n) = intText n := Answer.bytes_int n

theorem kv_bytes_ne (value : Bytes) : replyBytes (kvReply (some value)) ≠ replyBytes (kvReply none) := by
  obtain ⟨b, rest, digits, low, _⟩ := Net.digitsOf_cons value.length
  have bulk : replyBytes (kvReply (some value)) = 36 :: b :: (rest ++ ascii "\r\n" ++ value ++ ascii "\r\n") := by
    change PipelineSlot.bulk value = _
    rw [PipelineSlot.bulk, digits]
    rfl
  have nil : replyBytes (kvReply none) = 36 :: 45 :: ascii "1\r\n" := by decide
  rw [bulk, nil]
  intro same
  injection same with _ same
  injection same with same _
  exact absurd low (by rw [same]; decide)

theorem int_bytes_tell : replyBytes (intReply (true.toNat : Nat)) ≠ replyBytes (intReply (false.toNat : Nat)) := by decide

theorem set_bytes_tell (flags : PutFlags) :
    replyBytes (if true then { replyType := .ok } else if flags ≠ .none then { replyType := .nil } else errReply "OOM") ≠
      replyBytes (if false then { replyType := .ok } else if flags ≠ .none then { replyType := .nil } else errReply "OOM") := by
  cases flags <;> decide

theorem ttl_bytes_iff {v : Stored} {now : Nat} (past : v.stale now) (ms : Bool) :
    replyBytes (intReply (shardKeyTtl v.expire now ms)) = replyBytes (intReply (shardKeyTtl noExpire now ms)) ↔
      v.expire = noExpire := by
  constructor
  · intro same
    by_contra timed
    have zero : shardKeyTtl v.expire now ms = 0 := by simp [shardKeyTtl, timed, past.1, past.2.2]
    have none : shardKeyTtl noExpire now ms = -2 := by simp [shardKeyTtl]
    rw [zero, none] at same
    exact absurd same (by decide)
  · intro same
    rw [same]

end Replies

section Calls

open Table

def Call.Quiet (now : Nat) (k : Bytes) (v : Stored) (full : Bool) : Call → Prop
  | .read what key => key = k → v.locked = true → what = .strlen ∧ v.value = []
  | .ttl _ key => key = k → v.expire = noExpire
  | .set key _ o => key = k → QuietSet v full now o
  | .expire key _ => key = k → v.expire = noExpire
  | .delete keys => k ∉ keys
  | .answer _ => True

theorem reading_bytes_iff (what : Reading) (value : Bytes) :
    replyBytes (what.reply (some value)) = replyBytes (what.reply none) ↔ what = .strlen ∧ value = [] := by
  cases what with
  | get => simpa [Reading.reply] using kv_bytes_ne value
  | exists_ => simpa [Reading.reply] using int_bytes_tell
  | strlen =>
    simp only [Reading.reply, Option.elim_some, Option.elim_none, replyBytes_int, true_and]
    constructor
    · exact fun same => List.length_eq_zero_iff.1 (intText_injective same)
    · rintro rfl
      rfl
  | type =>
    simp only [Reading.reply, Option.isSome_some, Option.isSome_none, reduceCtorEq, false_and, iff_false]
    decide

variable {m m' : Table} {k : Bytes} {v : Stored} {now : Nat}

theorem Table.Twins.deleteAll_beside {hole : Option (Bytes × Stored)} (twins : Twins hole m m') (keys : List Bytes)
    (beside : ∀ q ∈ keys, Beside hole q) :
    (deleteAll Table.api keys m).2 = (deleteAll Table.api keys m').2 ∧
      Twins hole (deleteAll Table.api keys m).1 (deleteAll Table.api keys m').1 := by
  induction keys generalizing m m' with
  | nil => exact ⟨rfl, twins⟩
  | cons q rest ih =>
    obtain ⟨done, twins⟩ := twins.keyDelete (beside q (List.mem_cons_self ..))
    obtain ⟨count, twins⟩ := ih twins fun q later => beside q (List.mem_cons_of_mem _ later)
    simp only [deleteAll_cons, api_keyDelete, done, count]
    exact ⟨trivial, twins⟩

variable (twin : Twins (some (k, v)) m m')

include twin

theorem Table.Twins.deleteAll_count (keys : List Bytes) (member : k ∈ keys) :
    (deleteAll Table.api keys m).2 = (deleteAll Table.api keys m').2 + 1 := by
  induction keys generalizing m m' with
  | nil => cases member
  | cons q rest ih =>
    simp only [deleteAll_cons, api_keyDelete]
    by_cases same : q = k
    · subst same
      have taken : m.keyDelete q = (m.remove q, true) := by simp [Table.keyDelete, twin.found]
      have absent : m'.keyDelete q = (m', false) := by simp [Table.keyDelete, twin.gone]
      have count := (twin.remove_same.deleteAll_beside rest fun q _ => beside_none q).1
      simp only [taken, absent, count, Bool.toNat_true, Bool.toNat_false]
      omega
    · obtain ⟨done, twin⟩ := twin.keyDelete (beside_some same)
      have count := ih twin ((List.mem_cons.1 member).resolve_left (Ne.symm same))
      rw [done, count]
      omega

theorem unseen_delete (past : v.stale now) (keys : List Bytes) :
    Unseen now m m' (fun s => (Call.delete keys).run Table.api now s) ↔ k ∉ keys := by
  constructor
  · rintro ⟨reply, _⟩ member
    have count := twin.deleteAll_count keys member
    have less := deleteAll_nonneg Table.api keys m'
    have more := deleteAll_nonneg Table.api keys m
    simp only [Call.run] at reply
    rw [← Int.toNat_of_nonneg less, ← Int.toNat_of_nonneg more, replyBytes_int, replyBytes_int] at reply
    have same := intText_injective reply
    omega
  · intro other
    obtain ⟨count, twin⟩ := twin.deleteAll_beside keys fun q member => beside_some fun same => other (same ▸ member)
    exact ⟨congrArg (fun n => replyBytes (intReply n)) count, twin.unseen past⟩

theorem Call.unseen_iff (past : v.stale now) (call : Call) :
    Unseen now m m' (fun s => call.run Table.api now s) ↔ call.Quiet now k v m.memFull := by
  cases call with
  | read what key =>
    simp only [Call.run, Call.Quiet, api_keyGet]
    rw [unseen_get twin past (fun x => replyBytes (what.reply x)), reading_bytes_iff]
  | ttl ms key =>
    simp only [Call.run, Call.Quiet, api_expireGet]
    rw [unseen_ttl twin past (fun exp => replyBytes (intReply (shardKeyTtl exp now ms))), ttl_bytes_iff past]
  | set key val o =>
    simp only [Call.run, Call.Quiet]
    rw [unseen_set twin past (fun ok => replyBytes (setReply o.flags ok)) (set_bytes_tell o.flags)]
  | expire key time =>
    simp only [Call.run, Call.Quiet, api_keyExpire]
    rw [unseen_expire twin past (fun done => replyBytes (intReply (done.toNat : Nat))) int_bytes_tell]
  | delete keys => exact unseen_delete twin past keys
  | answer text => simpa [Call.run, Call.Quiet] using unseen_const twin past text

end Calls

section Requests

open Table

def runHere (env : Env) (args : List Arg) (s : Table) : Table × Bytes :=
  ((respDispatch Table.api env args s).1, (respDispatch Table.api env args s).2.bytes)

def runRequest (now : Nat) (req : Request) (s : Table) : Table × Option Bytes :=
  ((proxyExec Table.api now req s).1, (proxyExec Table.api now req s).2.map replyBytes)

theorem msetCheckLockDefer_eq {req : Request} {q : Bytes} (names : req.key = some q) (s : Table) :
    msetCheckLockDefer Table.api req s = (s, s.isLocked q) := by
  cases locked : s.isLocked q with
  | true => simp [msetCheckLockDefer, names, locked, api]
  | false => simp [msetCheckLockDefer, names, locked]

theorem runRequest_regular (now : Nat) (op : ProxyOp) (name key : Arg) (more : List Arg) :
    runRequest now (.regular op (name :: key :: more)) =
      guarded key.text fun s => (proxyCall now op key more).run Table.api now s := by
  funext s
  have names : (Request.regular op (name :: key :: more)).key = some key.text := rfl
  rw [guarded, runRequest, proxyExec, msetCheckLockDefer_eq names, ← proxySwitch_call name]
  cases s.isLocked key.text <;> rfl

theorem runRequest_mgetPart (now : Nat) (q : Bytes) :
    runRequest now (.mgetPart q) = guarded q fun s => (Call.read .get q).run Table.api now s := by
  funext s
  rw [guarded, runRequest, proxyExec, msetCheckLockDefer_eq rfl]
  cases s.isLocked q <;> rfl

def deletePart (q : Bytes) (s : Table) : Table × Bytes := ((s.keyDelete q).1, intText (s.keyDelete q).2.toNat)

theorem runRequest_delPart (now : Nat) (q : Bytes) : runRequest now (.delPart q) = guarded q (deletePart q) := by
  funext s
  rw [guarded, runRequest, proxyExec, msetCheckLockDefer_eq rfl]
  cases s.isLocked q <;> rfl

section Guarded

variable {hole : Option (Bytes × Stored)} {m m' : Table} {q : Bytes} {β : Type} {run : Table → Table × β}

theorem Table.Twins.guarded (twins : Twins hole m m') (beside : Beside hole q)
    (inner : (run m).2 = (run m').2 ∧ Twins hole (run m).1 (run m').1) :
    (guarded q run m).2 = (guarded q run m').2 ∧ Twins hole (guarded q run m).1 (guarded q run m').1 := by
  have both : m.isLocked q = m'.isLocked q := by simp only [isLocked, twins.rest q beside]
  cases locked : m'.isLocked q with
  | true => simpa [Table.guarded, both, locked] using twins
  | false => simpa [Table.guarded, both, locked] using inner

end Guarded

variable {m m' : Table} {k : Bytes} {v : Stored} {now : Nat} (twin : Twins (some (k, v)) m m') (past : v.stale now)

include twin past

theorem unseen_mget (keys : List Bytes) :
    Unseen now m m' (each (fun q => runRequest now (.mgetPart q)) keys) ↔ (k ∈ keys → v.locked = false) := by
  simp only [runRequest_mgetPart]
  refine unseen_each ?_ past ?_ ?_ twin keys
  · intro hole q m m' twins beside
    obtain ⟨value, after⟩ := twins.keyGet beside now
    exact twins.guarded beside ⟨congrArg (fun x => replyBytes (kvReply x)) value, after⟩
  · intro free m m' twin
    have removed : m.keyGet k now = (m.remove k, none) := by simp [keyGet, twin.found, free, past]
    have absent : m'.keyGet k now = (m', none) := by simp [keyGet, twin.gone]
    simpa [guarded, isLocked, twin.found, twin.gone, free, Call.run, removed, absent] using twin.remove_same
  · intro locked m m' twin
    rw [Bool.not_eq_false] at locked
    simp [guarded, isLocked, twin.found, twin.gone, locked]

theorem unseen_del (keys : List Bytes) :
    Unseen now m m' (each (fun q => runRequest now (.delPart q)) keys) ↔ k ∉ keys := by
  simp only [runRequest_delPart]
  refine unseen_each (P := False) ?_ past False.elim ?_ twin keys
  · intro hole q m m' twins beside
    obtain ⟨done, after⟩ := twins.keyDelete beside
    exact twins.guarded beside ⟨congrArg (fun d : Bool => intText d.toNat) done, after⟩
  · intro _ m m' twin
    have tells : intText 1 ≠ intText 0 := by decide
    cases locked : v.locked <;>
      simp [guarded, isLocked, twin.found, twin.gone, locked, deletePart, keyDelete, tells]

theorem unseen_regular (op : ProxyOp) (single : op ≠ .del) (name key : Arg) (more : List Arg) :
    Unseen now m m' (runRequest now (.regular op (name :: key :: more))) ↔
      (key.text = k → v.locked = false ∧ (proxyCall now op key more).Quiet now k v m.memFull) := by
  rw [runRequest_regular]
  refine unseen_guarded twin past ?_
  rw [Call.unseen_iff twin past]
  by_cases same : key.text = k
  · simp [same]
  · cases op <;> cases more <;> simp_all [proxyCall, proxyTimed, Call.Quiet]

end Requests

section Main

open Table

theorem expired_unseen_iff (m : Table) (k : Bytes) (v : Stored) (now : Nat) (found : m.find k = some v)
    (timed : v.expire ≠ 0) (reached : v.expire ≤ now) :
    (∀ env name rest call, env.now = now → localCall now name rest = some call →
      (Unseen now m (m.remove k) (runHere env (name :: rest)) ↔ call.Quiet now k v m.memFull)) ∧
    (∀ op name key more, op ≠ .del →
      (Unseen now m (m.remove k) (runRequest now (.regular op (name :: key :: more))) ↔
        (key.text = k → v.locked = false ∧ (proxyCall now op key more).Quiet now k v m.memFull))) ∧
    (∀ keys, Unseen now m (m.remove k) (each (fun q => runRequest now (.mgetPart q)) keys) ↔
      (k ∈ keys → v.locked = false)) ∧
    (∀ keys, Unseen now m (m.remove k) (each (fun q => runRequest now (.delPart q)) keys) ↔ k ∉ keys) := by
  have twin := Twins.of_remove found
  have past : v.stale now := ⟨timed, by omega, reached⟩
  refine ⟨?_, ?_, unseen_mget twin past, unseen_del twin past⟩
  · rintro env name rest call rfl calls
    have run : runHere env (name :: rest) = fun s => call.run Table.api env.now s :=
      funext fun s => respDispatch_call calls s
    rw [run, Call.unseen_iff twin past]
  · intro op name key more single
    exact unseen_regular twin past op single name key more

def lateShard : Table := Table.only (ascii "k") { value := ascii "v", expire := 5 }

theorem expired_unseen_get : Unseen 9 lateShard (lateShard.remove (ascii "k")) (runHere { now := 9 } [arg "GET", arg "k"]) := by
  have found : lateShard.find (ascii "k") = some { value := ascii "v", expire := 5 } := by decide +kernel
  have calls : localCall 9 (arg "GET") [arg "k"] = some (.read .get (ascii "k")) := by decide +kernel
  refine ((expired_unseen_iff lateShard _ _ 9 found (by decide) (by decide)).1 _ _ _ _ rfl calls).2 ?_
  intro _ locked
  cases locked

theorem expired_key_blocks_set :
    ¬Unseen 9 lateShard (lateShard.remove (ascii "k")) (runHere { now := 9 } [arg "SET", arg "k", arg "w", arg "NX"]) := by
  intro unseen
  have reply := unseen.1
  revert reply
  decide +kernel

end Main

end FreakV.Commands
