import FreakV.Shard.Evict

namespace FreakV.Shard.State

open HashTable

def Over (now : Nat) (v : Entry) : Prop := v.expire ≠ 0 ∧ v.expire ≤ now

instance (now : Nat) (v : Entry) : Decidable (Over now v) := inferInstanceAs (Decidable (v.expire ≠ 0 ∧ v.expire ≤ now))

variable {hash : Bytes → BitVec 64} {env : Env} {s s' : State} {now : Nat}

theorem Agree.front_le (agree : s.Agree hash) {key : Bytes} {v : Entry} (entry : s.table.view key = some v)
    (timed : v.expire ≠ 0) : 0 < s.ttl.size ∧ (s.ttl.heap 0).expire ≤ v.expire := by
  obtain ⟨i, inside, node⟩ := (agree.timed v.obj.addr v.expire).2 ⟨key, v, entry, rfl, rfl, timed⟩
  have first := agree.heap.ordered.first_le inside
  refine ⟨Nat.zero_lt_of_lt inside, ?_⟩
  simpa [TtlIndex.byExpire, node] using first

theorem Agree.front (agree : s.Agree hash) (some_ : 0 < s.ttl.size) : ∃ key v, s.table.view key = some v ∧
    v.obj.addr = (s.ttl.heap 0).obj ∧ v.expire = (s.ttl.heap 0).expire ∧ v.expire ≠ 0 := by
  obtain ⟨key, v, entry, addr, expire, timed⟩ := (agree.timed _ _).1 ⟨0, some_, rfl⟩
  exact ⟨key, v, entry, addr, expire, expire ▸ timed⟩

theorem Agree.drainOne (agree : s.Agree hash)
    (safe : ∀ key v, s.table.view key = some v → v.locked = false → Over now v → env.Safe v.obj) :
    ((∀ key v, s.table.view key = some v → ¬Over now v) ∧ s.drainOne hash env now = none) ∨
    ∃ key v next, s.table.view key = some v ∧ Over now v ∧
      (∀ other w, s.table.view other = some w → w.expire ≠ 0 → v.expire ≤ w.expire) ∧
      s.drainOne hash env now = some (next, !v.locked) ∧ next.Agree hash ∧
      next.table.view = (if v.locked then s.table.view else s.table.view.remove key) := by
  unfold State.drainOne
  rcases Nat.eq_zero_or_pos s.ttl.size with none | some_
  · refine .inl ⟨fun key v entry due => ?_, ?_⟩
    · have := (agree.front_le entry due.1).1
      omega
    · rw [TtlIndex.Valid.nodePop_none none]
      split <;> rfl
  · have peek : s.ttl.nodePeek = (s.ttl.heap 0).expire := if_pos some_
    by_cases early : now < s.ttl.nodePeek
    · refine .inl ⟨fun key v entry due => ?_, if_pos early⟩
      have first := (agree.front_le entry due.1).2
      have late := due.2
      omega
    · rw [if_neg early]
      obtain ⟨popped, valid, size, cap, holds⟩ := agree.heap.nodePop some_
      have room := agree.heap.room
      obtain ⟨key, v, entry, addr, expire, timed⟩ := agree.front some_
      rw [← addr] at holds popped
      rw [← expire] at popped
      obtain ⟨t, took, inv, view⟩ := agree.takeIfUnlocked entry
      have due : Over now v := ⟨timed, by omega⟩
      have least (other : Bytes) (w : Entry) (there : s.table.view other = some w) (timed : w.expire ≠ 0) :
          v.expire ≤ w.expire := expire ▸ (agree.front_le there timed).2
      generalize s.ttl.nodePop = pop at *
      obtain ⟨ttl, answer⟩ := pop
      simp only at popped
      subst popped
      dsimp only at *
      rw [took]
      refine .inr ⟨key, v, ?_⟩
      cases locked : v.locked with
      | false =>
        simp only [locked, Bool.false_eq_true, if_false] at view ⊢
        refine ⟨_, entry, due, least, rfl, ?_, ?_⟩
        · exact agree.destroy entry inv view (safe key v entry locked due) valid fun o e other => by simp [holds, other]
        · rw [(Released.shardObjDestroy _ _ _).table]
          exact view
      | true =>
        simp only [locked, if_true] at view ⊢
        have fresh : ttl.heapIdx v.obj.addr = none :=
          valid.placed.heapIdx_eq_none.2 fun e there => ((holds _ e).1 there).1 rfl
        obtain ⟨valid', holds'⟩ := valid.nodePush_room (e := v.expire) fresh (by omega) env.ttlGrows
        refine ⟨_, entry, due, least, rfl, ⟨inv, view ▸ agree.listed, valid', fun o e => ?_, view ▸ agree.laid,
          view ▸ agree.inUse, agree.lengths⟩, view⟩
        change _ ↔ Due t.view o e
        rw [view, ← agree.timed, holds', holds]
        -- The key comes back with the deadline it had.
        by_cases same : o = v.obj.addr
        · subst same
          have own : s.ttl.Holds v.obj.addr e ↔ e = v.expire := by
            rw [agree.timed]
            constructor
            · rintro ⟨other, w, there, addr', rfl, -⟩
              rw [agree.laid.entry_eq there entry addr']
            · rintro rfl
              exact ⟨key, v, entry, rfl, rfl, timed⟩
          simp [own]
        · simp [same]

abbrev Stays (now : Nat) (v : Entry) : Prop := ¬(Over now v ∧ v.locked = false)

theorem Shrunk.expired {key : Bytes} {v : Entry} (agree : s'.Agree hash) (entry : s.table.view key = some v)
    (due : Over now v) (view : s'.table.view = (if v.locked then s.table.view else s.table.view.remove key)) :
    Shrunk hash (Stays now) s s' :=
  .one agree entry (fun loose stays => stays ⟨due, loose⟩) view

theorem Agree.expired (agree : s.Agree hash)
    (safe : ∀ key v, s.table.view key = some v → v.locked = false → Over now v → env.Safe v.obj) (work : Nat) :
    Shrunk hash (Stays now) s (shardTtlDrain hash env now work s).1 := by
  induction work generalizing s with
  | zero => exact .refl agree
  | succ work ih =>
    rcases agree.drainOne safe with ⟨-, stop⟩ | ⟨key, v, next, entry, due, -, turn, agree', view⟩
    · rw [shardTtlDrain, stop]
      exact .refl agree
    · have first := Shrunk.expired agree' entry due view
      rw [shardTtlDrain, turn]
      exact first.trans (ih agree' fun other w there => safe other w (first.kept other w there))

def overdue (s : State) (now : Nat) : Set Bytes := { key | ∃ v, s.table.view key = some v ∧ v.locked = false ∧ Over now v }

theorem Agree.finite_overdue (agree : s.Agree hash) : (s.overdue now).Finite := by
  refine agree.inv.finite_keys.subset ?_
  rintro key ⟨v, entry, -⟩
  simp [entry]

theorem Agree.cleared (agree : s.Agree hash)
    (safe : ∀ key v, s.table.view key = some v → v.locked = false → Over now v → env.Safe v.obj)
    (ahead : ∀ key v other w, s.table.view key = some v → v.locked = false → Over now v → s.table.view other = some w →
      w.locked = true → Over now w → v.expire < w.expire) {work : Nat} (enough : (s.overdue now).ncard ≤ work) :
    ((shardTtlDrain hash env now work s).1.overdue now) = ∅ := by
  induction work generalizing s with
  | zero => exact (Set.ncard_eq_zero agree.finite_overdue).1 (Nat.le_zero.1 enough)
  | succ work ih =>
    rcases agree.drainOne safe with ⟨nothing, stop⟩ | ⟨key, v, next, entry, due, least, turn, agree', view⟩
    · rw [shardTtlDrain, stop]
      refine Set.eq_empty_iff_forall_notMem.2 ?_
      rintro key ⟨v, entry, -, due⟩
      exact nothing key v entry due
    · have first := Shrunk.expired agree' entry due view
      have fewer : (next.overdue now) ⊆ s.overdue now := by
        rintro other ⟨w, there, rest⟩
        exact ⟨w, first.kept other w there, rest⟩
      rw [shardTtlDrain, turn]
      refine ih agree' (fun other w there => safe other w (first.kept other w there))
        (fun k x other w there unlocked late there' => ahead k x other w (first.kept k x there) unlocked late
          (first.kept other w there')) ?_
      -- The turn removes an overdue key, unless there is none.
      rcases Set.eq_empty_or_nonempty (next.overdue now) with none | ⟨other, w, there, unlocked, late⟩
      · simp [none]
      · have loose : v.locked = false := by
          cases locked : v.locked with
          | false => rfl
          | true =>
            have before := ahead other w key v (first.kept other w there) unlocked late entry locked due
            have after := least other w (first.kept other w there) late.1
            omega
        have gone : key ∉ next.overdue now := by
          rintro ⟨w, there, -⟩
          simp [view, loose, KeyMap.remove_eq_some] at there
        have less := Set.ncard_lt_ncard (Set.ssubset_iff_of_subset fewer |>.2 ⟨key, ⟨v, entry, loose, due⟩, gone⟩)
          agree.finite_overdue
        omega

theorem Agree.stuck {key other : Bytes} {v w : Entry} (agree : s.Agree hash)
    (safe : ∀ key v, s.table.view key = some v → v.locked = false → Over now v → env.Safe v.obj)
    (entry : s.table.view key = some v) (blocks : s.table.view other = some w) (locked : w.locked = true)
    (timed : w.expire ≠ 0) (earlier : w.expire < v.expire) (work : Nat) :
    (shardTtlDrain hash env now work s).1.table.view key = some v := by
  induction work generalizing s with
  | zero => exact entry
  | succ work ih =>
    rcases agree.drainOne safe with ⟨-, stop⟩ | ⟨gone, x, next, there, due, least, turn, agree', view⟩
    · rw [shardTtlDrain, stop]
      exact entry
    · have first := Shrunk.expired agree' there due view
      rw [shardTtlDrain, turn]
      refine ih agree' (fun other w there => safe other w (first.kept other w there)) ?_
        (first.spared other w blocks (by simp [locked]))
      have apart : key ≠ gone := by
        rintro rfl
        rw [entry, Option.some.injEq] at there
        have := least other w blocks timed
        rw [← there] at this
        omega
      rw [view]
      split
      · exact entry
      · exact KeyMap.remove_eq_some.2 ⟨apart, entry⟩

structure Drained (now : Nat) (s s' : State) : Prop where
  removed : ∀ key v, s'.table.view key = some v → v.locked = false → ¬Over now v
  kept : ∀ key v, s.table.view key = some v → now < v.expire ∨ v.expire = 0 ∨ v.locked = true →
    s'.table.view key = some v
  indexed : ∀ key v, s'.table.view key = some v → v.expire ≠ 0 → s'.ttl.Holds v.obj.addr v.expire

theorem shardTtlDrain_drains {hash : Bytes → BitVec 64} {env : Env} {s : State} {now maxWork : Nat} (agree : s.Agree hash)
    (safe : ∀ key v, s.table.view key = some v → v.locked = false → Over now v → env.Safe v.obj)
    (enough : { key | ∃ v, s.table.view key = some v ∧ v.expire ≠ 0 }.ncard ≤ maxWork) :
    ((∀ key v other w, s.table.view key = some v → v.locked = false → Over now v → s.table.view other = some w →
      w.locked = true → Over now w → v.expire < w.expire) → Drained now s (shardTtlDrain hash env now maxWork s).1) ∧
    ((∃ key v other w, s.table.view key = some v ∧ v.locked = false ∧ Over now v ∧ s.table.view other = some w ∧
      w.locked = true ∧ Over now w ∧ w.expire < v.expire) → ¬Drained now s (shardTtlDrain hash env now maxWork s).1) := by
  have expired := agree.expired safe maxWork
  constructor
  · intro ahead
    have overdue : (s.overdue now).ncard ≤ maxWork := by
      refine le_trans (Set.ncard_le_ncard ?_ ?_) enough
      · rintro key ⟨v, entry, -, due⟩
        exact ⟨v, entry, due.1⟩
      · refine agree.inv.finite_keys.subset ?_
        rintro key ⟨v, entry, -⟩
        simp [entry]
    have cleared := agree.cleared safe ahead overdue
    refine ⟨fun key v entry unlocked due => ?_, fun key v entry stays => ?_, fun key v entry timed => ?_⟩
    · exact Set.eq_empty_iff_forall_notMem.1 cleared key ⟨v, entry, unlocked, due⟩
    · refine expired.spared key v entry fun both => ?_
      rcases stays with later | untimed | locked
      · exact absurd both.1.2 (by omega)
      · exact both.1.1 untimed
      · rw [both.2] at locked
        cases locked
    · exact (expired.agree.timed _ _).2 ⟨key, v, entry, rfl, rfl, timed⟩
  · rintro ⟨key, v, other, w, entry, unlocked, due, blocks, locked, timed, earlier⟩ drained
    exact drained.removed key v (agree.stuck safe entry blocks locked timed.1 earlier maxWork) unlocked due

section Blocked

open Keyspace (tableHash)

def timedKey (s : State) (addr : Nat) (key : Bytes) (expire : Nat) : State :=
  (s.shardKeySet tableHash (quiet (some ⟨addr, []⟩)) key [120] expire .none).1

def locking (s : State) (key : Bytes) : State := { s with table := (s.table.bucketSetLockStatus tableHash key true).1 }

def timedPair : State := (blank.timedKey 4096 [108] 1).timedKey 8192 [107] 2

theorem timedPair_agree : timedPair.Agree tableHash := by
  have first : (blank.timedKey 4096 [108] 1).Agree tableHash :=
    blank_agree.set_quiet (by simp) rfl (by decide) (by decide +kernel)
  exact first.set_quiet (by simp) (by decide +kernel) (by decide +kernel) (by decide +kernel)

theorem Agree.timed_le_used (agree : s.Agree hash) :
    { key | ∃ v, s.table.view key = some v ∧ v.expire ≠ 0 }.ncard ≤ s.table.used := by
  rw [agree.inv.used_eq_ncard]
  refine Set.ncard_le_ncard ?_ agree.inv.finite_keys
  rintro key ⟨v, entry, -⟩
  simp [entry]

theorem mem_entries {t : HashTable} {key : Bytes} {v : Entry} (entry : t.view key = some v) :
    v ∈ t.content.filterMap Bucket.entry := by
  obtain ⟨b, found, same⟩ := Option.bind_eq_some_iff.1 entry
  exact List.mem_filterMap.2 ⟨b, List.mem_of_find?_eq_some found, same⟩

theorem shardTtlDrain_drains_pair : Drained 5 (timedPair.locking [107])
    (shardTtlDrain tableHash elsewhere 5 2 (timedPair.locking [107])).1 := by
  have agree : (timedPair.locking [107]).Agree tableHash := timedPair_agree.lock (by simp) true
  have ahead : ∀ v ∈ (timedPair.locking [107]).table.content.filterMap Bucket.entry,
      ∀ w ∈ (timedPair.locking [107]).table.content.filterMap Bucket.entry,
      v.locked = false → Over 5 v → w.locked = true → Over 5 w → v.expire < w.expire := by decide +kernel
  have enough := le_trans agree.timed_le_used (show (timedPair.locking [107]).table.used ≤ 2 by decide +kernel)
  refine (shardTtlDrain_drains agree (fun key v _ _ _ => elsewhere_safe v.obj) enough).1 ?_
  exact fun key v other w entry unlocked due blocks locked late =>
    ahead v (mem_entries entry) w (mem_entries blocks) unlocked due locked late

theorem drain_blocked_by_lock : (timedPair.locking [108]).Agree tableHash ∧
    { key | ∃ v, (timedPair.locking [108]).table.view key = some v ∧ v.expire ≠ 0 }.ncard ≤ 2 ∧
    ¬Drained 5 (timedPair.locking [108]) (shardTtlDrain tableHash elsewhere 5 2 (timedPair.locking [108])).1 := by
  have agree : (timedPair.locking [108]).Agree tableHash := timedPair_agree.lock (by simp) true
  refine ⟨agree, le_trans agree.timed_le_used (by decide +kernel), fun drained => ?_⟩
  have left : (shardTtlDrain tableHash elsewhere 5 2 (timedPair.locking [108])).1.table.view [107] =
      some { obj := .make ⟨8192, []⟩ [107] [120], expire := 2, locked := false } := by decide +kernel
  exact drained.removed _ _ left rfl (by decide)

end Blocked

end FreakV.Shard.State
