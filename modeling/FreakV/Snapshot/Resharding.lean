import FreakV.Cluster
import FreakV.Snapshot.Restore

namespace FreakV.Snapshot

structure ShardFiles where
  base : Option File := none
  deltas : List File := []

abbrev Directory := Nat → ShardFiles

namespace Directory

def restore (dir : Directory) (now shard : Nat) : KeyMap :=
  KeyMap.ofList (snapEngineRestore now (dir shard).base (dir shard).deltas)

def get (dir : Directory) (now m : Nat) (key : Bytes) : Option Bytes :=
  ((dir.restore now (shardForKey key m) key).filter fun r => r.2 = 0 ∨ now < r.2).map Prod.fst

def Live (dir : Directory) (shard : Nat) (e : Entry) : Prop :=
  ∃ pos, applied (dir shard).base (dir shard).deltas pos = some e

structure Faithful (dir : Directory) : Prop where
  wellFormed : ∀ shard, WellFormed (dir shard).base (dir shard).deltas
  agrees : ∀ shard, Agrees (dir shard).base (dir shard).deltas

structure Rehomed (dir : Directory) (now m : Nat) (e : Entry) : Prop where
  present : dir.restore now (shardForKey e.key m) e.key = some (e.value, e.expireMs)
  alone : ∀ other < m, other ≠ shardForKey e.key m → dir.restore now other e.key = none
  -- In the millisecond of its deadline a key is restored, and not read any more.
  get : e.expireMs = 0 ∨ now < e.expireMs → dir.get now m e.key = some e.value

def Rehomes (dir : Directory) (now m : Nat) : Prop :=
  ∀ shard e, dir.Live shard e → e.expired now = false → dir.Rehomed now m e

-- Files of shards from m on are read by nobody.
def Routed (dir : Directory) (now m : Nat) : Prop :=
  ∀ shard e, dir.Live shard e → e.expired now = false → shardForKey e.key m = shard ∨
    m ≤ shard ∧ ∃ e', dir.Live (shardForKey e.key m) e' ∧ e'.key = e.key ∧ e'.value = e.value ∧ e'.expireMs = e.expireMs

theorem restore_eq_some_iff {dir : Directory} {now shard : Nat} {key value : Bytes} {expire : Nat}
    (recovers : Recovers now (dir shard).base (dir shard).deltas) :
    dir.restore now shard key = some (value, expire) ↔
      ∃ e, dir.Live shard e ∧ e.key = key ∧ e.value = value ∧ e.expireMs = expire ∧ e.expired now = false := by
  rw [restore, recovers.contents]
  constructor
  · rintro ⟨pos, e, found, rest⟩
    exact ⟨e, ⟨pos, found⟩, rest⟩
  · rintro ⟨e, ⟨pos, found⟩, rest⟩
    exact ⟨pos, e, found, rest⟩

theorem get_of_restore {dir : Directory} {now m : Nat} {key value : Bytes} {expire : Nat}
    (stored : dir.restore now (shardForKey key m) key = some (value, expire)) (lasting : expire = 0 ∨ now < expire) :
    dir.get now m key = some value := by
  simp [get, stored, Option.filter, lasting]

theorem Faithful.recovers {dir : Directory} (faithful : dir.Faithful) (now shard : Nat) :
    Recovers now (dir shard).base (dir shard).deltas :=
  .of_same now (faithful.wellFormed shard) ((taken_eq_newest_iff _ _).2 (faithful.agrees shard))

theorem Live.restored {dir : Directory} {now shard : Nat} {e : Entry} (live : dir.Live shard e)
    (recovers : Recovers now (dir shard).base (dir shard).deltas) (current : e.expired now = false) :
    dir.restore now shard e.key = some (e.value, e.expireMs) :=
  (restore_eq_some_iff recovers).2 ⟨e, live, rfl, rfl, rfl, current⟩

theorem Routed.alone {dir : Directory} {now m other : Nat} {key : Bytes} (routed : dir.Routed now m)
    (faithful : dir.Faithful) (inside : other < m) (away : other ≠ shardForKey key m) : dir.restore now other key = none := by
  cases found : dir.restore now other key with
  | none => rfl
  | some r =>
    obtain ⟨value, expire⟩ := r
    obtain ⟨e, live, rfl, -, -, current⟩ := (restore_eq_some_iff (faithful.recovers now other)).1 found
    rcases routed other e live current with home | ⟨beyond, -⟩
    · exact absurd home.symm away
    · omega

theorem rehomes_iff {m : Nat} {dir : Directory} (now : Nat) (faithful : dir.Faithful) (accepted : Mem.memLibAccepts m) :
    dir.Rehomes now m ↔ dir.Routed now m := by
  have some : 0 < m := Nat.pos_of_ne_zero (Mem.memLibAccepts_iff.1 accepted).1
  constructor
  · intro rehomes shard e live current
    have rehomed := rehomes shard e live current
    by_cases home : shardForKey e.key m = shard
    · exact .inl home
    · obtain ⟨e', live', same⟩ := (restore_eq_some_iff (faithful.recovers now _)).1 rehomed.present
      refine .inr ⟨?_, e', live', same.1, same.2.1, same.2.2.1⟩
      by_contra inside
      have gone := rehomed.alone shard (by omega) (Ne.symm home)
      rw [live.restored (faithful.recovers now shard) current] at gone
      cases gone
  · intro routed shard e live current
    have present : dir.restore now (shardForKey e.key m) e.key = Option.some (e.value, e.expireMs) := by
      rcases routed shard e live current with home | ⟨-, e', live', key, value, expire⟩
      · have stored := live.restored (faithful.recovers now shard) current
        rwa [← home] at stored
      · have current' : e'.expired now = false := by rwa [Entry.expired, expire]
        have stored := live'.restored (faithful.recovers now _) current'
        rwa [key, value, expire] at stored
    refine ⟨present, fun other inside away => routed.alone faithful inside away, get_of_restore present⟩

section Example

variable {f : File} {slot : Pos} {e : Entry}

theorem applied_single (one : f.slots = [(slot, e)]) {pos : Pos} {d : Entry} (found : applied (some f) [] pos = some d) :
    pos = slot ∧ d = e := by
  simp only [applied, descending, List.mergeSort_nil, List.reverse_nil, fileSlots, List.flatMap_nil, List.foldl_nil,
    baseSlots, Option.map_some, Option.getD_some, one, List.foldl_cons, applySlot, Entry.live, Function.update_apply] at found
  split at found
  next here => exact ⟨here, by split at found <;> simp_all⟩
  · cases found

def single (f : File) : Directory := fun shard => if shard = 0 then { base := some f } else {}

theorem live_single (one : f.slots = [(slot, e)]) {shard : Nat} {d : Entry} (live : (single f).Live shard d) :
    shard = 0 ∧ d = e := by
  obtain ⟨pos, found⟩ := live
  by_cases zero : shard = 0
  · subst zero
    exact ⟨rfl, (applied_single one found).2⟩
  · simp [single, zero, applied, descending, fileSlots, baseSlots] at found

theorem faithful_single (one : f.slots = [(slot, e)]) : Faithful (single f) := by
  refine ⟨fun shard => ?_, fun shard => ?_⟩
  · by_cases zero : shard = 0
    · subst zero
      refine ⟨by simp [single, baseSlots, one], by simp [single], by simp [single], by simp [single], ?_⟩
      intro p q d d' first second _
      exact (applied_single one first).1.trans (applied_single one second).1.symm
    · simp only [single, zero, if_false]
      refine ⟨by simp [baseSlots], by simp, by simp, by simp, ?_⟩
      intro p q d d' first
      simp [applied, descending, fileSlots, baseSlots] at first
  · have empty : ((single f) shard).deltas = [] := by
      unfold single
      split <;> rfl
    rw [empty]
    exact Agrees.of_apart (by simp) fun slot _ => by simp [descending, fileSlots]

theorem rehomes_key_b : Faithful (single deltaB) ∧ Mem.memLibAccepts 2 ∧ Rehomes (single deltaB) 5 2 := by
  have faithful : Faithful (single deltaB) := faithful_single rfl
  refine ⟨faithful, by decide, (rehomes_iff 5 faithful (by decide)).2 fun shard d live _ => .inl ?_⟩
  obtain ⟨rfl, rfl⟩ := live_single rfl live
  decide

theorem rehomes_loses_key_a : Faithful (single baseA) ∧ Mem.memLibAccepts 2 ∧
    (single baseA).restore 5 0 [97] = some ([49], 0) ∧ shardForKey [97] 2 = 1 ∧ (single baseA).get 5 2 [97] = none := by
  refine ⟨faithful_single rfl, by decide, ?_, by decide, ?_⟩
  · simp [restore, single, snapEngineRestore_eq, readOrder, descending, fileSlots, baseSlots, baseA, File.slots,
      PageRecord.slots, firsts, Entry.expired, KeyMap.ofList, KeyMap.set, maxEpochFiles]
  · have owner : shardForKey [97] 2 = 1 := by decide
    simp [get, owner, restore, single, snapEngineRestore_eq, readOrder, descending, fileSlots, baseSlots, firsts,
      KeyMap.ofList]

end Example

end Directory

end FreakV.Snapshot
