import FreakV.Lib.Probing
import FreakV.Snapshot.Restore
import Mathlib.Data.Nat.Bitwise
import Mathlib.Tactic.NormNum

namespace FreakV.Snapshot.Dedup

open Probing

def dedupInitCap : Nat := 2 ^ 16

def dedupEmpty : Nat := 2 ^ 64 - 1

structure DedupSet where
  keys : Nat → Nat
  cap : Nat
  used : Nat

def dedupInit : DedupSet := { keys := fun _ => dedupEmpty, cap := dedupInitCap, used := 0 }

def encode (lpage slot : Nat) : Nat := (lpage <<< 16) ||| slot

def home (cap key : Nat) : Nat := ((key * 0x9e3779b97f4a7c15 % 2 ^ 64) >>> 32 % 2 ^ 32) &&& (cap - 1)

def seek (keys : Nat → Nat) (cap key : Nat) : Option (Nat × Bool) :=
  probe cap (fun h => if keys h = dedupEmpty then some (h, true) else if keys h = key then some (h, false) else none)
    cap (home cap key)

def place (newCap key : Nat) (newKeys : Nat → Nat) : Option (Nat → Nat) :=
  (probe newCap (fun h => if newKeys h = dedupEmpty then some h else none) newCap (home newCap key)).map fun h =>
    Function.update newKeys h key

def rehash (d : DedupSet) (newCap : Nat) : Option (Nat → Nat) :=
  (List.range d.cap).foldlM (fun newKeys i => if d.keys i = dedupEmpty then some newKeys else place newCap (d.keys i) newKeys)
    fun _ => dedupEmpty

/-- Nothing stands for a loop that finds no end. The memory for a larger table is there. -/
def growIfFull (d : DedupSet) : Option DedupSet :=
  let newCap := d.cap * 2 % 2 ^ 32
  if d.cap * 3 % 2 ^ 32 ≤ d.used * 4 % 2 ^ 32 then
    (rehash d newCap).map fun newKeys => { d with keys := newKeys, cap := newCap }
  else some d

def dedupInsert (d : DedupSet) (lpage slot : Nat) : Option (DedupSet × Bool) := do
  let d ← growIfFull d
  let key := encode lpage slot
  let (h, isNew) ← seek d.keys d.cap key
  if isNew then some ({ d with keys := Function.update d.keys h key, used := d.used + 1 }, true)
  else some (d, false)

def insertAll : List (Nat × Nat) → DedupSet → Option (List Bool)
  | [], _ => some []
  | (lpage, slot) :: rest, d => do
    let (d, isNew) ← dedupInsert d lpage slot
    let results ← insertAll rest d
    some (isNew :: results)

section Table

variable {keys : Nat → Nat} {cap key h : Nat}

def filled (keys : Nat → Nat) (cap : Nat) : Finset Nat := (Finset.range cap).filter fun h => ¬keys h = dedupEmpty

def members (keys : Nat → Nat) (cap : Nat) : Finset Nat := (filled keys cap).image keys

structure Sound (keys : Nat → Nat) (cap : Nat) : Prop where
  power : ∃ k, cap = 2 ^ k
  once : Set.InjOn keys (filled keys cap)
  chain : ∀ h ∈ filled keys cap, Unbroken cap (fun q => keys q = dedupEmpty) (home cap (keys h)) h

theorem mem_filled : h ∈ filled keys cap ↔ h < cap ∧ keys h ≠ dedupEmpty := by simp [filled]

theorem mem_members : key ∈ members keys cap ↔ ∃ h < cap, keys h = key ∧ key ≠ dedupEmpty := by
  simp only [members, Finset.mem_image, mem_filled]
  constructor
  · rintro ⟨h, ⟨inside, some⟩, rfl⟩
    exact ⟨h, inside, rfl, some⟩
  · rintro ⟨h, inside, rfl, some⟩
    exact ⟨h, ⟨inside, some⟩, rfl⟩

theorem home_lt (power : ∃ k, cap = 2 ^ k) (key : Nat) : home cap key < cap := by
  obtain ⟨k, rfl⟩ := power
  rw [home, Nat.and_two_pow_sub_one_eq_mod]
  exact Nat.mod_lt _ (Nat.two_pow_pos k)

theorem sound_blank (k : Nat) : Sound (fun _ => dedupEmpty) (2 ^ k) := by
  constructor <;> simp [filled]

theorem members_blank (cap : Nat) : members (fun _ => dedupEmpty) cap = ∅ := by simp [members, filled]

variable (sound : Sound keys cap)

include sound

theorem Sound.card_members : (members keys cap).card = (filled keys cap).card := Finset.card_image_of_injOn sound.once

theorem Sound.exists_vacant (room : (members keys cap).card < cap) (key : Nat) :
    ∃ h < cap, keys h = dedupEmpty ∧ Unbroken cap (fun q => keys q = dedupEmpty) (home cap key) h := by
  rw [sound.card_members] at room
  obtain ⟨q, inside, vacant⟩ := Probing.exists_vacant room
  exact exists_first (home_lt sound.power key) inside vacant

theorem Sound.put (inside : h < cap) (vacant : keys h = dedupEmpty) (new : key ∉ members keys cap)
    (real : key ≠ dedupEmpty) (chain : Unbroken cap (fun q => keys q = dedupEmpty) (home cap key) h) :
    Sound (Function.update keys h key) cap ∧ members (Function.update keys h key) cap = insert key (members keys cap) := by
  have filled' : filled (Function.update keys h key) cap = insert h (filled keys cap) := by
    ext q
    simp only [mem_filled, Finset.mem_insert, Function.update_apply]
    split <;> simp_all
  have away : ∀ q ∈ filled keys cap, q ≠ h := by
    rintro q member rfl
    exact (mem_filled.1 member).2 vacant
  have old : ∀ q ∈ filled keys cap, Function.update keys h key q = keys q := fun q member =>
    Function.update_of_ne (away q member) _ _
  have fewer : ∀ q, Function.update keys h key q = dedupEmpty → keys q = dedupEmpty := by
    intro q empty
    rw [Function.update_apply] at empty
    split at empty
    · exact absurd empty real
    · exact empty
  refine ⟨⟨sound.power, ?_, ?_⟩, ?_⟩
  · rw [filled', Finset.coe_insert, Set.injOn_insert (fun member => (mem_filled.1 member).2 vacant)]
    refine ⟨fun q member q' member' same => ?_, ?_⟩
    · rw [old q member, old q' member'] at same
      exact sound.once member member' same
    · rintro ⟨q, member, same⟩
      rw [old q member, Function.update_self] at same
      exact new (mem_members.2 ⟨q, (mem_filled.1 member).1, same, real⟩)
  · intro q member
    rw [filled', Finset.mem_insert] at member
    obtain rfl | member := member
    · rw [Function.update_self]
      exact chain.mono fewer
    · rw [old q member]
      exact (sound.chain q member).mono fewer
  · rw [members, filled', Finset.image_insert, Function.update_self, members, Finset.image_congr old]

theorem Sound.seek_old (old : key ∈ members keys cap) : ∃ h, seek keys cap key = some (h, false) := by
  obtain ⟨h, inside, rfl, some⟩ := mem_members.1 old
  refine ⟨h, probe_of_unbroken (home_lt sound.power _) (sound.chain h (mem_filled.2 ⟨inside, some⟩)) (by simp [some]) ?_⟩
  intro q inside' other occupied
  have differs : keys q ≠ keys h := fun same =>
    other (sound.once (mem_filled.2 ⟨inside', occupied⟩) (mem_filled.2 ⟨inside, some⟩) same)
  simp [occupied, differs]

theorem Sound.seek_new (room : (members keys cap).card < cap) (new : key ∉ members keys cap) (real : key ≠ dedupEmpty) :
    ∃ h, seek keys cap key = some (h, true) ∧ Sound (Function.update keys h key) cap ∧
      members (Function.update keys h key) cap = insert key (members keys cap) := by
  obtain ⟨h, inside, vacant, chain⟩ := sound.exists_vacant room key
  refine ⟨h, probe_of_unbroken (home_lt sound.power _) chain (by simp [vacant]) ?_, sound.put inside vacant new real chain⟩
  intro q inside' _ occupied
  have differs : keys q ≠ key := fun same => new (mem_members.2 ⟨q, inside', same, real⟩)
  simp [occupied, differs]

theorem Sound.place (room : (members keys cap).card < cap) (new : key ∉ members keys cap) (real : key ≠ dedupEmpty) :
    ∃ keys', place cap key keys = some keys' ∧ Sound keys' cap ∧ members keys' cap = insert key (members keys cap) := by
  obtain ⟨h, inside, vacant, chain⟩ := sound.exists_vacant room key
  have found : probe cap (fun h => if keys h = dedupEmpty then some h else none) cap (home cap key) = some h :=
    probe_of_unbroken (home_lt sound.power _) chain (by simp [vacant]) fun q _ _ occupied => by simp [occupied]
  exact ⟨_, by rw [Dedup.place, found, Option.map_some], sound.put inside vacant new real chain⟩

end Table

section Growth

variable {d : DedupSet}

theorem copy_spec {k : Nat} (sound : Sound d.keys d.cap) (room : (members d.keys d.cap).card < 2 ^ k) {n : Nat} (within : n ≤ d.cap) :
    ∃ newKeys, (List.range n).foldlM (fun newKeys i =>
        if d.keys i = dedupEmpty then some newKeys else place (2 ^ k) (d.keys i) newKeys) (fun _ => dedupEmpty) = some newKeys ∧
      Sound newKeys (2 ^ k) ∧ members newKeys (2 ^ k) = ((filled d.keys d.cap).filter (· < n)).image d.keys := by
  induction n with
  | zero => exact ⟨_, rfl, sound_blank k, by simp [members_blank]⟩
  | succ n ih =>
    obtain ⟨newKeys, copied, sound', content⟩ := ih (by omega)
    rw [List.range_succ, List.foldlM_append, copied]
    by_cases empty : d.keys n = dedupEmpty
    · refine ⟨newKeys, by simp [empty], sound', content.trans (congrArg (Finset.image d.keys) ?_)⟩
      apply Finset.filter_congr
      intro h member
      have other : h ≠ n := fun same => (mem_filled.1 member).2 (same ▸ empty)
      omega
    · have here : n ∈ filled d.keys d.cap := mem_filled.2 ⟨by omega, empty⟩
      have grown : (filled d.keys d.cap).filter (· < n + 1) = insert n ((filled d.keys d.cap).filter (· < n)) := by
        ext h
        simp only [Finset.mem_filter, Finset.mem_insert]
        constructor
        · rintro ⟨member, below⟩
          by_cases same : h = n
          · exact .inl same
          · exact .inr ⟨member, by omega⟩
        · rintro (rfl | ⟨member, below⟩)
          · exact ⟨here, by omega⟩
          · exact ⟨member, by omega⟩
      have new : d.keys n ∉ members newKeys (2 ^ k) := by
        rw [content, Finset.mem_image]
        rintro ⟨h, member, same⟩
        have below := Finset.mem_filter.1 member
        have equal : h = n := sound.once below.1 here same
        omega
      have fits : (members newKeys (2 ^ k)).card < 2 ^ k := by
        refine lt_of_le_of_lt (Finset.card_le_card ?_) room
        rw [content]
        exact Finset.image_subset_image (Finset.filter_subset _ _)
      obtain ⟨keys', placed, sound'', content'⟩ := sound'.place fits new empty
      exact ⟨keys', by simp [empty, placed], sound'', by rw [content', content, grown, Finset.image_insert]⟩

theorem rehash_spec {k : Nat} (sound : Sound d.keys d.cap) (room : (members d.keys d.cap).card < 2 ^ k) :
    ∃ newKeys, rehash d (2 ^ k) = some newKeys ∧ Sound newKeys (2 ^ k) ∧ members newKeys (2 ^ k) = members d.keys d.cap := by
  obtain ⟨newKeys, copied, sound', content⟩ := copy_spec sound room le_rfl
  refine ⟨newKeys, copied, sound', content.trans (congrArg (Finset.image d.keys) ?_)⟩
  exact Finset.filter_true_of_mem fun h member => (mem_filled.1 member).1

structure Holds (d : DedupSet) (all : Finset Nat) : Prop where
  sound : Sound d.keys d.cap
  content : members d.keys d.cap = all
  used : d.used = all.card
  least : dedupInitCap ≤ d.cap
  load : d.used * 4 ≤ d.cap * 3
  growth : d.cap = dedupInitCap ∨ d.cap * 3 ≤ d.used * 8

theorem Holds.cap_mod_four {all : Finset Nat} (holds : Holds d all) : d.cap % 4 = 0 := by
  obtain ⟨k, power⟩ := holds.sound.power
  have large : 2 ^ 16 ≤ d.cap := holds.least
  rw [power] at large ⊢
  have exponent : 16 ≤ k := (Nat.pow_le_pow_iff_right (by decide)).1 large
  obtain ⟨j, rfl⟩ := Nat.exists_eq_add_of_le exponent
  rw [pow_add]
  omega

theorem Holds.grow {all : Finset Nat} (holds : Holds d all) (few : all.card < 2 ^ 28) :
    ∃ e, growIfFull d = some e ∧ Holds e all ∧ e.used * 4 < e.cap * 3 := by
  obtain ⟨sound, rfl, used, least, load, growth⟩ := holds
  obtain ⟨k, power⟩ := sound.power
  have large : 2 ^ 16 ≤ d.cap := least
  have bound : d.cap < 2 ^ 30 := by
    rcases growth with first | grown
    · rw [first, dedupInitCap]
      norm_num
    · omega
  have exact : d.cap * 3 % 2 ^ 32 = d.cap * 3 ∧ d.used * 4 % 2 ^ 32 = d.used * 4 ∧ d.cap * 2 % 2 ^ 32 = d.cap * 2 := by omega
  simp only [growIfFull, exact]
  split
  next full =>
    have double : d.cap * 2 = 2 ^ (k + 1) := by rw [power, pow_succ]
    obtain ⟨newKeys, copied, sound', content'⟩ := rehash_spec (k := k + 1) sound (by rw [← double, ← used]; omega)
    rw [← double] at copied sound' content'
    refine ⟨{ d with keys := newKeys, cap := d.cap * 2 }, by rw [copied, Option.map_some],
      ⟨sound', content', used, ?_, ?_, .inr ?_⟩, ?_⟩ <;> simp only <;> omega
  · exact ⟨d, rfl, ⟨sound, rfl, used, least, load, growth⟩, by omega⟩

theorem Holds.insert {all : Finset Nat} {lpage slot : Nat} (holds : Holds d all) (few : all.card < 2 ^ 28)
    (real : encode lpage slot ≠ dedupEmpty) :
    ∃ d', dedupInsert d lpage slot = some (d', decide (encode lpage slot ∉ all)) ∧
      Holds d' (insert (encode lpage slot) all) := by
  obtain ⟨e, grown, holds, room⟩ := holds.grow few
  have quarter := holds.cap_mod_four
  obtain ⟨sound, rfl, used, least, load, growth⟩ := holds
  simp only [dedupInsert, grown, Option.bind_eq_bind, Option.bind_some]
  by_cases old : encode lpage slot ∈ members e.keys e.cap
  · obtain ⟨h, found⟩ := sound.seek_old old
    refine ⟨e, by simp [found, old], ?_⟩
    rw [Finset.insert_eq_of_mem old]
    exact ⟨sound, rfl, used, least, load, growth⟩
  · obtain ⟨h, found, sound', content'⟩ := sound.seek_new (by rw [← used]; omega) old real
    refine ⟨{ e with keys := Function.update e.keys h (encode lpage slot), used := e.used + 1 }, by simp [found, old], ?_⟩
    refine ⟨sound', content', ?_, least, by simp only; omega, growth.imp_right fun _ => by simp only; omega⟩
    rw [Finset.card_insert_of_notMem old, ← used]

end Growth

theorem holds_init : Holds dedupInit ∅ :=
  ⟨sound_blank 16, members_blank _, rfl, le_rfl, by decide, .inl rfl⟩

theorem encode_eq {lpage slot : Nat} (fits : slot < 2 ^ 16) : encode lpage slot = lpage * 2 ^ 16 + slot := by
  rw [encode, ← Nat.shiftLeft_add_eq_or_of_lt fits, Nat.shiftLeft_eq]

section Runs

variable {pairs : List (Nat × Nat)}

def keysOf (pairs : List (Nat × Nat)) : Finset Nat := (pairs.map fun p => encode p.1 p.2).toFinset

theorem encode_mem_keysOf (fits : ∀ p ∈ pairs, p.2 < 2 ^ 16) {p : Nat × Nat} (fits' : p.2 < 2 ^ 16) :
    encode p.1 p.2 ∈ keysOf pairs ↔ p ∈ pairs := by
  simp only [keysOf, List.mem_toFinset, List.mem_map]
  constructor
  · rintro ⟨q, member, same⟩
    rw [encode_eq (fits q member), encode_eq fits'] at same
    have equal : q = p := Prod.ext (by have := fits q member; omega) (by have := fits q member; omega)
    exact equal ▸ member
  · intro member
    exact ⟨p, member, rfl⟩

theorem keysOf_mono {few many : List (Nat × Nat)} (sub : few ⊆ many) : keysOf few ⊆ keysOf many := by
  intro key
  simp only [keysOf, List.mem_toFinset]
  exact fun member => List.map_subset _ sub member

theorem holds_next {d : DedupSet} {seen : List (Nat × Nat)} {p : Nat × Nat} (holds : Holds d (keysOf seen))
    (fits : ∀ q ∈ p :: seen, q.1 < 2 ^ 32 ∧ q.2 < 2 ^ 16) (few : (keysOf seen).card < 2 ^ 28) :
    ∃ d', dedupInsert d p.1 p.2 = some (d', decide (p ∉ seen)) ∧ Holds d' (keysOf (p :: seen)) := by
  have here := fits p List.mem_cons_self
  have known := encode_mem_keysOf (fun q member => (fits q (List.mem_cons_of_mem _ member)).2) here.2
  have real : encode p.1 p.2 ≠ dedupEmpty := by
    rw [encode_eq here.2, dedupEmpty]
    omega
  obtain ⟨d', inserted, holds'⟩ := holds.insert few real
  simp only [known] at inserted
  have next : insert (encode p.1 p.2) (keysOf seen) = keysOf (p :: seen) := by simp [keysOf]
  exact ⟨d', inserted, next ▸ holds'⟩

theorem insertAll_spec {d : DedupSet} {seen : List (Nat × Nat)} (holds : Holds d (keysOf seen))
    (fits : ∀ p ∈ seen ++ pairs, p.1 < 2 ^ 32 ∧ p.2 < 2 ^ 16) (few : (keysOf (seen ++ pairs)).card < 2 ^ 28) :
    ∃ results, insertAll pairs d = some results ∧ results.length = pairs.length ∧
      ∀ i p, pairs[i]? = some p → results[i]? = some (decide (p ∉ seen ++ pairs.take i)) := by
  induction pairs generalizing d seen with
  | nil => exact ⟨[], rfl, rfl, by simp⟩
  | cons p rest ih =>
    have fewer : (keysOf seen).card < 2 ^ 28 :=
      lt_of_le_of_lt (Finset.card_le_card (keysOf_mono (List.subset_append_left _ _))) few
    have known : p :: seen ⊆ seen ++ p :: rest := List.cons_subset.2 ⟨by simp, List.subset_append_left _ _⟩
    obtain ⟨d', inserted, holds'⟩ := holds_next holds (fun q member => fits q (known member)) fewer
    have next : keysOf (p :: seen) = keysOf (seen ++ [p]) := by
      ext key
      simp [keysOf]
    rw [next] at holds'
    obtain ⟨results, rest', same, results'⟩ := ih holds' (by simpa using fits) (by simpa using few)
    refine ⟨decide (p ∉ seen) :: results, by simp [insertAll, inserted, rest'], by simp [same], ?_⟩
    rintro (_ | i) q there
    · obtain rfl : p = q := by simpa using there
      simp
    · rw [List.getElem?_cons_succ] at there ⊢
      rw [results' i q there]
      simp

theorem card_keysOf_le : (keysOf pairs).card ≤ pairs.toFinset.card := by
  have image : keysOf pairs = pairs.toFinset.image fun p => encode p.1 p.2 := by
    ext key
    simp [keysOf]
  rw [image]
  exact Finset.card_image_le

theorem insertAll_reports_first (fits : ∀ p ∈ pairs, p.1 < 2 ^ 32 ∧ p.2 < 2 ^ 16)
    (few : pairs.toFinset.card < 2 ^ 28) :
    ∃ results, insertAll pairs dedupInit = some results ∧ results.length = pairs.length ∧
      ∀ i p, pairs[i]? = some p → results[i]? = some (decide (p ∉ pairs.take i)) := by
  have fewer : (keysOf pairs).card < 2 ^ 28 := lt_of_le_of_lt card_keysOf_le few
  have start : Holds dedupInit (keysOf []) := holds_init
  simpa using insertAll_spec start (by simpa using fits) (by simpa using fewer)

theorem insertAll_reports_first_repeated :
    ∃ results, insertAll [(7, 3), (0, 0), (7, 3)] dedupInit = some results ∧ results.length = 3 ∧
      ∀ i p, [(7, 3), (0, 0), (7, 3)][i]? = some p → results[i]? = some (decide (p ∉ [(7, 3), (0, 0), (7, 3)].take i)) :=
  insertAll_reports_first (by decide) (by decide)

end Runs

section Restore

variable {now : Nat} {base : Option File} {listing : List File}

-- A round of the loop of snap_engine_restore, with the set that it keeps.
def restoreSlot (now : Nat) (st : DedupSet × List Entry) (slot : Pos × Entry) : Option (DedupSet × List Entry) := do
  let (d, isNew) ← dedupInsert st.1 slot.1.1 slot.1.2
  if ¬isNew ∨ slot.2.deleted then some (d, st.2)
  else if slot.2.expired now then some (d, st.2)
  else some (d, st.2 ++ [slot.2])

theorem foldlM_restoreSlot (now : Nat) (slots : List (Pos × Entry)) {d : DedupSet} {st : Restoring} (holds : Holds d (keysOf st.seen))
    (fits : ∀ p ∈ st.seen ++ slots.map Prod.fst, p.1 < 2 ^ 32 ∧ p.2 < 2 ^ 16)
    (few : (keysOf (st.seen ++ slots.map Prod.fst)).card < 2 ^ 28) :
    ∃ d', slots.foldlM (restoreSlot now) (d, st.restored) = some (d', (slots.foldl (restoreEntry now) st).restored) := by
  induction slots generalizing d st with
  | nil => exact ⟨d, rfl⟩
  | cons slot rest ih =>
    have fewer : (keysOf st.seen).card < 2 ^ 28 :=
      lt_of_le_of_lt (Finset.card_le_card (keysOf_mono (List.subset_append_left _ _))) few
    have known : slot.1 :: st.seen ⊆ st.seen ++ (slot :: rest).map Prod.fst :=
      List.cons_subset.2 ⟨by simp, List.subset_append_left _ _⟩
    obtain ⟨d', inserted, holds'⟩ := holds_next holds (fun q member => fits q (known member)) fewer
    have one : restoreSlot now (d, st.restored) slot = some (d', (restoreEntry now st slot).restored) := by
      simp only [restoreSlot, inserted, Option.bind_eq_bind, Option.bind_some, restoreEntry]
      grind
    have seen : (restoreEntry now st slot).seen ⊆ slot.1 :: st.seen ∧ slot.1 :: st.seen ⊆ (restoreEntry now st slot).seen := by
      unfold restoreEntry
      grind
    have same : keysOf (slot.1 :: st.seen) = keysOf (restoreEntry now st slot).seen :=
      Finset.Subset.antisymm (keysOf_mono seen.2) (keysOf_mono seen.1)
    have within : (restoreEntry now st slot).seen ++ rest.map Prod.fst ⊆ st.seen ++ (slot :: rest).map Prod.fst := by
      intro p member
      have first := seen.1
      grind
    rw [List.foldlM_cons, one, List.foldl_cons]
    exact ih (same ▸ holds') (fun p member => fits p (within member))
      (lt_of_le_of_lt (Finset.card_le_card (keysOf_mono within)) few)

theorem restoreSlot_readOrder (fits : ∀ slot ∈ readOrder base listing, slot.1.1 < 2 ^ 32 ∧ slot.1.2 < 2 ^ 16)
    (few : ((readOrder base listing).map Prod.fst).toFinset.card < 2 ^ 28) :
    ∃ d, (readOrder base listing).foldlM (restoreSlot now) (dedupInit, []) = some (d, snapEngineRestore now base listing) := by
  have start : Holds dedupInit (keysOf ({} : Restoring).seen) := holds_init
  have all := foldlM_restoreSlot now (readOrder base listing) start
    (by simpa using fun l i e there => fits ((l, i), e) there) (lt_of_le_of_lt card_keysOf_le few)
  rwa [foldl_restoreEntry, List.nil_append, ← snapEngineRestore_eq] at all

end Restore

end FreakV.Snapshot.Dedup
