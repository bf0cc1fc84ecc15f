import FreakV.HashTable.Rehash

namespace FreakV.HashTable

structure Inv (hash : Bytes → BitVec 64) (t : HashTable) : Prop where
  shape : Shape hash t
  distinct : (t.content.map Bucket.key).Nodup
  counted : t.used = t.content.length

structure Found (hash : Bytes → BitVec 64) (t : HashTable) (key : Bytes) (f : Nat × Nat) : Prop where
  inside : f.1 < t.cap
  occupied : htMetaEmpty (t.buckets f.1).pri.word = false
  place : f.2 < ((t.buckets f.1).pri :: (t.buckets f.1).next).length
  keyed : (t.bucketAt f).key = key
  sound : (t.bucketAt f).Sound hash
  home : t.Home (t.bucketAt f).word f.1

variable {hash : Bytes → BitVec 64} {t : HashTable} {key : Bytes} {b : Bucket} {f : Nat × Nat} {i : Nat}

theorem RawObj.objKeyGet_length {o : RawObj} (short : o.Short) : o.objKeyGet.length = o.keyLen := by
  simp [RawObj.objKeyGet, short.2]

theorem objKeyGet_short {o : RawObj} (short : o.Short) : o.objKeyGet.length ≤ 65535 := by
  rw [RawObj.objKeyGet_length short]
  exact short.1

theorem Bucket.Sound.key_short (sound : b.Sound hash) : b.key.length ≤ 65535 := by
  obtain ⟨⟨o, obj, fits⟩, -⟩ := sound
  simpa [Bucket.key, obj] using objKeyGet_short fits

theorem Bucket.holds_iff (sound : b.Sound hash) (short : key.length ≤ 65535) :
    b.holds (metaFor hash key) key = true ↔ b.key = key := by
  obtain ⟨⟨o, obj, fits⟩, word⟩ := sound
  have length := RawObj.objKeyGet_length fits
  have bKey : b.key = o.objKeyGet := by simp [Bucket.key, obj]
  have small : key.length % 2 ^ 16 = key.length := Nat.mod_eq_of_lt (by omega)
  simp only [Bucket.holds, word, obj, Bool.and_eq_true, beq_iff_eq, small]
  constructor
  · rintro ⟨-, sameLength, sameBytes⟩
    rw [bKey, RawObj.objKeyGet, sameLength, sameBytes]
  · intro same
    have objKey : o.objKeyGet = key := bKey.symm.trans same
    have sameLength : o.keyLen = key.length := by rw [← length, objKey]
    exact ⟨by rw [same], sameLength, by rw [← sameLength]; exact objKey⟩

theorem Bucket.holds_of_empty (empty : htMetaEmpty b.word = true) : b.holds (metaFor hash key) key = false := by
  have zero : b.word = 0 := by simpa [htMetaEmpty] using empty
  have other : ¬htMetaLockClear b.word = metaFor hash key := by
    rw [zero]
    exact fun same => htMetaPack_ne_zero _ _ (same.symm.trans (by decide))
  simp [Bucket.holds, other]

theorem mem_live_of_mem_chain (member : b ∈ (t.buckets i).pri :: (t.buckets i).next)
    (holds : b.holds (metaFor hash key) key = true) (rooted : htMetaEmpty (t.buckets i).pri.word = true → (t.buckets i).next = []) :
    htMetaEmpty (t.buckets i).pri.word = false ∧ b ∈ (t.buckets i).live := by
  cases empty : htMetaEmpty (t.buckets i).pri.word with
  | true =>
    rw [rooted empty, List.mem_singleton] at member
    rw [member, Bucket.holds_of_empty empty] at holds
    cases holds
  | false => exact ⟨rfl, by simpa [Chain.live, empty] using member⟩

theorem Shape.chainNodeFind_some (shape : Shape hash t) (short : key.length ≤ 65535) {place : Nat}
    (found : chainNodeFind (t.buckets i) (metaFor hash key) key = some place) : Found hash t key (i, place) := by
  obtain ⟨inside, holds, -⟩ := List.findIdx?_eq_some_iff_getElem.1 found
  have at_place : t.bucketAt (i, place) = ((t.buckets i).pri :: (t.buckets i).next)[place] :=
    List.getD_eq_getElem _ _ inside
  have member : t.bucketAt (i, place) ∈ (t.buckets i).pri :: (t.buckets i).next := at_place ▸ List.getElem_mem inside
  rw [← at_place] at holds
  obtain ⟨occupied, live⟩ := mem_live_of_mem_chain member holds (shape.rooted i)
  obtain ⟨sound, home⟩ := shape.sound i _ live
  exact ⟨shape.live_lt live, occupied, inside, (Bucket.holds_iff sound short).1 holds, sound, home⟩

theorem Shape.chainNodeFind_none (shape : Shape hash t) (short : key.length ≤ 65535)
    (missing : chainNodeFind (t.buckets i) (metaFor hash key) key = none) (member : b ∈ (t.buckets i).live) :
    b.key ≠ key := by
  intro same
  have sound := (shape.sound i b member).1
  have chained : b ∈ (t.buckets i).pri :: (t.buckets i).next := by
    unfold Chain.live at member
    split at member
    · exact List.mem_cons_of_mem _ member
    · exact member
  have holds := List.findIdx?_eq_none_iff.1 missing b chained
  rw [(Bucket.holds_iff sound short).2 same] at holds
  cases holds

theorem Home.congr {word word' : BitVec 64} (same : htMetaLockClear word = htMetaLockClear word') (home : t.Home word i) :
    t.Home word' i := by
  have idx : ∀ cap, bucketIdx word cap = bucketIdx word' cap := by
    intro cap
    rw [← bucketIdx_lockClear word, same, bucketIdx_lockClear]
  unfold Home at home ⊢
  simpa only [idx] using home

theorem Bucket.Sound.home (sound : b.Sound hash) (home : t.Home b.word i) : t.Home (metaFor hash b.key) i := by
  refine home.congr ?_
  rw [sound.word]
  exact (lockClear_htMetaPack _).symm

theorem Inv.lookup_some (inv : Inv hash t) (short : key.length ≤ 65535) (found : t.lookupKey hash key = some f) :
    Found hash t key f := by
  have chain : ∀ i, (chainNodeFind (t.buckets i) (metaFor hash key) key).map (fun place => (i, place)) = some f →
      Found hash t key f := by
    intro i found
    obtain ⟨place, at_place, rfl⟩ := Option.map_eq_some_iff.1 found
    exact inv.shape.chainNodeFind_some short at_place
  unfold lookupKey keyLookup at found
  simp only at found
  split at found
  · exact chain _ found
  · split at found
    · exact chain _ found
    · split at found
      next old => exact chain _ (old.trans found)
      · exact chain _ found

theorem Inv.lookup_none (inv : Inv hash t) (short : key.length ≤ 65535) (missing : t.lookupKey hash key = none)
    (member : b ∈ t.content) : b.key ≠ key := by
  obtain ⟨i, -, live⟩ := mem_content.1 member
  intro same
  obtain ⟨sound, home⟩ := inv.shape.sound i b live
  have home := sound.home home
  rw [same] at home
  have absent : ∀ j, (chainNodeFind (t.buckets j) (metaFor hash key) key).map (fun place => (j, place)) = none → i ≠ j := by
    rintro j none rfl
    exact inv.shape.chainNodeFind_none short (Option.map_eq_none_iff.1 none) live same
  unfold lookupKey keyLookup at missing
  simp only at missing
  split at missing
  next idle =>
    rcases home with new | ⟨r, rehash, -⟩
    · exact absent _ missing new
    · rw [idle] at rehash
      cases rehash
  next r rehash =>
    have reached : ∀ r', t.rehashIdx = some r' → r' = r := fun r' other => Option.some.inj (other.symm.trans rehash)
    split at missing
    next moved =>
      rcases home with new | ⟨r', other, ahead, -⟩
      · exact absent _ missing new
      · have := reached r' other
        omega
    · split at missing
      · cases missing
      next oldMissing =>
        rcases home with new | ⟨r', -, -, old⟩
        · exact absent _ missing new
        · exact absent _ oldMissing old

end FreakV.HashTable
