import FreakV.HashTable.Named
import FreakV.Lib.Threads

namespace FreakV.HashTable

def sizes (t : HashTable) : Nat × Nat × Nat × Option Nat × Bool × Nat :=
  (t.cap, t.oldCap, t.used, t.rehashIdx, t.rehashDisabled, t.ovfPoolCap)

end HashTable

namespace NamedTable

open HashTable Linked Threads

def sizes (p : NamedTable) : Nat × Nat × Nat × Option Nat × Bool × Nat :=
  (p.cap, p.oldCap, p.used, p.rehashIdx, p.rehashDisabled, p.ovfPoolCap)

inductive Slot
  | free
  | hand
  | chain (i : Nat)
deriving DecidableEq

def head (p : NamedTable) (start : Option Nat) : Slot → Option Nat
  | .free => p.ovfFree
  | .hand => start
  | .chain i => (p.pri i).next

structure Names (p : NamedTable) (start : Option Nat) (lists : Slot → List Nat) : Prop where
  spread : Spread (· < p.ovfPoolCap) lists
  path : ∀ s, Path p.link (p.head start s) (lists s) none

structure Shows (p : NamedTable) (lists : Slot → List Nat) (aside : List Bucket) (t : HashTable) : Prop where
  buckets : ∀ i, t.buckets i = { pri := (p.pri i).bucket, next := (lists (.chain i)).map fun n => (p.ovf n).bucket }
  aside : aside = (lists .hand).map fun n => (p.ovf n).bucket
  sizes : t.sizes = p.sizes
  ovfFree : t.ovfFree = (lists .free).length

structure Models (p : NamedTable) (start : Option Nat) (lists : Slot → List Nat) (aside : List Bucket) (t : HashTable) :
    Prop where
  names : Names p start lists
  shows_ : Shows p lists aside t

variable {p p' : NamedTable} {start start' : Option Nat} {lists lists' : Slot → List Nat} {aside : List Bucket}
  {t : HashTable}

section Walk

theorem Names.length_le (names : Names p start lists) (s : Slot) : (lists s).length ≤ p.ovfPoolCap := by
  have subset : lists s ⊆ List.range p.ovfPoolCap := fun n there => List.mem_range.2 (names.spread.inside there)
  have shorter := (List.subperm_of_subset (names.spread.nodup s) subset).length_le
  rwa [List.length_range] at shorter

theorem Names.walk_head (names : Names p start lists) (s : Slot) :
    walk p.link p.ovfPoolCap (p.head start s) = lists s :=
  (names.path s).walk_eq (names.length_le s)

theorem Names.chain_eq (names : Names p start lists) (i : Nat) : p.chain i = lists (.chain i) := names.walk_head (.chain i)

theorem Names.freeList_eq (names : Names p start lists) : p.freeList = lists .free := names.walk_head .free

theorem Names.shows_counted (names : Names p start lists) :
    Shows p lists ((lists .hand).map fun n => (p.ovf n).bucket) p.counted :=
  ⟨fun i => by rw [← names.chain_eq]; rfl, rfl, rfl, by rw [← names.freeList_eq]; rfl⟩

theorem Shows.unique {aside' : List Bucket} {t' : HashTable} (first : Shows p lists aside t)
    (second : Shows p lists aside' t') : t = t' := by
  have buckets : t.buckets = t'.buckets := funext fun i => (first.buckets i).trans (second.buckets i).symm
  have sizes := first.sizes.trans second.sizes.symm
  have ovfFree := first.ovfFree.trans second.ovfFree.symm
  cases t
  cases t'
  simp_all only [HashTable.sizes, Prod.mk.injEq]

theorem Models.counted_eq (models : Models p start lists aside t) : p.counted = t :=
  models.names.shows_counted.unique models.shows_

theorem Models.next_eq (models : Models p start lists aside t) (i : Nat) :
    (t.buckets i).next = (lists (.chain i)).map fun n => (p.ovf n).bucket := by rw [models.shows_.buckets]

theorem Models.pri_eq (models : Models p start lists aside t) (i : Nat) : (t.buckets i).pri = (p.pri i).bucket := by
  rw [models.shows_.buckets]

end Walk

section Nodes

variable (p) (r : Ref) (next : Option Nat) (b : Bucket) (n m i : Nat)

theorem setNext_link : (p.setNext r next).link m = if r = .ovf m then next else p.link m := by
  cases r with
  | pri i => simp [setNext, setNode, link]
  | ovf n =>
    simp only [setNext, setNode, link, node, Function.update_apply, Ref.ovf.injEq]
    by_cases same : m = n
    · simp [same]
    · simp [same, Ne.symm same]

theorem setNext_pri : ((p.setNext r next).pri i).next = if r = .pri i then next else (p.pri i).next := by
  cases r with
  | pri j =>
    simp only [setNext, setNode, node, Function.update_apply, Ref.pri.injEq]
    by_cases same : i = j
    · simp [same]
    · simp [same, Ne.symm same]
  | ovf n => simp [setNext, setNode]

theorem setNext_ovf_bucket : ((p.setNext r next).ovf m).bucket = (p.ovf m).bucket := by
  cases r with
  | pri j => rfl
  | ovf n =>
    simp only [setNext, setNode, node, Function.update_apply]
    split
    next same => rw [same]
    · rfl

theorem setNext_pri_bucket : ((p.setNext r next).pri i).bucket = (p.pri i).bucket := by
  cases r with
  | pri j =>
    simp only [setNext, setNode, node, Function.update_apply]
    split
    next same => rw [same]
    · rfl
  | ovf n => rfl

theorem setBucket_link : (p.setBucket r b).link m = p.link m := by
  cases r with
  | pri j => rfl
  | ovf n =>
    simp only [setBucket, setNode, node, link, Function.update_apply]
    split
    next same => rw [same]
    · rfl

theorem setBucket_pri : ((p.setBucket r b).pri i).next = (p.pri i).next := by
  cases r with
  | pri j =>
    simp only [setBucket, setNode, node, Function.update_apply]
    split
    next same => rw [same]
    · rfl
  | ovf n => rfl

theorem setBucket_pri_bucket : ((p.setBucket r b).pri i).bucket = if r = .pri i then b else (p.pri i).bucket := by
  cases r with
  | pri j =>
    simp only [setBucket, setNode, node, Function.update_apply, Ref.pri.injEq]
    by_cases same : i = j
    · simp [same]
    · simp [same, Ne.symm same]
  | ovf n => simp [setBucket, setNode]

theorem setBucket_ovf_bucket : ((p.setBucket r b).ovf m).bucket = if r = .ovf m then b else (p.ovf m).bucket := by
  cases r with
  | pri j => simp [setBucket, setNode]
  | ovf n =>
    simp only [setBucket, setNode, node, Function.update_apply, Ref.ovf.injEq]
    by_cases same : m = n
    · simp [same]
    · simp [same, Ne.symm same]

theorem release_link : (p.ovfBucketRelease n).link m = if m = n then p.ovfFree else p.link m := by
  simp only [ovfBucketRelease, setOvf, link, Function.update_apply]
  split <;> rfl

theorem release_ovf_bucket : ((p.ovfBucketRelease n).ovf m).bucket = if m = n then {} else (p.ovf m).bucket := by
  simp only [ovfBucketRelease, setOvf, Function.update_apply]
  split <;> rfl

theorem popFree_link : (p.popFree n).link m = if m = n then none else p.link m := by
  simp only [popFree, setOvf, link, Function.update_apply]
  split <;> rfl

end Nodes

section Change

variable {s : Slot} {l : List Nat}

theorem Names.change (names : Names p start lists) (spread : Spread (· < p.ovfPoolCap) (Function.update lists s l))
    (path : Path p'.link (p'.head start' s) l none) (heads : ∀ s', s' ≠ s → p'.head start' s' = p.head start s')
    (links : ∀ {s' m}, s' ≠ s → m ∈ lists s' → p'.link m = p.link m) (pool : p'.ovfPoolCap = p.ovfPoolCap) :
    Names p' start' (Function.update lists s l) := by
  refine ⟨by rw [pool]; exact spread, fun s' => ?_⟩
  by_cases here : s' = s
  · subst here
    rw [Function.update_self]
    exact path
  · rw [Function.update_of_ne here, heads s' here]
    exact (names.path s').congr fun m there => links here there

theorem Models.changeChain {i : Nat} (models : Models p start lists aside t)
    (names : Names p' start' (Function.update lists (.chain i) l)) (sizes : p'.sizes = p.sizes)
    (pri : ∀ {j}, j ≠ i → (p'.pri j).bucket = (p.pri j).bucket)
    (ovf : ∀ {s m}, s ≠ .free → s ≠ .chain i → m ∈ lists s → (p'.ovf m).bucket = (p.ovf m).bucket) :
    Models p' start' (Function.update lists (.chain i) l) aside
      (t.setChain i { pri := (p'.pri i).bucket, next := l.map fun n => (p'.ovf n).bucket }) := by
  refine ⟨names, fun j => ?_, ?_, models.shows_.sizes.trans sizes.symm, models.shows_.ovfFree⟩
  · change Function.update t.buckets i _ j = _
    by_cases here : j = i
    · subst here
      rw [Function.update_self, Function.update_self]
    · have other : Slot.chain j ≠ .chain i := fun same => here (Slot.chain.inj same)
      rw [Function.update_of_ne here, Function.update_of_ne other, models.shows_.buckets, pri here]
      congr 1
      exact List.map_congr_left fun m there => (ovf (by simp) other there).symm
  · rw [models.shows_.aside]
    exact List.map_congr_left fun m there => (ovf (by simp) (by simp) there).symm

theorem Models.keepChains {aside' : List Bucket} (models : Models p start lists aside t) (names : Names p' start' lists')
    (sizes : p'.sizes = p.sizes) (hand : aside' = (lists' .hand).map fun n => (p.ovf n).bucket)
    (kept : ∀ m ∈ lists' .hand, m ∈ lists .hand)
    (chains : ∀ j, lists' (.chain j) = lists (.chain j)) (pri : ∀ j, (p'.pri j).bucket = (p.pri j).bucket)
    (ovf : ∀ {s m}, s ≠ .free → m ∈ lists s → (p'.ovf m).bucket = (p.ovf m).bucket) :
    Models p' start' lists' aside' { t with ovfFree := (lists' .free).length } := by
  refine ⟨names, fun j => ?_, ?_, models.shows_.sizes.trans sizes.symm, rfl⟩
  · change t.buckets j = _
    rw [models.shows_.buckets, pri, chains]
    congr 1
    exact List.map_congr_left fun m there => (ovf (by simp) there).symm
  · rw [hand]
    exact List.map_congr_left fun m there => (ovf (by simp) (kept m there)).symm

end Change

section Ends

variable {n : Nat} {front : List Nat}

def lastOf (i : Nat) (chain : List Nat) : Ref :=
  match chain.getLast? with
  | none => .pri i
  | some n => .ovf n

theorem lastOf_nil (i : Nat) : lastOf i [] = .pri i := rfl

theorem lastOf_concat (i : Nat) (front : List Nat) (n : Nat) : lastOf i (front ++ [n]) = .ovf n := by simp [lastOf]

theorem lastOf_eq_pri {i j : Nat} {chain : List Nat} : lastOf i chain = .pri j ↔ j = i ∧ chain = [] := by
  rcases List.eq_nil_or_concat' chain with rfl | ⟨others, last, rfl⟩
  · simp [lastOf_nil, eq_comm]
  · simp [lastOf_concat]

theorem lastOf_eq_ovf {i n : Nat} {chain : List Nat} : lastOf i chain = .ovf n ↔ chain.getLast? = some n := by
  rw [lastOf]
  split <;> simp_all

theorem Names.refAt_eq (names : Names p start lists) {i place : Nat} (within : place ≤ (lists (.chain i)).length) :
    p.refAt (i, place) = lastOf i ((lists (.chain i)).take place) := by
  cases place with
  | zero => rfl
  | succ k =>
    have inside : k < (lists (.chain i)).length := within
    rw [List.take_add_one, List.getElem?_eq_getElem inside, Option.toList_some, lastOf_concat, refAt]
    simp only [names.chain_eq, List.getD_eq_getElem _ _ inside]

theorem Names.tail_eq (names : Names p start lists) (i : Nat) : p.tail i = lastOf i (lists (.chain i)) := by
  rw [tail, names.chain_eq, names.refAt_eq (Nat.le_refl _), List.take_length]

end Ends

section Primitives

variable {i n : Nat} {front back rest : List Nat} {b : Bucket}

theorem Models.popFree (models : Models p start lists aside t) (top : lists .free = n :: rest) :
    Models (p.popFree n) start (Function.update lists .free rest) aside { t with ovfFree := t.ovfFree - 1 } := by
  obtain ⟨names, shows_⟩ := models
  have path := names.path .free
  have nodup := names.spread.nodup .free
  rw [top] at path nodup
  have links {m : Nat} (other : m ≠ n) : (p.popFree n).link m = p.link m := by rw [popFree_link, if_neg other]
  have elsewhere {s : Slot} {m : Nat} (away : s ≠ .free) (there : m ∈ lists s) : m ≠ n := by
    rintro rfl
    exact away (names.spread.apart there (by rw [top]; simp))
  have names' : Names (p.popFree n) start (Function.update lists .free rest) := by
    refine names.change (names.spread.shorten (by rw [top]; exact List.sublist_cons_self n rest)) ?_ (fun s away => ?_)
      (fun away there => links (elsewhere away there)) rfl
    · exact path.2.congr fun m there => links fun same => (List.nodup_cons.1 nodup).1 (same ▸ there)
    · cases s with
      | free => exact absurd rfl away
      | hand => rfl
      | chain j => rfl
  have result := Models.keepChains ⟨names, shows_⟩ names' rfl shows_.aside (fun _ there => there) (fun j => Function.update_of_ne (by simp) _ _) (fun j => rfl)
    fun {s m} away there => by
      change (Function.update p.ovf n {} m).bucket = _
      rw [Function.update_of_ne (elsewhere away there)]
  rw [Function.update_self] at result
  have count : t.ovfFree - 1 = rest.length := by rw [shows_.ovfFree, top, List.length_cons, Nat.add_sub_cancel]
  rw [count]
  exact result

structure Loose (p : NamedTable) (lists : Slot → List Nat) (n : Nat) : Prop where
  inside : n < p.ovfPoolCap
  absent : ∀ s, n ∉ lists s

theorem Loose.ne (loose : Loose p lists n) {s : Slot} {m : Nat} (there : m ∈ lists s) : m ≠ n :=
  fun same => loose.absent s (same ▸ there)

theorem Names.loose (names : Names p start lists) {s : Slot} (chain : lists s = front ++ n :: back)
    (pool : p'.ovfPoolCap = p.ovfPoolCap) : Loose p' (Function.update lists s (front ++ back)) n := by
  have there : n ∈ lists s := by rw [chain]; simp
  have nodup := names.spread.nodup s
  rw [chain] at nodup
  refine ⟨pool ▸ names.spread.inside there, fun s' member => ?_⟩
  rw [mem_update] at member
  split at member
  · exact (List.nodup_middle.1 nodup).notMem member
  next away => exact away (names.spread.apart member there)

theorem Models.release (models : Models p start lists aside t) (loose : Loose p lists n) :
    Models (p.ovfBucketRelease n) start (Function.update lists .free (n :: lists .free)) aside t.ovfBucketRelease := by
  obtain ⟨names, shows_⟩ := models
  have links {s : Slot} {m : Nat} (there : m ∈ lists s) : (p.ovfBucketRelease n).link m = p.link m := by
    rw [release_link, if_neg (loose.ne there)]
  have names' : Names (p.ovfBucketRelease n) start (Function.update lists .free (n :: lists .free)) := by
    refine names.change (names.spread.enter loose.absent loose.inside (.refl _)) ⟨rfl, ?_⟩ (fun s away => ?_)
      (fun _ there => links there) rfl
    · rw [release_link, if_pos rfl]
      exact (names.path .free).congr fun m there => links there
    · cases s with
      | free => exact absurd rfl away
      | hand => rfl
      | chain j => rfl
  have result := Models.keepChains ⟨names, shows_⟩ names' rfl shows_.aside (fun _ there => there) (fun j => Function.update_of_ne (by simp) _ _)
    (fun j => rfl) fun _ there => by rw [release_ovf_bucket, if_neg (loose.ne there)]
  rw [Function.update_self, List.length_cons, ← shows_.ovfFree] at result
  exact result

theorem Models.fill (models : Models p start lists aside t) (loose : Loose p lists n) (node : Node) :
    Models (p.setOvf n node) start lists aside t := by
  obtain ⟨names, shows_⟩ := models
  have same {s : Slot} {m : Nat} (there : m ∈ lists s) : (p.setOvf n node).ovf m = p.ovf m :=
    Function.update_of_ne (loose.ne there) _ _
  have names' : Names (p.setOvf n node) start lists := by
    refine ⟨names.spread, fun s => ?_⟩
    have head : (p.setOvf n node).head start s = p.head start s := by cases s <;> rfl
    rw [head]
    exact (names.path s).congr fun m there => congrArg Node.next (same there)
  have result := Models.keepChains ⟨names, shows_⟩ names' rfl shows_.aside (fun _ there => there) (fun j => rfl) (fun j => rfl)
    fun _ there => congrArg Node.bucket (same there)
  rw [← shows_.ovfFree] at result
  exact result

theorem Names.relink (names : Names p start lists) {upto l : List Nat} {next : Option Nat}
    (inside : ∀ m ∈ upto, m ∈ lists (.chain i)) (spread : Spread (· < p.ovfPoolCap) (Function.update lists (.chain i) l))
    (path : Path (p.setNext (lastOf i upto) next).link (if upto = [] then next else (p.pri i).next) l none) :
    Names (p.setNext (lastOf i upto) next) start (Function.update lists (.chain i) l) := by
  refine names.change spread ?_ (fun s away => ?_) (fun {s m} away there => ?_) rfl
  · change Path _ ((p.setNext (lastOf i upto) next).pri i).next l none
    rw [setNext_pri]
    simpa [lastOf_eq_pri] using path
  · cases s with
    | free => rfl
    | hand => rfl
    | chain j =>
      refine (setNext_pri _ _ _ j).trans (if_neg fun first => away ?_)
      rw [(lastOf_eq_pri.1 first).1]
  · rw [setNext_link, if_neg fun isLast => away (names.spread.apart there (inside m ?_))]
    exact List.mem_of_getLast? (lastOf_eq_ovf.1 isLast)

theorem Models.hang (models : Models p start lists aside t) (loose : Loose p lists n) (ends : p.link n = none) (i : Nat) :
    Models (p.setNext (p.tail i) (some n)) start (Function.update lists (.chain i) (lists (.chain i) ++ [n])) aside
      (t.setChain i { t.buckets i with next := (t.buckets i).next ++ [(p.ovf n).bucket] }) := by
  have names := models.names
  rw [names.tail_eq]
  have spread := names.spread.enter loose.absent loose.inside (List.perm_append_singleton n (lists (.chain i)))
  have path : Path p.link (p.pri i).next (lists (.chain i)) none := names.path (.chain i)
  have names' : Names (p.setNext (lastOf i (lists (.chain i))) (some n)) start
      (Function.update lists (.chain i) (lists (.chain i) ++ [n])) := by
    refine names.relink (fun _ there => there) spread (Path.insert (by simpa using path)
      (by simpa using names.spread.nodup (.chain i)) rfl (fun last isLast => ?_) ?_ fun m _ other => ?_)
    · rw [setNext_link, if_pos (lastOf_eq_ovf.2 isLast)]
    · rw [setNext_link, if_neg fun isLast => loose.absent _ (List.mem_of_getLast? (lastOf_eq_ovf.1 isLast))]
      exact ends
    · rw [setNext_link, if_neg (mt lastOf_eq_ovf.1 other)]
  have result := models.changeChain names' rfl (fun _ => setNext_pri_bucket _ _ _ _) fun _ _ _ => setNext_ovf_bucket _ _ _ _
  simp only [setNext_pri_bucket, setNext_ovf_bucket, List.map_append, List.map_cons, List.map_nil, ← models.next_eq,
    ← models.pri_eq] at result
  exact result

theorem Models.bypass (models : Models p start lists aside t) (chain : lists (.chain i) = front ++ n :: back) :
    Models (p.setNext (lastOf i front) (p.link n)) start (Function.update lists (.chain i) (front ++ back)) aside
      (t.setChain i { t.buckets i with next := (t.buckets i).next.eraseIdx front.length }) := by
  have names := models.names
  have path : Path p.link (p.pri i).next (lists (.chain i)) none := names.path (.chain i)
  have nodup := names.spread.nodup (.chain i)
  have spread := names.spread.shorten (show (front ++ back).Sublist (lists (.chain i)) by
    rw [chain]
    exact List.Sublist.append_left (List.sublist_cons_self n back) front)
  rw [chain] at path nodup
  have names' : Names (p.setNext (lastOf i front) (p.link n)) start (Function.update lists (.chain i) (front ++ back)) := by
    refine names.relink (fun m there => chain ▸ List.mem_append_left _ there) spread
      (path.remove (List.nodup_middle.1 nodup).of_cons rfl (fun last isLast => ?_) fun m _ other => ?_)
    · rw [setNext_link, if_pos (lastOf_eq_ovf.2 isLast)]
    · rw [setNext_link, if_neg (mt lastOf_eq_ovf.1 other)]
  have result := models.changeChain names' rfl (fun _ => setNext_pri_bucket _ _ _ _) fun _ _ _ => setNext_ovf_bucket _ _ _ _
  have erased : (t.buckets i).next.eraseIdx front.length = (front ++ back).map fun n => (p.ovf n).bucket := by
    rw [models.next_eq, chain, List.map_append, List.eraseIdx_append_of_length_le (by simp)]
    simp
  simp only [setNext_pri_bucket, setNext_ovf_bucket, ← erased, ← models.pri_eq] at result
  exact result

theorem Models.setPri (models : Models p start lists aside t) {node : Node} {back : List Nat}
    (shorter : back.Sublist (lists (.chain i))) (path : Path p.link node.next back none) :
    Models (p.setPri i node) start (Function.update lists (.chain i) back) aside
      (t.setChain i { pri := node.bucket, next := back.map fun m => (p.ovf m).bucket }) := by
  have names := models.names
  have at_ : (p.setPri i node).pri i = node := Function.update_self ..
  have other {j : Nat} (away : j ≠ i) : (p.setPri i node).pri j = p.pri j := Function.update_of_ne away _ _
  have names' : Names (p.setPri i node) start (Function.update lists (.chain i) back) := by
    refine names.change (names.spread.shorten shorter) ?_ (fun s away => ?_) (fun _ _ => rfl) rfl
    · change Path p.link ((p.setPri i node).pri i).next back none
      rw [at_]
      exact path
    · cases s with
      | free => rfl
      | hand => rfl
      | chain j => exact congrArg Node.next (other fun same => away (by rw [same]))
  have result := models.changeChain names' rfl (fun away => congrArg Node.bucket (other away)) fun _ _ _ => rfl
  rw [at_] at result
  exact result

theorem Models.takeOver (models : Models p start lists aside t) (chain : lists (.chain i) = n :: back) :
    Models (p.setPri i (p.ovf n)) start (Function.update lists (.chain i) back) aside
      (t.setChain i { pri := (p.ovf n).bucket, next := back.map fun m => (p.ovf m).bucket }) := by
  have path := models.names.path (.chain i)
  rw [chain] at path
  exact models.setPri (chain ▸ List.sublist_cons_self n back) path.2

theorem Models.detach (models : Models p start lists aside t) (idle : lists .hand = []) (i : Nat) :
    Models (p.setNext (.pri i) none) (p.pri i).next
      (Function.update (Function.update lists (.chain i) (lists .hand)) .hand (lists (.chain i))) (t.buckets i).next
      (t.setChain i { t.buckets i with next := [] }) := by
  obtain ⟨names, shows_⟩ := models
  have chains (j : Nat) : Function.update (Function.update lists (.chain i) (lists .hand)) .hand (lists (.chain i)) (.chain j) =
      if j = i then [] else lists (.chain j) := by
    simp only [Function.update_apply, reduceCtorEq, if_false, Slot.chain.injEq, idle]
  refine ⟨⟨names.spread.exchange (.chain i) .hand, fun s => ?_⟩, fun j => ?_, ?_, shows_.sizes, shows_.ovfFree⟩
  · cases s with
    | free => exact names.path .free
    | hand =>
      rw [Function.update_self]
      exact names.path (.chain i)
    | chain j =>
      change Path p.link ((p.setNext (.pri i) none).pri j).next _ none
      rw [chains, setNext_pri]
      by_cases here : j = i
      · rw [if_pos here, if_pos (by rw [here])]
        rfl
      · rw [if_neg here, if_neg (by simpa using Ne.symm here)]
        exact names.path (.chain j)
  · change Function.update t.buckets i _ j = _
    rw [chains, setNext_pri_bucket, Function.update_apply]
    by_cases here : j = i
    · rw [if_pos here, if_pos here, here, shows_.buckets]
      rfl
    · rw [if_neg here, if_neg here, shows_.buckets]
      rfl
  · rw [Function.update_self, shows_.buckets]
    rfl

theorem Models.takeHand (models : Models p start lists (b :: aside) t) (first : lists .hand = n :: rest) :
    Models (p.setNext (.ovf n) none) (p.link n) (Function.update lists .hand rest) aside t := by
  obtain ⟨names, shows_⟩ := models
  have path := names.path .hand
  have nodup := names.spread.nodup .hand
  rw [first] at path nodup
  have links {m : Nat} (other : m ≠ n) : (p.setNext (.ovf n) none).link m = p.link m := by
    rw [setNext_link, if_neg (by simpa using other.symm)]
  have names' : Names (p.setNext (.ovf n) none) (p.link n) (Function.update lists .hand rest) := by
    refine names.change (names.spread.shorten (by rw [first]; exact List.sublist_cons_self n rest)) ?_ (fun s away => ?_)
      (fun {s m} away there => links ?_) rfl
    · exact path.2.congr fun m there => links fun same => (List.nodup_cons.1 nodup).1 (same ▸ there)
    · cases s with
      | free => rfl
      | hand => exact absurd rfl away
      | chain j => rfl
    · rintro rfl
      exact away (names.spread.apart there (by rw [first]; simp))
  have others : aside = (Function.update lists .hand rest .hand).map fun n => (p.ovf n).bucket := by
    have all := shows_.aside
    rw [first, List.map_cons] at all
    rw [Function.update_self]
    exact (List.cons.inj all).2
  have result := Models.keepChains ⟨names, shows_⟩ names' rfl others
    (fun m there => by rw [Function.update_self] at there; rw [first]; exact List.mem_cons_of_mem n there)
    (fun j => Function.update_of_ne (by simp) _ _) (fun j => rfl)
    fun _ _ => setNext_ovf_bucket _ _ _ _
  rw [Function.update_of_ne (by simp), ← shows_.ovfFree] at result
  exact result

theorem Models.bucketAt_eq (models : Models p start lists aside t) {f : Nat × Nat} (within : f.2 ≤ (t.buckets f.1).next.length) :
    p.bucketAt f = t.bucketAt f := by
  obtain ⟨i, place⟩ := f
  rw [HashTable.bucketAt, NamedTable.bucketAt]
  simp only [models.shows_.buckets]
  cases place with
  | zero => rfl
  | succ k =>
    rw [models.next_eq, List.length_map] at within
    have inside : k < (lists (.chain i)).length := within
    have member : (p.chain i).getD k 0 = (lists (.chain i))[k] := by
      rw [models.names.chain_eq, List.getD_eq_getElem _ _ inside]
    simp only [refAt, node, member, List.getD_cons_succ]
    rw [List.getD_eq_getElem _ _ (by simpa using inside), List.getElem_map]

theorem Names.setBucket (names : Names p start lists) (r : Ref) (b : Bucket) : Names (p.setBucket r b) start lists := by
  refine ⟨names.spread, fun s => ?_⟩
  have head : (p.setBucket r b).head start s = p.head start s := by
    cases s with
    | free => rfl
    | hand => rfl
    | chain j => exact setBucket_pri _ _ _ _
  rw [head]
  exact (names.path s).congr fun m _ => setBucket_link _ _ _ m

theorem map_set {l : List Nat} (nodup : l.Nodup) {k : Nat} (inside : k < l.length) (f : Nat → Bucket) (b : Bucket) :
    l.map (fun n => if n = l[k] then b else f n) = (l.map f).set k b := by
  refine List.ext_getElem (by simp) fun j short _ => ?_
  rw [List.length_map] at short
  rw [List.getElem_map, List.getElem_set, List.getElem_map]
  by_cases here : k = j
  · subst here
    rw [if_pos rfl, if_pos rfl]
  · rw [if_neg fun same => here (nodup.getElem_inj_iff.1 same).symm, if_neg here]

theorem Models.setBucketAt (models : Models p start lists aside t) {f : Nat × Nat} (within : f.2 ≤ (t.buckets f.1).next.length)
    (b : Bucket) : Models (p.setBucket (p.refAt f) b) start lists aside (t.setBucketAt f b) := by
  obtain ⟨i, place⟩ := f
  have names := models.names
  have same : Function.update lists (.chain i) (lists (.chain i)) = lists := Function.update_eq_self ..
  have names' (r : Ref) : Names (p.setBucket r b) start (Function.update lists (.chain i) (lists (.chain i))) := by
    rw [same]
    exact names.setBucket r b
  cases place with
  | zero =>
    have result := models.changeChain (names' (.pri i)) rfl
      (fun away => by rw [setBucket_pri_bucket, if_neg (by simpa using away.symm)]) fun _ _ _ => rfl
    rw [same, setBucket_pri_bucket, if_pos rfl] at result
    have written : t.setBucketAt (i, 0) b =
        t.setChain i { pri := b, next := (lists (.chain i)).map fun n => (p.ovf n).bucket } := by
      rw [← models.next_eq]
      rfl
    rw [written]
    exact result
  | succ k =>
    rw [models.next_eq, List.length_map] at within
    have inside : k < (lists (.chain i)).length := within
    have target : p.refAt (i, k + 1) = .ovf (lists (.chain i))[k] := by
      simp only [refAt, names.chain_eq, List.getD_eq_getElem _ _ inside]
    rw [target]
    have result := models.changeChain (names' (.ovf (lists (.chain i))[k])) rfl (fun _ => rfl) fun {s m} _ away there => by
      rw [setBucket_ovf_bucket, if_neg]
      intro here
      exact away (names.spread.apart there (Ref.ovf.inj here ▸ List.getElem_mem inside))
    have written : t.setBucketAt (i, k + 1) b = t.setChain i
        { pri := (p.pri i).bucket
          next := (lists (.chain i)).map fun n => ((p.setBucket (.ovf (lists (.chain i))[k]) b).ovf n).bucket } := by
      have set : (lists (.chain i)).map (fun n => ((p.setBucket (.ovf (lists (.chain i))[k]) b).ovf n).bucket) =
          (t.buckets i).next.set k b := by
        rw [models.next_eq, ← map_set (names.spread.nodup _) inside]
        refine List.map_congr_left fun n _ => ?_
        simp only [setBucket_ovf_bucket, Ref.ovf.injEq, eq_comm]
      rw [set, ← models.pri_eq]
      rfl
    rw [same] at result
    rw [written]
    exact result

end Primitives

end FreakV.NamedTable
