import Mathlib.Data.List.Nodup

namespace Linked

variable {S : Type} {next next' : S → Option S}

def Path (next : S → Option S) : Option S → List S → Option S → Prop
  | start, [], stop => start = stop
  | start, a :: rest, stop => start = some a ∧ Path next (next a) rest stop

def walk (next : S → Option S) : Nat → Option S → List S
  | 0, _ => []
  | _ + 1, none => []
  | steps + 1, some a => a :: walk next steps (next a)

theorem Path.walk_eq {start : Option S} {nodes : List S} {steps : Nat} (path : Path next start nodes none)
    (enough : nodes.length ≤ steps) : walk next steps start = nodes := by
  induction nodes generalizing steps start with
  | nil =>
    obtain rfl : start = none := path
    cases steps <;> rfl
  | cons a rest ih =>
    obtain ⟨rfl, behind⟩ := path
    obtain ⟨steps, rfl⟩ : ∃ k, steps = k + 1 := Nat.exists_eq_succ_of_ne_zero (by simp at enough; omega)
    exact congrArg (a :: ·) (ih behind (by simpa using enough))

theorem Path.congr {start stop : Option S} {nodes : List S} (path : Path next start nodes stop)
    (same : ∀ a ∈ nodes, next' a = next a) : Path next' start nodes stop := by
  induction nodes generalizing start with
  | nil => exact path
  | cons a rest ih =>
    refine ⟨path.1, ?_⟩
    rw [same a List.mem_cons_self]
    exact ih path.2 fun b there => same b (List.mem_cons_of_mem a there)

theorem path_append {start stop : Option S} {front back : List S} :
    Path next start (front ++ back) stop ↔ ∃ middle, Path next start front middle ∧ Path next middle back stop := by
  induction front generalizing start with
  | nil => simp [Path]
  | cons a rest ih => simp [Path, ih, and_assoc]

theorem Path.start_eq {start stop : Option S} {nodes : List S} (path : Path next start nodes stop) :
    start = nodes.head?.or stop := by
  cases nodes with
  | nil => exact path
  | cons a rest => exact path.1

theorem Path.next_eq {start stop : Option S} {front back : List S} {a : S}
    (path : Path next start (front ++ a :: back) stop) : next a = back.head?.or stop := by
  obtain ⟨middle, -, -, behind⟩ := path_append.1 path
  exact behind.start_eq

theorem path_concat {start stop : Option S} {front : List S} {last : S} :
    Path next start (front ++ [last]) stop ↔ Path next start front (some last) ∧ next last = stop := by
  rw [path_append]
  constructor
  · rintro ⟨middle, path, rfl, rfl⟩
    exact ⟨path, rfl⟩
  · rintro ⟨path, rfl⟩
    exact ⟨some last, path, rfl, rfl⟩

theorem Path.append {start : Option S} {front : List S} {last new : S} (path : Path next start (front ++ [last]) none)
    (linked : next' last = some new) (ends : next' new = none) (same : ∀ a ∈ front, next' a = next a) :
    Path next' start (front ++ [last] ++ [new]) none := by
  rw [path_concat] at path
  rw [path_concat, path_concat]
  exact ⟨⟨path.1.congr same, linked⟩, ends⟩

theorem Path.remove {start start' stop : Option S} {front back : List S} {gone : S}
    (path : Path next start (front ++ gone :: back) stop) (nodup : (front ++ back).Nodup)
    (starts : start' = if front = [] then next gone else start)
    (linked : ∀ last, front.getLast? = some last → next' last = next gone)
    (same : ∀ a ∈ front ++ back, front.getLast? ≠ some a → next' a = next a) : Path next' start' (front ++ back) stop := by
  obtain ⟨middle, ahead, rfl, behind⟩ := path_append.1 path
  have behind : Path next' (next gone) back stop := by
    refine behind.congr fun a there => same a (List.mem_append_right _ there) fun last => ?_
    exact (List.nodup_append.1 nodup).2.2 a (List.mem_of_getLast? last) a there rfl
  rcases List.eq_nil_or_concat' front with rfl | ⟨others, last, rfl⟩
  · exact starts ▸ behind
  · have starts : start' = start := starts.trans (if_neg (by simp))
    rw [starts]
    refine path_append.2 ⟨next gone, path_concat.2 ⟨(path_concat.1 ahead).1.congr fun a there => ?_, linked last (by simp)⟩, behind⟩
    refine same a (by simp [there]) fun isLast => ?_
    have distinct := (List.nodup_append.1 (List.nodup_append.1 nodup).1).2.2 a there last (by simp)
    simp only [List.getLast?_concat, Option.some.injEq] at isLast
    exact distinct isLast.symm

theorem Path.insert {start start' : Option S} {front back : List S} {new : S}
    (path : Path next start (front ++ back) none) (nodup : (front ++ back).Nodup)
    (starts : start' = if front = [] then some new else start) (linked : ∀ last, front.getLast? = some last → next' last = some new)
    (follows : next' new = back.head?) (same : ∀ a ∈ front ++ back, front.getLast? ≠ some a → next' a = next a) :
    Path next' start' (front ++ new :: back) none := by
  obtain ⟨middle, ahead, behind⟩ := path_append.1 path
  have first : middle = back.head? := behind.start_eq.trans (by simp)
  have behind : Path next' (next' new) back none := by
    rw [follows, ← first]
    refine behind.congr fun a there => same a (List.mem_append_right _ there) fun last => ?_
    exact (List.nodup_append.1 nodup).2.2 a (List.mem_of_getLast? last) a there rfl
  rcases List.eq_nil_or_concat' front with rfl | ⟨others, last, rfl⟩
  · exact ⟨starts, behind⟩
  · have starts : start' = start := starts.trans (if_neg (by simp))
    rw [starts]
    refine path_append.2 ⟨some new, path_concat.2 ⟨(path_concat.1 ahead).1.congr fun a there => ?_, linked last (by simp)⟩,
      rfl, behind⟩
    refine same a (by simp [there]) fun isLast => ?_
    have distinct := (List.nodup_append.1 (List.nodup_append.1 nodup).1).2.2 a there last (by simp)
    simp only [List.getLast?_concat, Option.some.injEq] at isLast
    exact distinct isLast.symm

theorem Path.cut {start stop : Option S} {front back : List S} {last : S} (path : Path next start (front ++ last :: back) stop)
    (ends : next' last = none) (same : ∀ a ∈ front, next' a = next a) : Path next' start (front ++ [last]) none := by
  obtain ⟨middle, ahead, rfl, -⟩ := path_append.1 path
  exact path_concat.2 ⟨ahead.congr same, ends⟩

end Linked
