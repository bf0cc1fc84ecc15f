import FreakV.Lib.Chain

namespace Linked

variable {S : Type} {next next' prev prev' : S → Option S} {head head' tail tail' : Option S}

theorem Path.bypass {start start' : Option S} {front behind : List S} {gone : S}
    (path : Path next start (front ++ gone :: behind) none) (nodup : (front ++ gone :: behind).Nodup)
    (starts : start' = if front = [] then next gone else start)
    (linked : ∀ last, front.getLast? = some last → next' last = next gone)
    (same : ∀ a ∈ front ++ behind, front.getLast? ≠ some a → next' a = next a) :
    Path next' start' (front ++ behind) none := by
  obtain ⟨middle, ahead, first, rest⟩ := path_append.1 path
  subst first
  have rest : Path next' (next gone) behind none := by
    refine rest.congr fun a there => same a (List.mem_append_right _ there) fun last => ?_
    exact (List.nodup_append.1 nodup).2.2 a (List.mem_of_getLast? last) a (List.mem_cons_of_mem _ there) rfl
  rcases List.eq_nil_or_concat' front with rfl | ⟨others, last, rfl⟩
  · rw [starts, if_pos rfl]
    exact rest
  · rw [starts, if_neg (by simp)]
    have before := (path_concat.1 ahead).1
    refine path_append.2 ⟨next gone, path_concat.2 ⟨before.congr fun a there => ?_, linked last (by simp)⟩, rest⟩
    refine same a (by simp [there]) fun isLast => ?_
    have distinct := (List.nodup_append.1 (List.nodup_append.1 nodup).1).2.2 a there last (by simp)
    simp only [List.getLast?_concat, Option.some.injEq] at isLast
    exact distinct isLast.symm

structure Doubly (next prev : S → Option S) (head tail : Option S) (nodes : List S) : Prop where
  forth : Path next head nodes none
  back : Path prev tail nodes.reverse none
  nodup : nodes.Nodup

namespace Doubly

variable {nodes front behind : List S} {a : S}

theorem nil (next prev : S → Option S) : Doubly next prev none none [] := ⟨rfl, rfl, List.nodup_nil⟩

theorem congr (list : Doubly next prev head tail nodes) (forth : ∀ a ∈ nodes, next' a = next a)
    (back : ∀ a ∈ nodes, prev' a = prev a) : Doubly next' prev' head tail nodes :=
  ⟨list.forth.congr forth, list.back.congr fun a there => back a (List.mem_reverse.1 there), list.nodup⟩

theorem head_eq (list : Doubly next prev head tail nodes) : head = nodes.head? := by simpa using list.forth.start_eq

theorem tail_eq (list : Doubly next prev head tail nodes) : tail = nodes.getLast? := by
  simpa using list.back.start_eq

theorem next_eq (list : Doubly next prev head tail (front ++ a :: behind)) : next a = behind.head? := by
  simpa using list.forth.next_eq

theorem prev_eq (list : Doubly next prev head tail (front ++ a :: behind)) : prev a = front.getLast? := by
  have back := list.back
  simp only [List.reverse_append, List.reverse_cons, List.append_assoc, List.singleton_append] at back
  simpa using back.next_eq

theorem remove (list : Doubly next prev head tail (front ++ a :: behind))
    (starts : head' = if front = [] then next a else head) (ends : tail' = if behind = [] then prev a else tail)
    (before : ∀ b, prev a = some b → next' b = next a) (after : ∀ c, next a = some c → prev' c = prev a)
    (forth : ∀ b ∈ front ++ behind, prev a ≠ some b → next' b = next b)
    (back : ∀ c ∈ front ++ behind, next a ≠ some c → prev' c = prev c) :
    Doubly next' prev' head' tail' (front ++ behind) := by
  have nextA := list.next_eq
  have prevA := list.prev_eq
  have nodup := list.nodup
  have backward := list.back
  simp only [List.reverse_append, List.reverse_cons, List.append_assoc, List.singleton_append] at backward
  have reversed : (behind.reverse ++ a :: front.reverse).Nodup := by
    have := List.nodup_reverse.2 nodup
    simpa only [List.reverse_append, List.reverse_cons, List.append_assoc, List.singleton_append] using this
  refine ⟨list.forth.bypass nodup starts ?_ ?_, ?_, ?_⟩
  · exact fun b last => before b (prevA.trans last)
  · exact fun b there other => forth b there (prevA ▸ other)
  · rw [List.reverse_append]
    refine backward.bypass reversed (by simpa using ends) ?_ ?_
    · exact fun c last => after c (nextA.trans (by simpa using last))
    · exact fun c there other => back c (by simpa [or_comm] using there) (by simpa [nextA] using other)
  · exact nodup.sublist (List.Sublist.append_left (List.sublist_cons_self _ _) _)

theorem push (list : Doubly next prev head tail nodes) (fresh : a ∉ nodes) (first : prev' a = none)
    (follows : next' a = head) (starts : head' = some a) (ends : tail' = if nodes = [] then some a else tail)
    (linked : ∀ b, head = some b → prev' b = some a) (forth : ∀ b ∈ nodes, next' b = next b)
    (back : ∀ b ∈ nodes, head ≠ some b → prev' b = prev b) : Doubly next' prev' head' tail' (a :: nodes) := by
  have headEq := list.head_eq
  refine ⟨⟨starts, ?_⟩, ?_, List.nodup_cons.2 ⟨fresh, list.nodup⟩⟩
  · rw [follows]
    exact list.forth.congr forth
  · rw [List.reverse_cons]
    refine Path.insert (by simpa using list.back) (by simpa using list.nodup) (by simpa using ends) ?_ (by simpa using first) ?_
    · exact fun b last => linked b (headEq.trans (by simpa using last))
    · exact fun b there other => back b (by simpa using there) (by simpa [headEq] using other)

end Doubly

end Linked
