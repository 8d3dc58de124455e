/-!
# Lists in parts

A list cut into parts of one size, the last one perhaps shorter, or at the places of an element.
-/
namespace TapeBasic

/-- The list in parts of `size` elements, at least one, the last part perhaps shorter. -/
def chunks {α : Type} (size : Nat) (list : List α) : List (List α) :=
  match list with
  | [] => []
  | a :: rest => (a :: rest.take (size - 1)) :: chunks size (rest.drop (size - 1))
termination_by list.length
decreasing_by simp only [List.length_cons, List.length_drop]; omega

theorem flatten_chunks {α : Type} (size : Nat) (list : List α) : (chunks size list).flatten = list := by
  fun_induction chunks size list with
  | case1 => rfl
  | case2 a rest ih => simp [ih]

/-- No part holds the element at which the list is parted. -/
theorem not_mem_of_mem_splitOn {α : Type} [BEq α] [LawfulBEq α] {x : α} {list part : List α}
    (h : part ∈ list.splitOn x) : x ∉ part := by
  induction list generalizing part with
  | nil =>
    rw [List.mem_singleton.mp h]
    exact List.not_mem_nil
  | cons y list ih =>
    rw [List.splitOn_cons_eq_if_modifyHead] at h
    split at h
    · rcases List.mem_cons.mp h with rfl | h
      · exact List.not_mem_nil
      · exact ih h
    · next hy =>
      obtain ⟨first, others, hsplit⟩ := List.exists_cons_of_ne_nil (List.splitOn_ne_nil x list)
      rw [hsplit, List.modifyHead_cons] at h
      rw [hsplit] at ih
      rcases List.mem_cons.mp h with rfl | h
      · have hne : x ≠ y := fun heq => hy (beq_iff_eq.mpr heq.symm)
        exact List.not_mem_cons_of_ne_of_not_mem hne (ih List.mem_cons_self)
      · exact ih (List.mem_cons_of_mem _ h)

/-- The list without the elements at its end that satisfy `p`. -/
def dropRightWhile {α : Type} (p : α → Bool) (list : List α) : List α :=
  (list.reverse.dropWhile p).reverse

end TapeBasic
