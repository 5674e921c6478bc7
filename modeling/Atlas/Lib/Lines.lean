import Mathlib.Data.List.Basic

/-! Texts of lines: splitting at the separator finds the lines of the parts that were joined. -/
namespace Lines

variable {α : Type*} [BEq α] [LawfulBEq α] {sep : α}

/-- The lines of joined texts are the lines of the texts. -/
theorem splitOn_intercalate {parts : List (List α)} (h : parts ≠ []) :
    ([sep].intercalate parts).splitOn sep = parts.flatMap (·.splitOn sep) := by
  induction parts with
  | nil => exact absurd rfl h
  | cons part parts ih =>
    cases parts with
    | nil => simp
    | cons next parts =>
      have hrest := ih (List.cons_ne_nil _ _)
      rw [List.intercalate_cons_cons,List.append_assoc,List.singleton_append,
        List.splitOn_append_cons_self,hrest]
      simp

/-- Text without a separator lengthens the first line. -/
theorem splitOn_append {x : List α} (hx : sep ∉ x) (y : List α) :
    (x ++ y).splitOn sep = (y.splitOn sep).modifyHead (x ++ ·) := by
  induction x with
  | nil =>
    rw [List.nil_append]
    cases y.splitOn sep <;> rfl
  | cons a x ih =>
    have ha : (a == sep) = false := beq_eq_false_iff_ne.mpr fun h => hx (h ▸ List.mem_cons_self)
    have hrest := ih fun h => hx (List.mem_cons_of_mem _ h)
    rw [List.cons_append,List.splitOn_cons_eq_if_modifyHead,ha,hrest]
    simp [Function.comp_def]

omit [LawfulBEq α] in
theorem subset_of_mem_splitOn {l p : List α} (h : p ∈ l.splitOn sep) : p ⊆ l := by
  induction l generalizing p with
  | nil =>
    have hp : p = [] := by simpa using h
    simp [hp]
  | cons a l ih =>
    rw [List.splitOn_cons_eq_if_modifyHead] at h
    split at h
    · rcases List.mem_cons.mp h with rfl | h
      · simp
      · exact List.Subset.trans (ih h) (List.subset_cons_self ..)
    · obtain ⟨q,qs,hq⟩ := List.exists_cons_of_ne_nil (List.splitOn_ne_nil sep l)
      rw [hq,List.modifyHead_cons] at h
      rcases List.mem_cons.mp h with rfl | h
      · exact List.cons_subset_cons _ (ih (hq ▸ List.mem_cons_self))
      · exact List.Subset.trans (ih (hq ▸ List.mem_cons_of_mem _ h)) (List.subset_cons_self ..)

/-- A line of a text either begins as the text does or lies in the rest. -/
theorem mem_splitOn_append {x y p : List α} (hx : sep ∉ x) (h : p ∈ (x ++ y).splitOn sep) :
    x <+: p ∨ p ⊆ y := by
  obtain ⟨q,qs,hq⟩ := List.exists_cons_of_ne_nil (List.splitOn_ne_nil sep y)
  rw [splitOn_append hx,hq,List.modifyHead_cons] at h
  rcases List.mem_cons.mp h with rfl | h
  · exact Or.inl (List.prefix_append _ _)
  · exact Or.inr (subset_of_mem_splitOn (hq ▸ List.mem_cons_of_mem _ h))

/-- A field that ends at a separator is known by the number of separators in it. -/
theorem append_cons_inj {x x' y y' : List α} (h : x ++ sep :: y = x' ++ sep :: y')
    (hc : x.count sep = x'.count sep) : x = x' ∧ y = y' := by
  induction x generalizing x' with
  | nil =>
    cases x' with
    | nil => simpa using h
    | cons b x' =>
      rw [List.nil_append,List.cons_append,List.cons.injEq] at h
      rw [← h.1] at hc
      simp at hc
  | cons a x ih =>
    cases x' with
    | nil =>
      rw [List.nil_append,List.cons_append,List.cons.injEq] at h
      rw [h.1] at hc
      simp at hc
    | cons b x' =>
      rw [List.cons_append,List.cons_append,List.cons.injEq] at h
      obtain ⟨rfl,h⟩ := h
      rw [List.count_cons,List.count_cons] at hc
      obtain ⟨rfl,hy⟩ := ih h (by omega)
      exact ⟨rfl,hy⟩

end Lines
