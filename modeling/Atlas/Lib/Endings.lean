import Mathlib.Data.List.DropRight

/-! How often one entry stands at the end of a list. -/
namespace Endings

variable {α : Type*} [DecidableEq α]

def trailing (a : α) (l : List α) : ℕ := (l.rtakeWhile (· == a)).length

@[simp] theorem trailing_nil (a : α) : trailing a [] = 0 := by
  rw [trailing,List.rtakeWhile_nil,List.length_nil]

theorem trailing_concat (a b : α) (l : List α) :
    trailing a (l ++ [b]) = if b = a then trailing a l + 1 else 0 := by
  rw [trailing,List.rtakeWhile_concat]
  by_cases h : b = a
  · rw [if_pos h,if_pos (beq_iff_eq.mpr h),List.length_append,List.length_singleton,trailing]
  · rw [if_neg h,if_neg (fun hb => h (beq_iff_eq.mp hb)),List.length_nil]

/-- A list ends with so many copies of an entry. -/
theorem replicate_suffix_iff {n : ℕ} {a : α} {l : List α} :
    List.replicate n a <:+ l ↔ n ≤ trailing a l := by
  induction l using List.reverseRecOn generalizing n with
  | nil => rw [List.suffix_nil,List.replicate_eq_nil_iff,trailing_nil,Nat.le_zero]
  | append_singleton l b ih =>
    rw [trailing_concat,List.suffix_concat_iff,List.replicate_eq_nil_iff]
    cases n with
    | zero => simp
    | succ n =>
      rw [List.replicate_succ']
      constructor
      · rintro (h | ⟨t,ht,hsuffix⟩)
        · cases h
        · obtain ⟨rfl,hb⟩ := List.append_inj' ht rfl
          obtain rfl := List.singleton_inj.mp hb
          rw [if_pos rfl]
          exact Nat.succ_le_succ (ih.mp hsuffix)
      · intro h
        by_cases hb : b = a
        · rw [if_pos hb] at h
          rw [hb]
          exact .inr ⟨_,rfl,ih.mpr (Nat.le_of_succ_le_succ h)⟩
        · rw [if_neg hb] at h
          omega

end Endings
