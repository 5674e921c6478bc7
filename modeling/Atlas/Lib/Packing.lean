import Mathlib.Algebra.Ring.Nat
import Mathlib.Data.List.Pairwise

/-! Items packed in their order into chunks of a bounded size, with a gap between two items of a
chunk. An item that is too big has a chunk of its own. -/
namespace Packing

variable {α : Type*} (size : α → ℕ) (gap bound : ℕ)

/-- What an item adds to a chunk. -/
def addition (cur : List α) (x : α) : ℕ := size x + if cur.isEmpty then 0 else gap

/-- The chunks of the items that are left, after those collected so far and counted as `fill`. -/
def pack : List α → ℕ → List α → List (List α)
  | cur,_,[] => if cur.isEmpty then [] else [cur]
  | cur,fill,x :: xs =>
      if !cur.isEmpty && decide (bound < fill + addition size gap cur x) then
        cur :: pack [x] (addition size gap cur x) xs
      else pack (cur ++ [x]) (fill + addition size gap cur x) xs

/-- The size of a chunk with its gaps. -/
def span (l : List α) : ℕ := (l.map size).sum + gap * (l.length - 1)

theorem span_append_singleton (l : List α) (x : α) : span size gap (l ++ [x]) =
    span size gap l + addition size gap l x := by
  cases l with
  | nil => simp [span,addition]
  | cons a l =>
    simp [span,addition,Nat.mul_add]
    omega

/-- Every item is packed, once and in its order. -/
theorem flatten_pack (cur : List α) (fill : ℕ) (xs : List α) :
    (pack size gap bound cur fill xs).flatten = cur ++ xs := by
  induction xs generalizing cur fill with
  | nil =>
    rw [pack]
    split
    · next h => simp_all
    · simp
  | cons x xs ih =>
    rw [pack]
    split
    · simp [ih]
    · simp [ih]

theorem ne_nil_of_mem_pack {cur : List α} {fill : ℕ} {xs c : List α}
    (h : c ∈ pack size gap bound cur fill xs) : c ≠ [] := by
  induction xs generalizing cur fill with
  | nil =>
    rw [pack] at h
    split at h
    · simp at h
    · next hc =>
      rw [List.mem_singleton.mp h]
      simpa using hc
  | cons x xs ih =>
    rw [pack] at h
    split at h
    · next hc =>
      rcases List.mem_cons.mp h with rfl | h
      · simp at hc
        exact hc.1
      · exact ih h
    · exact ih h

/-- A chunk keeps the bound unless it holds a single item. -/
theorem span_of_mem_pack {cur : List α} {fill : ℕ} {xs c : List α}
    (hfill : span size gap cur ≤ fill) (hcur : cur.length ≤ 1 ∨ fill ≤ bound)
    (h : c ∈ pack size gap bound cur fill xs) : c.length ≤ 1 ∨ span size gap c ≤ bound := by
  have hspan : cur.length ≤ 1 ∨ span size gap cur ≤ bound := hcur.imp_right fun h => Nat.le_trans hfill h
  induction xs generalizing cur fill with
  | nil =>
    rw [pack] at h
    split at h
    · simp at h
    · rw [List.mem_singleton.mp h]
      exact hspan
  | cons x xs ih =>
    rw [pack] at h
    split at h
    · rcases List.mem_cons.mp h with rfl | h
      · exact hspan
      · have hone : span size gap [x] ≤ addition size gap cur x := by simp [span,addition]
        exact ih hone (Or.inl (by simp)) h (Or.inl (by simp))
    · next hc =>
      have hnext := span_append_singleton size gap cur x
      have hle : span size gap (cur ++ [x]) ≤ fill + addition size gap cur x := by omega
      have hbound : (cur ++ [x]).length ≤ 1 ∨ fill + addition size gap cur x ≤ bound := by
        simp only [Bool.and_eq_true,Bool.not_eq_true',decide_eq_true_eq,not_and,not_lt] at hc
        cases he : cur.isEmpty with
        | false => exact Or.inr (by simpa [he] using hc he)
        | true => exact Or.inl (by simp_all)
      exact ih hle hbound h (hbound.imp_right fun h => Nat.le_trans hle h)

end Packing
