import Mathlib.Data.List.Basic

/-! Texts of numbers. -/
namespace Numerals

/-- The digits of a number are no separators. -/
theorem not_mem_toString {n : ℕ} {c : Char} (hc : c.isDigit = false) : c ∉ (toString n).toList := by
  intro h
  have hd := Nat.isDigit_of_mem_toDigits (by omega) (by omega)
    ((congrArg (c ∈ ·) Nat.toList_repr).mp h)
  rw [hc] at hd
  cases hd

theorem toString_injective {m n : ℕ} (h : toString m = toString n) : m = n := by
  have hm : (Nat.toDigits 10 m) = Nat.toDigits 10 n := by
    have hl := congrArg String.toList h
    simpa only [toString,Nat.toList_repr] using hl
  calc
    m = Nat.ofDigitChars 10 (Nat.toDigits 10 m) 0 := Nat.ofDigitChars_ten_toDigits.symm
    _ = Nat.ofDigitChars 10 (Nat.toDigits 10 n) 0 := by rw [hm]
    _ = n := Nat.ofDigitChars_ten_toDigits

end Numerals
