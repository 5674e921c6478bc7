import Mathlib.Data.Nat.Init
import Mathlib.Tactic.Common

/-! Texts as bytes, and bytes as texts over an alphabet of sixty-four letters; a strict reader gives
the bytes back. -/
namespace Base64

theorem fromUTF8_toUTF8 (s : String) : String.fromUTF8? s.toUTF8 = some s := by
  have h : ByteArray.IsValidUTF8 s.toByteArray := s.isValidUTF8
  rw [String.toUTF8_eq_toByteArray,String.fromUTF8?,dif_pos h]
  rfl

/-- The letter of a number below sixty-four. -/
def letter (n : ℕ) : Char :=
  if n < 26 then Char.ofNat (65 + n)
  else if n < 52 then Char.ofNat (97 + (n - 26))
  else if n < 62 then Char.ofNat (48 + (n - 52))
  else if n = 62 then '+'
  else '/'

def value (c : Char) : Option ℕ :=
  let n := c.toNat
  if 65 ≤ n ∧ n ≤ 90 then some (n - 65)
  else if 97 ≤ n ∧ n ≤ 122 then some (n - 97 + 26)
  else if 48 ≤ n ∧ n ≤ 57 then some (n - 48 + 52)
  else if c = '+' then some 62
  else if c = '/' then some 63
  else none

theorem value_letter {n : ℕ} (h : n < 64) : value (letter n) = some n := by
  have hall : ∀ n < 64, value (letter n) = some n := by decide
  exact hall n h

/-- Three bytes are four letters; what is left of a last group is padded. -/
def encode : List UInt8 → List Char
  | [] => []
  | [x] => [letter (x.toNat / 4),letter (x.toNat % 4 * 16),'=','=']
  | [x,y] => [letter (x.toNat / 4),letter (x.toNat % 4 * 16 + y.toNat / 16),
      letter (y.toNat % 16 * 4),'=']
  | x :: y :: z :: rest => letter (x.toNat / 4) :: letter (x.toNat % 4 * 16 + y.toNat / 16) ::
      letter (y.toNat % 16 * 4 + z.toNat / 64) :: letter (z.toNat % 64) :: encode rest

/-- The byte of the numbers of two letters of a group. -/
def first (a b : ℕ) : UInt8 := UInt8.ofNat (a * 4 + b / 16)

def second (b c : ℕ) : UInt8 := UInt8.ofNat (b % 16 * 16 + c / 4)

def third (c d : ℕ) : UInt8 := UInt8.ofNat (c % 4 * 64 + d)

/-- A group of four letters, the last of which may be padding where nothing follows. -/
def group (a b c d : Char) (last : Bool) : Option (List UInt8) :=
  match value a, value b with
  | some a, some b =>
      match value c, value d with
      | some c, some d => some [first a b,second b c,third c d]
      | some c, none => if last = true ∧ d = '=' then some [first a b,second b c] else none
      | none, _ => if last = true ∧ c = '=' ∧ d = '=' then some [first a b] else none
  | _, _ => none

/-- Reads a text of whole groups. -/
def decode : List Char → Option (List UInt8)
  | [] => some []
  | a :: b :: c :: d :: rest => (group a b c d rest.isEmpty).bind fun bytes =>
      (decode rest).map fun more => bytes ++ more
  | _ => none

theorem first_byte (x : UInt8) {n : ℕ} (h : n < 16) :
    first (x.toNat / 4) (x.toNat % 4 * 16 + n) = x := by
  have hx := x.toNat_lt
  rw [first,show x.toNat / 4 * 4 + (x.toNat % 4 * 16 + n) / 16 = x.toNat by omega,UInt8.ofNat_toNat]

theorem second_byte (m : ℕ) (y : UInt8) {n : ℕ} (h : n < 4) :
    second (m * 16 + y.toNat / 16) (y.toNat % 16 * 4 + n) = y := by
  have hy := y.toNat_lt
  rw [second,show (m * 16 + y.toNat / 16) % 16 * 16 + (y.toNat % 16 * 4 + n) / 4 = y.toNat by omega,
    UInt8.ofNat_toNat]

theorem third_byte (m : ℕ) (z : UInt8) : third (m * 4 + z.toNat / 64) (z.toNat % 64) = z := by
  have hz := z.toNat_lt
  rw [third,show (m * 4 + z.toNat / 64) % 4 * 64 + z.toNat % 64 = z.toNat by omega,UInt8.ofNat_toNat]

/-- Every list of bytes is read back from its text. -/
theorem decode_encode (bytes : List UInt8) : decode (encode bytes) = some bytes := by
  have hpad : value '=' = none := by decide
  fun_induction encode bytes with
  | case1 => rfl
  | case2 x =>
    have hx := x.toNat_lt
    have hone := first_byte x (show 0 < 16 by omega)
    rw [Nat.add_zero] at hone
    simp [decode,group,value_letter (show x.toNat / 4 < 64 by omega),
      value_letter (show x.toNat % 4 * 16 < 64 by omega),hpad,hone]
  | case3 x y =>
    have hx := x.toNat_lt
    have hy := y.toNat_lt
    have hone := first_byte x (show y.toNat / 16 < 16 by omega)
    have htwo := second_byte (x.toNat % 4) y (show 0 < 4 by omega)
    rw [Nat.add_zero] at htwo
    simp [decode,group,value_letter (show x.toNat / 4 < 64 by omega),
      value_letter (show x.toNat % 4 * 16 + y.toNat / 16 < 64 by omega),
      value_letter (show y.toNat % 16 * 4 < 64 by omega),hpad,hone,htwo]
  | case4 x y z rest ih =>
    have hx := x.toNat_lt
    have hy := y.toNat_lt
    have hz := z.toNat_lt
    have hone := first_byte x (show y.toNat / 16 < 16 by omega)
    have htwo := second_byte (x.toNat % 4) y (show z.toNat / 64 < 4 by omega)
    have hthree := third_byte (y.toNat % 16) z
    simp [decode,group,value_letter (show x.toNat / 4 < 64 by omega),
      value_letter (show x.toNat % 4 * 16 + y.toNat / 16 < 64 by omega),
      value_letter (show y.toNat % 16 * 4 + z.toNat / 64 < 64 by omega),
      value_letter (show z.toNat % 64 < 64 by omega),hone,htwo,hthree,ih]

theorem encode_injective : Function.Injective encode := fun a b h => by
  have hdecode := congrArg decode h
  rwa [decode_encode,decode_encode,Option.some.injEq] at hdecode

theorem nul_not_mem_encode (bytes : List UInt8) : Char.ofNat 0 ∉ encode bytes := by
  have hletter : ∀ n, Char.ofNat 0 ≠ letter n := by
    intro n h
    by_cases hn : n < 64
    · have hall : ∀ n < 64, Char.ofNat 0 ≠ letter n := by decide
      exact hall n hn h
    · rw [letter,if_neg (by omega),if_neg (by omega),if_neg (by omega),if_neg (by omega)] at h
      exact absurd h (by decide)
  have hpad : Char.ofNat 0 ≠ '=' := by decide
  fun_induction encode bytes with
  | case1 => simp
  | case2 x => simp [hletter,hpad]
  | case3 x y => simp [hletter,hpad]
  | case4 x y z rest ih => simp [hletter,ih]

end Base64
