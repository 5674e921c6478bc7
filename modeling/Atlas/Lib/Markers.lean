import Mathlib.Data.List.Infix
import Mathlib.Tactic.Common

/-! Finding a marker in a text from the right, where the marker begins with a character that
does not occur in its rest. -/
namespace Markers

variable {α : Type*} [DecidableEq α] {marker text : List α} {i : ℕ}

section

omit [DecidableEq α]

variable {a : α} {as : List α}

end

end Markers
