import Mathlib.Data.List.Basic
import Mathlib.Data.List.Nodup
import Mathlib.Data.Int.Notation
import Mathlib.Tactic.Common

/-! Values of configuration files, and the names that are checked in them. -/
namespace Atlas

/-- A value; floats, dates and times are the other ones. -/
inductive Toml (O : Type) where
  | text (s : String)
  | integer (n : ℤ)
  | boolean (b : Bool)
  | other (o : O)
  | array (items : List (Toml O))
  | table (fields : List (String × Toml O))

/-- `tomllib.loads`, and how values that are no texts are shown. -/
class TomlRuntime (O : Type) where
  loads : String → Option (List (String × Toml O))
  truthy : O → Bool
  str : Toml O → String
  repr : Toml O → String

section

variable {O : Type}

def Toml.isText (s : String) : Toml O → Bool
  | .text s' => s' == s
  | _ => false

def Toml.isTable : Toml O → Bool
  | .table _ => true
  | _ => false

variable [TomlRuntime O]

def Toml.truthy : Toml O → Bool
  | .text s => s != ""
  | .integer n => n != 0
  | .boolean b => b
  | .other o => TomlRuntime.truthy o
  | .array items => !items.isEmpty
  | .table fields => !fields.isEmpty

/-- `str(value)`. -/
def Toml.shown : Toml O → String
  | .text s => s
  | value => TomlRuntime.str value

/-- `value or default`. -/
def orElse (value : Option (Toml O)) (default : Toml O) : Toml O :=
  match value with
  | some v => if v.truthy then v else default
  | none => default

/-- The texts of a list that holds nothing else. -/
def textItems : List (Toml O) → Option (List String)
  | [] => some []
  | .text s :: items => (textItems items).map (s :: ·)
  | _ => none

end

/-- Reads one text as the given values. -/
@[reducible] def readsAs (text : String) (data : List (String × Toml Unit)) : TomlRuntime Unit where
  loads t := if t = text then some data else none
  truthy _ := true
  str _ := "1979-05-27"
  repr _ := "datetime.date(1979, 5, 27)"

theorem ok_of_bind {ε α β : Type} {x : Except ε α} {f : α → Except ε β} {b : β}
    (h : x >>= f = .ok b) : ∃ a, x = .ok a ∧ f a = .ok b := by
  cases x with
  | error e => cases h
  | ok a => exact ⟨a,rfl,h⟩

/-! Names. -/

/-- Up to a line break at the end, which `$` also stands before. -/
def chop (cs : List Char) : List Char := if cs.getLast? = some '\n' then cs.dropLast else cs

def isName (first rest : Char → Bool) : List Char → Bool
  | [] => false
  | c :: cs => first c && cs.all rest

theorem mem_of_isName {first rest : Char → Bool} {cs : List Char} (h : isName first rest cs = true) :
    cs ≠ [] ∧ ∀ c ∈ cs, first c = true ∨ rest c = true := by
  cases cs with
  | nil => cases h
  | cons c cs =>
    simp only [isName,Bool.and_eq_true,List.all_eq_true] at h
    refine ⟨List.cons_ne_nil _ _,fun d hd => ?_⟩
    rcases List.mem_cons.mp hd with rfl | hd
    · exact .inl h.1
    · exact .inr (h.2 d hd)

end Atlas
