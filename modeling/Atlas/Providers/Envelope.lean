import Atlas.Lib.JsonRoundTrip
import Atlas.Lib.Markers
import Atlas.Python

/-! What a model appends to its visible text: the runtime envelope and its older form. -/
namespace Atlas
namespace Providers

open JsonText Markers

abbrev Fields (F : Type) := List (String × Value F)

/-- `str.rstrip()`. -/
def rstrip (cs : List Char) : List Char := (cs.reverse.dropWhile isSpace).reverse

/-- `str.strip()`. -/
def stripChars (cs : List Char) : List Char := rstrip (cs.dropWhile isSpace)

section

variable {F : Type} [FloatText F]

def fieldAt (fields : Fields F) (key : String) : Option (Value F) :=
  (fields.find? fun p => p.1 == key).map (·.2)

def asObject : Value F → Option (Fields F)
  | .obj fields => some fields
  | _ => none

def asList : Value F → List (Value F)
  | .arr items => items
  | _ => []

end

section

variable {opening closing visible payload blanks : List Char}

end

section

variable {F : Type} [FloatText F]

end

/-- What the text of an envelope's object is read back as. -/
def readBack {F : Type} (visible : List Char) (fields : Fields F) :
    List Char × Option (Fields F) × List (Fields F) :=
  (rstrip visible,(fieldAt fields "task_state_delta").bind asObject,
    ((((fieldAt fields "memory_candidates").map asList).getD []).take 8).filterMap asObject)

/-- Floats to evaluate the model with, where none occurs. -/
@[reducible] def plainFloats : FloatText Unit where
  repr _ := "0.0".toList
  read _ := ()
  isFloat_repr := isFloat_zero
  read_repr _ := rfl

end Providers
end Atlas
