import Atlas.Lib.JsonText
import Atlas.Python
import Mathlib.Data.List.Sort

/-! The bounded copy of a runtime observation that a model is shown. -/
namespace Atlas
namespace Evidence

open JsonText

/-- The parts of the Python runtime that cleaning a text leaves open. -/
class TextRuntime (F : Type) extends PyRuntime, FloatText F where
  /-- `\w` of a regular expression. -/
  isWord : Char → Bool
  unescape : List Char → List Char
  isZero : F → Bool
  str : Value F → String

def modelObservationCharLimit : ℕ := 12000

/-- The layout that observations are measured in. -/
def compact : Layout := ⟨false,false⟩

/-- The layout of `json.dumps` without arguments. -/
def spaced : Layout := ⟨true,true⟩

/-! Regular expressions, each as what is left behind a match at the start of a text. -/

def isLetter (c : Char) : Bool := ('a' ≤ c && c ≤ 'z') || ('A' ≤ c && c ≤ 'Z')

/-- `</?[a-zA-Z][^>]*>` at the start of a text. -/
def startsTag : List Char → Bool
  | '<' :: '/' :: c :: cs => isLetter c && cs.contains '>'
  | '<' :: c :: cs => isLetter c && cs.contains '>'
  | _ => false

def holdsTag (cs : List Char) : Bool := cs.tails.any startsTag

/-- `[^>]*>`. -/
def afterClose : List Char → Option (List Char)
  | [] => none
  | c :: cs => if c = '>' then some cs else afterClose cs

/-- `<[^>]+>`. -/
def afterTag : List Char → Option (List Char)
  | '<' :: c :: cs => if c = '>' then none else afterClose cs
  | _ => none

/-- `[ \t\r\f\v]`. -/
def isHorizontal (c : Char) : Bool :=
  let n := c.toNat
  n == 32 || n == 9 || n == 13 || n == 12 || n == 11

/-- `[ \t\r\f\v]+`. -/
def afterBlanks : List Char → Option (List Char)
  | c :: cs => if isHorizontal c then some (cs.dropWhile isHorizontal) else none
  | [] => none

/-- `\n\s*\n\s*\n+`: up to the last line break of the blanks that follow. -/
def afterBreaks : List Char → Option (List Char)
  | '\n' :: cs =>
      let run := cs.takeWhile isSpace
      if 2 ≤ run.count '\n' then
        some (cs.drop (run.length - (run.reverse.takeWhile (· != '\n')).length))
      else none
  | _ => none

/-- `re.sub` by a text; every match takes a character at least. -/
def subFrom (after : List Char → Option (List Char)) (replacement : List Char) :
    ℕ → List Char → List Char
  | _,[] => []
  | 0,cs => cs
  | fuel + 1,c :: cs =>
      match after (c :: cs) with
      | some rest => replacement ++ subFrom after replacement fuel rest
      | none => c :: subFrom after replacement fuel cs

def sub (after : List Char → Option (List Char)) (replacement cs : List Char) : List Char :=
  subFrom after replacement cs.length cs

section

variable {F : Type} [TextRuntime F]

/-- What follows the first place of a text, ignoring case. -/
def afterText (pattern : List Char) : List Char → Option (List Char)
  | [] => none
  | c :: cs =>
      if startsWith pattern (c :: cs) then some ((c :: cs).drop pattern.length)
      else afterText pattern cs

/-- `<name\b[^>]*>.*?</name>`, ignoring case. -/
def afterElement (name : List Char) : List Char → Option (List Char)
  | '<' :: cs =>
      if startsWith name cs then
        match cs.drop name.length with
        | [] => none
        | c :: rest =>
            if TextRuntime.isWord F c then none
            else (afterClose (c :: rest)).bind (afterText (F := F) ("</".toList ++ name ++ ['>']))
      else none
  | _ => none

/-- A text without its markup. -/
def withoutMarkup (cs : List Char) : List Char :=
  let cs := sub (afterElement (F := F) "script".toList) [' '] cs
  let cs := sub (afterElement (F := F) "style".toList) [' '] cs
  let cs := sub afterTag [' '] cs
  let cs := TextRuntime.unescape F cs
  let cs := sub afterBlanks [' '] cs
  let cs := sub afterBreaks ['\n','\n'] cs
  ((cs.dropWhile isSpace).reverse.dropWhile isSpace).reverse

/-- `_clean_string`. -/
def cleanString (value : String) (limit : ℕ) : String :=
  let text := value.toList
  let text := if text.contains '<' && text.contains '>' && holdsTag text then
    withoutMarkup (F := F) text else text
  if text.length ≤ limit then String.ofList text
  else String.ofList (text.take limit) ++
    ("… [model projection omitted " ++ toString (text.length - limit) ++ " characters]")

variable (F) in
/-- Whether what stands under a key is a file. -/
def isDataKey (key : String) : Bool :=
  letI := TextRuntime.toPyRuntime F
  PyRuntime.casefold key == "data_base64"

def omittedItems (n : ℕ) : Value F := .obj [("model_projection_omitted_items",.int n)]

def omittedNested : Value F := .str "[nested model evidence omitted]"

mutual

/-- `_bound`. -/
def bound (stringLimit listLimit : ℕ) : Value F → ℕ → Value F
  | .str s,depth =>
      if 6 ≤ depth then omittedNested else .str (cleanString (F := F) s stringLimit)
  | .arr items,depth =>
      if 6 ≤ depth then omittedNested
      else .arr (boundItems stringLimit listLimit items listLimit (depth + 1))
  | .obj fields,depth =>
      if 6 ≤ depth then omittedNested
      else .obj (boundFields stringLimit listLimit fields (depth + 1))
  | value,depth => if 6 ≤ depth then omittedNested else value

/-- The first items of a list, and how many there are more. -/
def boundItems (stringLimit listLimit : ℕ) : List (Value F) → ℕ → ℕ → List (Value F)
  | [],_,_ => []
  | _ :: items,0,_ => [omittedItems (items.length + 1)]
  | item :: items,n + 1,depth =>
      bound stringLimit listLimit item depth :: boundItems stringLimit listLimit items n depth

def boundFields (stringLimit listLimit : ℕ) :
    List (String × Value F) → ℕ → List (String × Value F)
  | [],_ => []
  | (key,item) :: fields,depth =>
      if isDataKey F key then boundFields stringLimit listLimit fields depth
      else (key,bound stringLimit listLimit item depth) ::
        boundFields stringLimit listLimit fields depth

end

def fieldAt (fields : List (String × Value F)) (key : String) : Option (Value F) :=
  (fields.find? fun p => p.1 == key).map (·.2)

/-- `type(value).__name__`. -/
def kindName : Value F → String
  | .null => "NoneType"
  | .bool _ => "bool"
  | .int _ => "int"
  | .float _ => "float"
  | .constant _ => "float"
  | .str _ => "str"
  | .arr _ => "list"
  | .obj _ => "dict"

/-- `str(value or "")`. -/
def textOr : Option (Value F) → String
  | none => ""
  | some .null => ""
  | some (.bool false) => ""
  | some (.int 0) => ""
  | some (.str s) => s
  | some (.arr []) => ""
  | some (.obj []) => ""
  | some (.float f) => if TextRuntime.isZero f then "" else TextRuntime.str (.float f)
  | some value => TextRuntime.str value

def outputKeys : Option (Value F) → List String
  | some (.obj fields) => (fields.map Prod.fst).insertionSort (· ≤ ·)
  | _ => []

/-- The last fallback: what a projection is about. -/
def structural : Value F → Value F
  | .obj fields => .obj [
      ("status",(fieldAt fields "status").getD .null),
      ("operation_id",(fieldAt fields "operation_id").getD .null),
      ("message",.str (cleanString (F := F) (textOr (fieldAt fields "message")) 1200)),
      ("output_keys",.arr ((outputKeys (fieldAt fields "output")).map .str))]
  | value => .obj [("kind",.str (kindName value))]

/-- What is said about an observation that was cut. -/
structure Omission where
  originalCharacters : ℕ
  projectedCharacters : ℕ
  deriving Repr, DecidableEq

/-- `bound_model_evidence`. -/
def boundModelEvidence (value : Value F) (charLimit : ℕ) : Value F × Option Omission :=
  let original := (encode compact value).length
  let first := bound 6000 24 value 0
  let encoded := (encode compact first).length
  if encoded ≤ charLimit then
    (first,if encoded < original then some ⟨original,encoded⟩ else none)
  else
    let second := bound 1800 10 value 0
    let encoded := (encode compact second).length
    if encoded ≤ charLimit then (second,some ⟨original,encoded⟩)
    else (structural second,some ⟨original,(encode spaced (structural second)).length⟩)

/-- `attach_projection_metadata`. -/
def attachProjectionMetadata (value : Value F) (metadata : Option Omission) : Value F :=
  match metadata,value with
  | some omission,.obj fields => .obj (putPair fields ("model_projection",.obj [
      ("compacted",.bool true),
      ("original_characters",.int omission.originalCharacters),
      ("projected_characters",.int omission.projectedCharacters),
      ("canonical_evidence_retained",.bool true)]))
  | _,value => value

mutual

/-- A value without the files in it. -/
def withoutData : Value F → Value F
  | .arr items => .arr (withoutItems items)
  | .obj fields => .obj (withoutFields fields)
  | value => value

def withoutItems : List (Value F) → List (Value F)
  | [] => []
  | item :: items => withoutData item :: withoutItems items

def withoutFields : List (String × Value F) → List (String × Value F)
  | [] => []
  | (key,item) :: fields =>
      if isDataKey F key then withoutFields fields
      else (key,withoutData item) :: withoutFields fields

end

mutual

/-- Whether a projection changes nothing of a value but the files in it. -/
def Untouched (stringLimit listLimit : ℕ) : Value F → ℕ → Prop
  | .str s,depth =>
      if 6 ≤ depth then s = "[nested model evidence omitted]"
      else cleanString (F := F) s stringLimit = s
  | .arr items,depth => depth < 6 ∧ UntouchedItems stringLimit listLimit items listLimit (depth + 1)
  | .obj fields,depth => depth < 6 ∧ UntouchedFields stringLimit listLimit fields (depth + 1)
  | _,depth => depth < 6

/-- No item is behind the last one shown, unless it is what is put there. -/
def UntouchedItems (stringLimit listLimit : ℕ) : List (Value F) → ℕ → ℕ → Prop
  | [],_,_ => True
  | item :: items,0,_ => items = [] ∧ withoutData item = omittedItems 1
  | item :: items,n + 1,depth => Untouched stringLimit listLimit item depth ∧
      UntouchedItems stringLimit listLimit items n depth

def UntouchedFields (stringLimit listLimit : ℕ) : List (String × Value F) → ℕ → Prop
  | [],_ => True
  | (key,item) :: fields,depth =>
      (isDataKey F key = false → Untouched stringLimit listLimit item depth) ∧
      UntouchedFields stringLimit listLimit fields depth

end

mutual

/-- The characters of the text of a projection, counted on the value itself. -/
def projectedLength (stringLimit listLimit : ℕ) : Value F → ℕ → ℕ
  | .str s,depth =>
      if 6 ≤ depth then 33 else (stringText false (cleanString (F := F) s stringLimit)).length
  | .arr items,depth =>
      if 6 ≤ depth then 33
      else max 2 (projectedItems stringLimit listLimit items listLimit (depth + 1) + 1)
  | .obj fields,depth =>
      if 6 ≤ depth then 33
      else max 2 (projectedFields stringLimit listLimit fields (depth + 1) + 1)
  | value,depth => if 6 ≤ depth then 33 else (encode compact value).length

def projectedItems (stringLimit listLimit : ℕ) : List (Value F) → ℕ → ℕ → ℕ
  | [],_,_ => 0
  | _ :: items,0,_ => (intText (items.length + 1)).length + 36
  | item :: items,n + 1,depth => projectedLength stringLimit listLimit item depth + 1 +
      projectedItems stringLimit listLimit items n depth

def projectedFields (stringLimit listLimit : ℕ) : List (String × Value F) → ℕ → ℕ
  | [],_ => 0
  | (key,item) :: fields,depth =>
      if isDataKey F key then projectedFields stringLimit listLimit fields depth
      else (stringText false key).length + projectedLength stringLimit listLimit item depth + 2 +
        projectedFields stringLimit listLimit fields depth

end

theorem length_omittedItems (n : ℕ) :
    (encode compact (omittedItems (F := F) n)).length = (intText n).length + 35 := by
  simp [omittedItems,encode_int,encode_obj_cons,encodeFields,compact,Layout.separator,stringText,
    escapeChar]

theorem length_omittedNested : (encode compact (omittedNested (F := F))).length = 33 := by
  simp [omittedNested,encode_str,compact,stringText,escapeChar]

mutual

theorem length_bound (sl ll : ℕ) : ∀ (v : Value F) (d : ℕ),
    (encode compact (bound sl ll v d)).length = projectedLength sl ll v d
  | .str s,d => by
      rw [bound,projectedLength]
      split_ifs
      · exact length_omittedNested
      · rfl
  | .arr items,d => by
      rw [bound,projectedLength,← length_boundItems sl ll items ll (d + 1)]
      split_ifs
      · exact length_omittedNested
      · exact length_encode_arr false _
  | .obj fields,d => by
      rw [bound,projectedLength,← length_boundFields sl ll fields (d + 1)]
      split_ifs
      · exact length_omittedNested
      · exact length_encode_obj false _
  | .null,d | .bool _,d | .int _,d | .float _,d | .constant _,d => by
      simp only [bound,projectedLength]
      split_ifs
      · exact length_omittedNested
      · rfl

theorem length_boundItems (sl ll : ℕ) : ∀ (items : List (Value F)) (n d : ℕ),
    ((boundItems sl ll items n d).map fun item => (encode compact item).length + 1).sum =
      projectedItems sl ll items n d
  | [],_,_ => rfl
  | _ :: items,0,_ => by
      simp [boundItems,projectedItems,length_omittedItems]
  | item :: items,n + 1,d => by
      simp only [boundItems,projectedItems,List.map_cons,List.sum_cons,length_bound sl ll item d,
        length_boundItems sl ll items n d]

theorem length_boundFields (sl ll : ℕ) : ∀ (fields : List (String × Value F)) (d : ℕ),
    ((boundFields sl ll fields d).map fun p =>
      (stringText false p.1).length + (encode compact p.2).length + 2).sum =
      projectedFields sl ll fields d
  | [],_ => rfl
  | (key,item) :: fields,d => by
      rw [boundFields,projectedFields]
      split_ifs
      · exact length_boundFields sl ll fields d
      · simp only [List.map_cons,List.sum_cons,length_bound sl ll item d,
          length_boundFields sl ll fields d]

end

mutual

theorem bound_eq_iff (sl ll : ℕ) : ∀ (v : Value F) (d : ℕ),
    bound sl ll v d = withoutData v ↔ Untouched sl ll v d
  | .str s,d => by
      simp only [bound,withoutData,Untouched,omittedNested]
      split_ifs <;> simp [eq_comm]
  | .arr items,d => by
      have h := boundItems_eq_iff sl ll items ll (d + 1)
      simp only [bound,withoutData,Untouched,omittedNested]
      split_ifs with hd
      · simp [hd]
      · simp [h,Nat.lt_of_not_le hd]
  | .obj fields,d => by
      have h := boundFields_eq_iff sl ll fields (d + 1)
      simp only [bound,withoutData,Untouched,omittedNested]
      split_ifs with hd
      · simp [hd]
      · simp [h,Nat.lt_of_not_le hd]
  | .null,d | .bool _,d | .int _,d | .float _,d | .constant _,d => by
      simp only [bound,withoutData,Untouched,omittedNested]
      split_ifs with hd
      · simp [hd]
      · simp [Nat.lt_of_not_le hd]

theorem boundItems_eq_iff (sl ll : ℕ) : ∀ (items : List (Value F)) (n d : ℕ),
    boundItems sl ll items n d = withoutItems items ↔ UntouchedItems sl ll items n d
  | [],_,_ => by simp [boundItems,withoutItems,UntouchedItems]
  | item :: items,0,_ => by
      cases items with
      | nil => simp [boundItems,withoutItems,UntouchedItems,eq_comm]
      | cons other items => simp [boundItems,withoutItems,UntouchedItems]
  | item :: items,n + 1,d => by
      simp only [boundItems,withoutItems,UntouchedItems,List.cons.injEq,bound_eq_iff sl ll item d,
        boundItems_eq_iff sl ll items n d]

theorem boundFields_eq_iff (sl ll : ℕ) : ∀ (fields : List (String × Value F)) (d : ℕ),
    boundFields sl ll fields d = withoutFields fields ↔ UntouchedFields sl ll fields d
  | [],_ => by simp [boundFields,withoutFields,UntouchedFields]
  | (key,item) :: fields,d => by
      have hitem := bound_eq_iff sl ll item d
      have hfields := boundFields_eq_iff sl ll fields d
      simp only [boundFields,withoutFields,UntouchedFields]
      split_ifs with hkey
      · simp [hkey,hfields]
      · simp [hkey,hitem,hfields]

end

end

/-- A runtime to evaluate the model with, where no float and no markup occurs. -/
@[reducible] def plainTexts : TextRuntime Unit where
  toPyRuntime := plainRuntime
  repr _ := "0.0".toList
  read _ := ()
  isFloat_repr := JsonText.isFloat_zero
  read_repr _ := rfl
  isWord c := c.isAlphanum || c == '_'
  unescape cs := cs
  isZero _ := true
  str _ := ""

end Evidence
end Atlas
