import Atlas.Lib.JsonText
import Atlas.Python
import Mathlib.Data.List.Dedup
import Mathlib.Data.List.Sort

/-! Wordings that the owner suppressed, taken out of what a model is shown. -/
namespace Atlas
namespace Guards

open JsonText

/-- The order in which the texts of a set are walked. -/
class SetOrder where
  walk : List String → List String
  walk_perm : ∀ l, (walk l).Perm l

def suppressed : String := "[suppressed by owner memory directive]"

section

variable [SetOrder]

/-- `guarded_contents`: longer wordings first. -/
def guardedContents (values : List String) : List String :=
  ((SetOrder.walk (values.map normalizeSpace).dedup).filter (· ≠ "")).insertionSort
    fun a b => b.length ≤ a.length

variable [PyRuntime]

/-- A wording taken out of a text, ignoring case. -/
def redactContent (text content : String) : String :=
  String.ofList (replaceAll content.toList suppressed.toList 0 text.toList).1

/-- `redact_guarded_text`. -/
def redactGuardedText (text : String) (contents : List String) : String :=
  (guardedContents contents).foldl redactContent text

/-- `redact_guarded_value` of a text. -/
def redactGuardedString (text : String) (contents : List String) : String :=
  let guards := guardedContents contents
  if guards = [] then text else redactGuardedText text guards

variable {F : Type}

mutual

/-- `redact_guarded_value`; keys stay as they are. -/
def redactGuardedValue : Value F → List String → Value F
  | .str s,contents => .str (redactGuardedString s contents)
  | .arr items,contents =>
      let guards := guardedContents contents
      if guards = [] then .arr items else .arr (redactGuardedItems items guards)
  | .obj fields,contents =>
      let guards := guardedContents contents
      if guards = [] then .obj fields else .obj (redactGuardedFields fields guards)
  | value,_ => value

def redactGuardedItems : List (Value F) → List String → List (Value F)
  | [],_ => []
  | item :: items,guards => redactGuardedValue item guards :: redactGuardedItems items guards

def redactGuardedFields : List (String × Value F) → List String → List (String × Value F)
  | [],_ => []
  | (key,item) :: fields,guards =>
      (key,redactGuardedValue item guards) :: redactGuardedFields fields guards

end

/-- `redact_guarded_value` of a list. -/
def redactGuardedList (items : List (Value F)) (contents : List String) : List (Value F) :=
  let guards := guardedContents contents
  if guards = [] then items else redactGuardedItems items guards

omit [PyRuntime] in
theorem guardedContents_nil : guardedContents [] = [] := by
  have hwalk : SetOrder.walk [] = [] := List.Perm.eq_nil (SetOrder.walk_perm [])
  simp [guardedContents,hwalk]

omit [PyRuntime] in
theorem mem_guardedContents {values : List String} {content : String} :
    content ∈ guardedContents values ↔
      content ≠ "" ∧ ∃ value ∈ values, normalizeSpace value = content := by
  rw [guardedContents,List.mem_insertionSort,List.mem_filter,(SetOrder.walk_perm _).mem_iff,
    List.mem_dedup,List.mem_map]
  simp [and_comm]

omit [PyRuntime] in
/-- A guarded wording is its own. -/
theorem mem_guardedContents_self {values others : List String} {content : String}
    (h : content ∈ guardedContents values) (hmem : content ∈ others) :
    content ∈ guardedContents others := by
  obtain ⟨hne,value,_,rfl⟩ := mem_guardedContents.mp h
  exact mem_guardedContents.mpr ⟨hne,_,hmem,normalizeSpace_normalizeSpace value⟩

theorem redactGuardedText_nil {contents : List String} (text : String)
    (h : guardedContents contents = []) : redactGuardedText text contents = text := by
  rw [redactGuardedText,h]
  rfl

theorem redactGuardedString_eq (text : String) (contents : List String) :
    redactGuardedString text contents = redactGuardedText text (guardedContents contents) := by
  rw [redactGuardedString]
  split_ifs with h
  · rw [h,redactGuardedText_nil text guardedContents_nil]
  · rfl

/-- Without wordings a value stays as it is. -/
theorem redactGuardedValue_nil {contents : List String} (value : Value F)
    (h : guardedContents contents = []) : redactGuardedValue value contents = value := by
  cases value with
  | str s => rw [redactGuardedValue,redactGuardedString,if_pos h]
  | arr items => rw [redactGuardedValue,if_pos h]
  | obj fields => rw [redactGuardedValue,if_pos h]
  | _ => rfl

theorem redactGuardedItems_eq (items : List (Value F)) (guards : List String) :
    redactGuardedItems items guards = items.map (redactGuardedValue · guards) := by
  induction items with
  | nil => rfl
  | cons item items ih => rw [redactGuardedItems,ih,List.map_cons]

theorem redactGuardedFields_eq (fields : List (String × Value F)) (guards : List String) :
    redactGuardedFields fields guards = fields.map fun p => (p.1,redactGuardedValue p.2 guards) := by
  induction fields with
  | nil => rfl
  | cons field fields ih => rw [redactGuardedFields,ih,List.map_cons]

theorem redactGuardedList_eq (items : List (Value F)) (contents : List String) :
    redactGuardedList items contents =
      items.map (redactGuardedValue · (guardedContents contents)) := by
  rw [redactGuardedList]
  split_ifs with h
  · have hsame : ∀ item : Value F, redactGuardedValue item [] = item := fun item =>
      redactGuardedValue_nil item guardedContents_nil
    simp [h,hsame]
  · exact redactGuardedItems_eq items _

theorem redactGuardedValue_obj (fields : List (String × Value F)) (contents : List String) :
    redactGuardedValue (.obj fields) contents =
      .obj (fields.map fun p => (p.1,redactGuardedValue p.2 (guardedContents contents))) := by
  rw [redactGuardedValue]
  split_ifs with h
  · have hsame : ∀ item : Value F, redactGuardedValue item [] = item := fun item =>
      redactGuardedValue_nil item guardedContents_nil
    simp [h,hsame]
  · rw [redactGuardedFields_eq]

/-! A wording that is taken out leaves a bracket where it stood. -/

omit [SetOrder] in
theorem replaceAll_prefix (pattern marker start cs : List Char) (hstart : '[' ∉ start)
    (h : start <+: (replaceAll pattern ('[' :: marker) 0 cs).1) : start <+: cs := by
  induction cs generalizing start with
  | nil => exact h
  | cons c cs ih =>
    cases start with
    | nil => exact List.nil_prefix
    | cons d start =>
      have hd : d ≠ '[' := fun heq => hstart (heq ▸ List.mem_cons_self)
      rw [replaceAll] at h
      split_ifs at h
      · exact absurd (List.cons_prefix_cons.mp h).1 hd
      · obtain ⟨hhead,htail⟩ := List.cons_prefix_cons.mp h
        exact List.cons_prefix_cons.mpr
          ⟨hhead,ih start (fun hmem => hstart (List.mem_cons_of_mem d hmem)) htail⟩

omit [SetOrder] in
theorem replaceAll_same (pattern marker cs : List Char)
    (h : '[' ∉ (replaceAll pattern ('[' :: marker) 0 cs).1) :
    (replaceAll pattern ('[' :: marker) 0 cs).1 = cs := by
  induction cs with
  | nil => rfl
  | cons c cs ih =>
    rw [replaceAll] at h ⊢
    split_ifs at h ⊢
    · exact absurd List.mem_cons_self h
    · exact congrArg (c :: ·) (ih fun hmem => h (List.mem_cons_of_mem c hmem))

omit [SetOrder] in
theorem redactContent_prefix {start : List Char} {text content : String} (hstart : '[' ∉ start)
    (h : start <+: (redactContent text content).toList) : start <+: text.toList := by
  rw [redactContent,String.toList_ofList] at h
  exact replaceAll_prefix _ _ start _ hstart h

omit [SetOrder] in
theorem redactContent_same {text content : String} (h : '[' ∉ (redactContent text content).toList) :
    redactContent text content = text := by
  rw [redactContent,String.toList_ofList] at h
  have hsame := replaceAll_same _ _ _ h
  rw [redactContent]
  exact (congrArg String.ofList hsame).trans String.ofList_toList

omit [SetOrder] in
theorem foldl_redactContent_prefix {start : List Char} (contents : List String) (text : String)
    (hstart : '[' ∉ start) (h : start <+: (contents.foldl redactContent text).toList) :
    start <+: text.toList := by
  induction contents generalizing text with
  | nil => exact h
  | cons content contents ih => exact redactContent_prefix hstart (ih _ h)

omit [SetOrder] in
theorem foldl_redactContent_same (contents : List String) (text : String)
    (h : '[' ∉ (contents.foldl redactContent text).toList) :
    contents.foldl redactContent text = text := by
  induction contents generalizing text with
  | nil => rfl
  | cons content contents ih =>
    have hsame := ih (redactContent text content) h
    rw [List.foldl_cons] at h ⊢
    rw [hsame] at h ⊢
    exact redactContent_same h

/-- Redaction does not make a text start with what it did not start with. -/
theorem redactGuardedText_prefix {start : List Char} (contents : List String) (text : String)
    (hstart : '[' ∉ start) (h : start <+: (redactGuardedText text contents).toList) :
    start <+: text.toList :=
  foldl_redactContent_prefix _ text hstart h

/-- A redacted text without a bracket is the text. -/
theorem redactGuardedText_same (contents : List String) (text : String)
    (h : '[' ∉ (redactGuardedText text contents).toList) :
    redactGuardedText text contents = text :=
  foldl_redactContent_same _ text h

end

end Guards
end Atlas
