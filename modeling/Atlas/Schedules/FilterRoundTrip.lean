import Atlas.Schedules.WakeOnce
import Atlas.Providers.Envelope
import Mathlib.Data.List.DropRight
import Mathlib.Data.Finset.Dedup

/-! The text that an event filter is stored as reads back as the same filter. -/
namespace Atlas
namespace Schedules

open Actions
open Memory (strip)
open JsonText (Value FloatText)
open Providers (plainFloats)

section

variable {F : Type}

mutual

/-- A value as `json.dumps` takes it. -/
def valueOf : Json → Value F
  | .null => .null
  | .bool b => .bool b
  | .num n => .int n
  | .str s => .str s
  | .arr items => .arr (valuesOf items)
  | .obj fields => .obj (fieldsOf fields)

def valuesOf : List Json → List (Value F)
  | [] => []
  | item :: items => valueOf item :: valuesOf items

def fieldsOf : Dict → List (String × Value F)
  | [] => []
  | (key,value) :: fields => (key,valueOf value) :: fieldsOf fields

end

mutual

/-- A value that `json.loads` reads, where it has no float. -/
def jsonOf : Value F → Option Json
  | .null => some .null
  | .bool b => some (.bool b)
  | .int n => some (.num n)
  | .float _ => none
  | .constant _ => none
  | .str s => some (.str s)
  | .arr items => (jsonsOf items).map .arr
  | .obj fields => (dictOf fields).map .obj

def jsonsOf : List (Value F) → Option (List Json)
  | [] => some []
  | item :: items => do
      let item ← jsonOf item
      let items ← jsonsOf items
      return item :: items

def dictOf : List (String × Value F) → Option Dict
  | [] => some []
  | (key,value) :: fields => do
      let value ← jsonOf value
      let fields ← dictOf fields
      return (key,value) :: fields

end

mutual

theorem jsonOf_valueOf : ∀ v : Json, jsonOf (valueOf v : Value F) = some v
  | .null => rfl
  | .bool _ => rfl
  | .num _ => rfl
  | .str _ => rfl
  | .arr items => by simp [valueOf,jsonOf,jsonsOf_valuesOf items]
  | .obj fields => by simp [valueOf,jsonOf,dictOf_fieldsOf fields]

theorem jsonsOf_valuesOf : ∀ items : List Json, jsonsOf (valuesOf items : List (Value F)) = some items
  | [] => rfl
  | item :: items => by
      simp [valuesOf,jsonsOf,jsonOf_valueOf item,jsonsOf_valuesOf items]

theorem dictOf_fieldsOf : ∀ fields : Dict, dictOf (fieldsOf fields : List (String × Value F)) = some fields
  | [] => rfl
  | (key,value) :: fields => by
      simp [fieldsOf,dictOf,jsonOf_valueOf value,dictOf_fieldsOf fields]

end

theorem fieldsOf_keys (fields : Dict) :
    (fieldsOf fields : List (String × Value F)).map Prod.fst = fields.map Prod.fst := by
  induction fields with
  | nil => rfl
  | cons p fields ih =>
    rw [fieldsOf,List.map_cons,List.map_cons,ih]

theorem plain_texts (l : List String) : JsonText.PlainItems (valuesOf (l.map .str) : List (Value F)) := by
  induction l with
  | nil => trivial
  | cons s l ih => exact ⟨trivial,ih⟩

end

/-! The serialiser. -/

/-- `sorted(texts)` of a set. -/
def sortedTexts (texts : List String) : List String :=
  texts.dedup.insertionSort fun a b => a ≤ b

/-- The entries that `EventFilter.to_json` writes, in the order it adds them. -/
def EventFilter.payload (f : EventFilter) : Dict :=
  [("source",Json.arr ((sortedTexts f.sources).map Json.str)),
    ("severity",Json.arr ((sortedTexts f.severities).map Json.str))] ++
  (match f.kinds with
    | some kinds => [("kind",Json.arr ((sortedTexts kinds).map Json.str))]
    | none => []) ++
  (match f.threadPrefix with
    | some start => if start = "" then [] else [("thread_prefix",Json.str start)]
    | none => []) ++
  if f.includeModel then [("include_model",Json.bool true)] else []

/-- The entries of a dictionary in the order of their keys. -/
def sortKeys (d : Dict) : Dict := d.insertionSort fun p q => p.1 ≤ q.1

/-- `EventFilter.to_json`. -/
def EventFilter.toJson (F : Type) [FloatText F] (f : EventFilter) : String :=
  String.ofList (JsonText.encode ⟨true,true⟩ (valueOf (.obj (sortKeys f.payload)) : Value F))

theorem mem_sortedTexts {texts : List String} {s : String} : s ∈ sortedTexts texts ↔ s ∈ texts := by
  rw [sortedTexts,List.mem_insertionSort,List.mem_dedup]

theorem sortedTexts_eq_nil {texts : List String} : sortedTexts texts = [] ↔ texts = [] := by
  simp only [List.eq_nil_iff_forall_not_mem,mem_sortedTexts]

/-- Filters that are equal in Python, where their lists are sets. -/
structure EventFilter.Same (f g : EventFilter) : Prop where
  sources : f.sources.toFinset = g.sources.toFinset
  severities : f.severities.toFinset = g.severities.toFinset
  kinds : f.kinds.map List.toFinset = g.kinds.map List.toFinset
  threadPrefix : f.threadPrefix = g.threadPrefix
  includeModel : f.includeModel = g.includeModel

theorem contains_of_toFinset {l l' : List String} (h : l.toFinset = l'.toFinset) (s : String) :
    l.contains s = l'.contains s := by
  have hmem : s ∈ l ↔ s ∈ l' := by rw [← List.mem_toFinset,h,List.mem_toFinset]
  simp only [List.contains_eq_mem,hmem]

/-- Equal filters match the same events. -/
theorem EventFilter.Same.matches_eq [ScheduleRuntime] {f g : EventFilter} (h : f.Same g)
    (event : Dict) : f.matches event = g.matches event := by
  have hkinds : ∀ kind, (f.kinds.any fun kinds => !kinds.contains kind) =
      g.kinds.any fun kinds => !kinds.contains kind := by
    intro kind
    have hsame := h.kinds
    cases hf : f.kinds with
    | none =>
      cases hg : g.kinds with
      | none => rfl
      | some _ =>
        rw [hf,hg] at hsame
        cases hsame
    | some kinds =>
      cases hg : g.kinds with
      | none =>
        rw [hf,hg] at hsame
        cases hsame
      | some kinds' =>
        rw [hf,hg] at hsame
        simp only [Option.any_some,contains_of_toFinset (Option.some.inj hsame)]
  simp only [EventFilter.matches,contains_of_toFinset h.sources,contains_of_toFinset h.severities,
    hkinds,h.threadPrefix,h.includeModel]

/-! What the reader accepts. -/

/-- Texts without blanks at their ends, and none empty. -/
def Stripped (texts : List String) : Prop := ∀ s ∈ texts, s ≠ "" ∧ strip s = s

theorem strip_strip (s : String) : strip (strip s) = strip s := by
  have hdrop : ∀ l : List Char, (l.dropWhile isSpace).dropWhile isSpace = l.dropWhile isSpace :=
    fun l => List.dropWhile_idempotent isSpace l
  have htrim : ∀ l : List Char,
      ((l.dropWhile isSpace).rdropWhile isSpace).dropWhile isSpace =
        (l.dropWhile isSpace).rdropWhile isSpace := by
    intro l
    obtain ⟨rest,hrest⟩ := List.rdropWhile_prefix isSpace (l.dropWhile isSpace)
    cases htext : (l.dropWhile isSpace).rdropWhile isSpace with
    | nil => rfl
    | cons c cs =>
      have hl := hdrop l
      rw [← hrest,htext,List.cons_append] at hl
      by_cases hc : isSpace c = true
      · rw [List.dropWhile_cons_of_pos hc] at hl
        have hlength := congrArg List.length hl
        have hle := (List.dropWhile_sublist isSpace (l := cs ++ rest)).length_le
        rw [List.length_cons] at hlength
        omega
      · exact List.dropWhile_cons_of_neg hc
  have hs : strip s = String.ofList ((s.toList.dropWhile isSpace).rdropWhile isSpace) := rfl
  have hss : strip (strip s) =
      String.ofList (((strip s).toList.dropWhile isSpace).rdropWhile isSpace) := rfl
  rw [hss,hs,String.toList_ofList,htrim,List.rdropWhile_idempotent]

theorem stringList_ok {value : Json} {name : String} {texts : List String}
    (h : stringList value name = .ok texts) : texts ≠ [] ∧ Stripped texts := by
  unfold stringList at h
  extract_lets items read at h
  clear_value items
  split at h
  · cases h
  · next hitems =>
    simp only [not_or,not_not] at hitems
    obtain ⟨hne,hlength,hblank⟩ := hitems
    rw [← Except.ok.inj h]
    refine ⟨fun hnil => ?_,fun s hs => ⟨fun hempty => hblank (hempty ▸ hs),?_⟩⟩
    · rw [hnil] at hlength
      exact hne (List.length_eq_zero_iff.mp hlength.symm)
    · obtain ⟨item,_,hitem⟩ := List.mem_filterMap.mp hs
      cases item with
      | str t =>
        rw [← Option.some.inj hitem]
        exact strip_strip t
      | _ => cases hitem

theorem filterMap_texts {read : Json → Option String} {texts : List String}
    (h : ∀ s ∈ texts, read (.str s) = some s) : (texts.map .str).filterMap read = texts := by
  induction texts with
  | nil => rfl
  | cons s texts ih =>
    rw [List.map_cons,List.filterMap_cons_some (h s List.mem_cons_self),
      ih fun t ht => h t (List.mem_cons_of_mem _ ht)]

theorem stringList_texts {texts : List String} (hne : texts ≠ []) (h : Stripped texts)
    (name : String) : stringList (.arr (texts.map .str)) name = .ok texts := by
  simp only [stringList]
  rw [filterMap_texts fun s hs => congrArg some (h s hs).2,if_neg]
  rintro (hnil | hlength | hblank)
  · exact hne (List.map_eq_nil_iff.mp hnil)
  · exact hlength (List.length_map _).symm
  · exact (h "" hblank).1 rfl

theorem optionalList_ok {raw : Dict} {name : String} {named : Option (List String)}
    (h : optionalList raw name = .ok named) : ∀ texts ∈ named, texts ≠ [] ∧ Stripped texts := by
  simp only [optionalList] at h
  split at h
  · rw [← Except.ok.inj h]
    simp
  · next value hvalue =>
    cases htexts : stringList value name with
    | error r =>
      rw [htexts] at h
      cases h
    | ok texts =>
      rw [htexts] at h
      rw [← Except.ok.inj h]
      rintro _ ⟨⟩
      exact stringList_ok htexts

theorem threadPrefixOf_ok {raw : Dict} {start : Option String}
    (h : threadPrefixOf raw = .ok start) : ∀ s ∈ start, s ≠ "" ∧ strip s = s := by
  simp only [threadPrefixOf] at h
  split at h
  · rw [← Except.ok.inj h]
    simp
  · rw [← Except.ok.inj h]
    simp
  · next s hs =>
    split at h
    · cases h
    · next hne =>
      rw [← Except.ok.inj h]
      rintro _ ⟨⟩
      exact ⟨hne,strip_strip s⟩
  · cases h

/-- What the reader makes sure of. -/
structure EventFilter.Valid (f : EventFilter) : Prop where
  sources : f.sources ≠ [] ∧ Stripped f.sources
  severities : f.severities ≠ [] ∧ Stripped f.severities
  known : ∀ s ∈ f.severities, s ∈ Schedules.severities
  kinds : ∀ kinds ∈ f.kinds, kinds ≠ [] ∧ Stripped kinds
  threadPrefix : ∀ start ∈ f.threadPrefix, start ≠ "" ∧ strip start = start
  model : "model" ∈ f.sources → f.includeModel = true

theorem stripped_defaults : defaultSeverities ≠ [] ∧ Stripped defaultSeverities := by
  refine ⟨by decide,?_⟩
  simp only [Stripped]
  decide

/-- Only objects of the known keys are accepted, and what they are read as is valid. -/
theorem parseEventFilter_ok [ScheduleRuntime] {value : String} {f : EventFilter}
    (h : parseEventFilter value = .ok f) :
    (∃ raw, ScheduleRuntime.loads value = some (.obj raw) ∧
      ∀ key ∈ raw.map Prod.fst, key ∈ filterKeys) ∧ f.Valid := by
  simp only [parseEventFilter] at h
  split at h
  · cases h
  · next raw hraw =>
    obtain ⟨_,hkeys,h⟩ := accepted h
    obtain ⟨sources,hsources,h⟩ := accepted h
    split at h
    · obtain ⟨includeModel,_,h⟩ := accepted h
      obtain ⟨_,hmodel,h⟩ := accepted h
      obtain ⟨named,hnamed,h⟩ := accepted h
      obtain ⟨_,hknown,h⟩ := accepted h
      obtain ⟨kinds,hkinds,h⟩ := accepted h
      obtain ⟨start,hstart,h⟩ := accepted h
      rw [← Except.ok.inj h]
      have hunknown := require_ok hkeys
      refine ⟨⟨raw,hraw,fun key hkey => ?_⟩,stringList_ok hsources,?_,require_ok hknown,
        optionalList_ok hkinds,threadPrefixOf_ok hstart,?_⟩
      · have hnot := List.filter_eq_nil_iff.mp hunknown key hkey
        simpa using hnot
      · cases named with
        | none => exact stripped_defaults
        | some texts => exact optionalList_ok hnamed texts rfl
      · intro hin
        rcases require_ok hmodel with hout | hyes
        · exact absurd hin hout
        · exact hyes
    · obtain ⟨_,hnone,_⟩ := accepted h
      cases hnone
  · cases h

/-! The text read again. -/

/-- The entries of a filter that has no empty prefix, by their keys. -/
def EventFilter.entries (f : EventFilter) : Dict :=
  (if f.includeModel then [("include_model",Json.bool true)] else []) ++
  (f.kinds.elim [] fun kinds => [("kind",Json.arr ((sortedTexts kinds).map Json.str))]) ++
  [("severity",Json.arr ((sortedTexts f.severities).map Json.str)),
    ("source",Json.arr ((sortedTexts f.sources).map Json.str))] ++
  f.threadPrefix.elim [] fun start => [("thread_prefix",Json.str start)]

theorem EventFilter.Valid.payload_sorted {f : EventFilter} (h : f.Valid) :
    sortKeys f.payload = f.entries := by
  obtain ⟨sources,severities,kinds,start,model⟩ := f
  have hstart := h.threadPrefix
  cases kinds with
  | none =>
    cases start with
    | none => cases model <;> simp [sortKeys,payload,entries]
    | some start =>
      have hne := (hstart start rfl).1
      cases model <;> simp [sortKeys,payload,entries,hne]
  | some kinds =>
    cases start with
    | none => cases model <;> simp [sortKeys,payload,entries]
    | some start =>
      have hne := (hstart start rfl).1
      cases model <;> simp [sortKeys,payload,entries,hne]

section

variable (f : EventFilter)

theorem EventFilter.entries_keys : ∀ key ∈ f.entries.map Prod.fst, key ∈ filterKeys := by
  obtain ⟨sources,severities,kinds,start,model⟩ := f
  cases kinds <;> cases start <;> cases model <;> simp [entries,filterKeys]

theorem EventFilter.get_source :
    Dict.get f.entries "source" = some (.arr ((sortedTexts f.sources).map .str)) := by
  obtain ⟨sources,severities,kinds,start,model⟩ := f
  cases kinds <;> cases model <;> rfl

theorem EventFilter.get_severity :
    Dict.get f.entries "severity" = some (.arr ((sortedTexts f.severities).map .str)) := by
  obtain ⟨sources,severities,kinds,start,model⟩ := f
  cases kinds <;> cases model <;> rfl

theorem EventFilter.get_kind : Dict.get f.entries "kind" =
    f.kinds.map fun kinds => .arr ((sortedTexts kinds).map .str) := by
  obtain ⟨sources,severities,kinds,start,model⟩ := f
  cases kinds <;> cases start <;> cases model <;> rfl

theorem EventFilter.get_threadPrefix :
    Dict.get f.entries "thread_prefix" = f.threadPrefix.map .str := by
  obtain ⟨sources,severities,kinds,start,model⟩ := f
  cases kinds <;> cases start <;> cases model <;> rfl

theorem EventFilter.get_includeModel : (Dict.get f.entries "include_model").getD (.bool false) =
    .bool f.includeModel := by
  obtain ⟨sources,severities,kinds,start,model⟩ := f
  cases kinds <;> cases start <;> cases model <;> rfl

end

theorem EventFilter.entries_plain {F : Type} (f : EventFilter) :
    (valueOf (.obj f.entries) : Value F).Plain := by
  obtain ⟨sources,severities,kinds,start,model⟩ := f
  refine ⟨?_,?_⟩
  · rw [fieldsOf_keys]
    cases kinds <;> cases start <;> cases model <;> simp [entries]
  · cases kinds <;> cases start <;> cases model <;>
      simp [entries,fieldsOf,valueOf,JsonText.PlainFields,JsonText.Value.Plain,plain_texts]

/-- What a filter is read back as: its lists are sorted, and without duplicates. -/
def EventFilter.readBack (f : EventFilter) : EventFilter where
  sources := sortedTexts f.sources
  severities := sortedTexts f.severities
  kinds := f.kinds.map sortedTexts
  threadPrefix := f.threadPrefix
  includeModel := f.includeModel

theorem EventFilter.same_readBack (f : EventFilter) : f.Same f.readBack where
  sources := by
    ext s
    simp [readBack,mem_sortedTexts]
  severities := by
    ext s
    simp [readBack,mem_sortedTexts]
  kinds := by
    have hsets : List.toFinset ∘ sortedTexts = (List.toFinset : List String → Finset String) := by
      funext texts
      ext s
      simp [mem_sortedTexts]
    rw [readBack,Option.map_map,hsets]
  threadPrefix := rfl
  includeModel := rfl

theorem stringList_sorted {texts : List String} (h : texts ≠ [] ∧ Stripped texts) (name : String) :
    stringList (.arr ((sortedTexts texts).map .str)) name = .ok (sortedTexts texts) :=
  stringList_texts (fun hnil => h.1 (sortedTexts_eq_nil.mp hnil))
    (fun s hs => h.2 s (mem_sortedTexts.mp hs)) name

section

variable {F : Type} [FloatText F] [ScheduleRuntime]

/-- `json.loads` of a text that has no float. -/
def Loads (F : Type) [FloatText F] : Prop :=
  ∀ (s : String) (v : Json), JsonText.parse s.toList = some (valueOf v : Value F) →
    ScheduleRuntime.loads s = some v

theorem EventFilter.Valid.loads_toJson {f : EventFilter} (h : f.Valid) (hloads : Loads F) :
    ScheduleRuntime.loads (f.toJson F) = some (.obj f.entries) := by
  apply hloads
  rw [toJson,String.toList_ofList,h.payload_sorted]
  exact JsonText.parse_encode _ f.entries_plain

theorem EventFilter.Valid.parse_toJson {f : EventFilter} (h : f.Valid) (hloads : Loads F) :
    parseEventFilter (f.toJson F) = .ok f.readBack := by
  have hunknown : (f.entries.map Prod.fst).filter (fun key => !filterKeys.contains key) = [] := by
    simpa [List.filter_eq_nil_iff] using f.entries_keys
  have hmodel : "model" ∉ sortedTexts f.sources ∨ f.includeModel = true := by
    by_cases hin : "model" ∈ f.sources
    · exact .inr (h.model hin)
    · exact .inl fun hs => hin (mem_sortedTexts.mp hs)
  have hseverity : optionalList f.entries "severity" = .ok (some (sortedTexts f.severities)) := by
    simp only [optionalList,f.get_severity,stringList_sorted h.severities]
    rfl
  have hknown : ∀ s ∈ sortedTexts f.severities, s ∈ Schedules.severities :=
    fun s hs => h.known s (mem_sortedTexts.mp hs)
  have hkind : optionalList f.entries "kind" = .ok (f.kinds.map sortedTexts) := by
    simp only [optionalList,f.get_kind]
    cases hkinds : f.kinds with
    | none => rfl
    | some kinds =>
      simp only [Option.map_some,stringList_sorted (h.kinds kinds hkinds)]
      rfl
  have hstart : threadPrefixOf f.entries = .ok f.threadPrefix := by
    simp only [threadPrefixOf,f.get_threadPrefix]
    cases hthread : f.threadPrefix with
    | none => rfl
    | some start =>
      have hs := h.threadPrefix start hthread
      simp only [Option.map_some,hs.2,if_neg hs.1]
  simp only [parseEventFilter,h.loads_toJson hloads,hunknown,f.get_source,Option.getD_some,
    stringList_sorted h.sources,f.get_includeModel,hseverity,hkind,hstart,require,if_true,bind,
    Except.bind,if_pos hmodel,if_pos hknown]
  rfl

/-- Where an event filter is accepted, it is an object of the known keys, and the text that it is
stored as reads back as a filter that is equal to it and so matches what it matches. -/
theorem filter_round_trip (hloads : Loads F) {value : String} {f : EventFilter}
    (h : parseEventFilter value = .ok f) :
    (∃ raw, ScheduleRuntime.loads value = some (.obj raw) ∧
      ∀ key ∈ raw.map Prod.fst, key ∈ filterKeys) ∧
    ∃ g, parseEventFilter (f.toJson F) = .ok g ∧ f.Same g ∧
      ∀ event, g.matches event = f.matches event := by
  obtain ⟨hraw,hvalid⟩ := parseEventFilter_ok h
  have hsame := f.same_readBack
  exact ⟨hraw,f.readBack,hvalid.parse_toJson hloads,hsame,fun event => (hsame.matches_eq event).symm⟩

end

/-- A runtime that reads JSON texts. -/
@[reducible] def readingSchedules : ScheduleRuntime :=
  letI := plainFloats
  { plainSchedules with
    loads := fun s => (JsonText.parse (F := Unit) s.toList).bind jsonOf }

theorem loads_reading : letI := plainFloats; letI := readingSchedules; Loads Unit := by
  let := plainFloats
  let := readingSchedules
  intro s v h
  have hread : ScheduleRuntime.loads s = (some (valueOf v : Value Unit)).bind jsonOf :=
    congrArg (fun read => read.bind jsonOf) h
  rw [hread,Option.bind_some,jsonOf_valueOf]

/-- A filter that names a source twice, once with blanks. -/
def spacedUnits : String := "\x7b\"source\": [\" runtime.units \", \"runtime.units\"]\x7d"

theorem filter_round_trip_units : letI := plainFloats; letI := readingSchedules
    ∃ f g, parseEventFilter spacedUnits = .ok f ∧ parseEventFilter (f.toJson Unit) = .ok g ∧
      f.Same g := by
  let := plainFloats
  let := readingSchedules
  have hread : (parseEventFilter spacedUnits).toOption.isSome = true := by decide +kernel
  cases hf : parseEventFilter spacedUnits with
  | error r =>
    rw [hf] at hread
    cases hread
  | ok f =>
    obtain ⟨_,g,hg,hsame,_⟩ := filter_round_trip loads_reading hf
    exact ⟨f,g,rfl,hg,hsame⟩

end Schedules
end Atlas
