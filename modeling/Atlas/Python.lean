import Mathlib.Data.List.Sort

/-! Python text and JSON values as the modelled functions use them. Case folding,
digests and serialization are parameters; results hold for every choice of them. -/
namespace Atlas

/-- A value of a JSONB column. -/
inductive Json where
  | null
  | bool (b : Bool)
  | num (n : ℤ)
  | str (s : String)
  | arr (items : List Json)
  | obj (fields : List (String × Json))
  deriving Repr

abbrev Dict := List (String × Json)

/-- The parts of the Python runtime that the theorems leave open. -/
class PyRuntime where
  casefold : String → String
  sha256 : String → String
  sha256_length : ∀ s, (sha256 s).length = 64
  sameLetter : Char → Char → Bool
  dumps : (ensureAscii : Bool) → Json → String
  isoformat : ℕ → String
  validationText : String → String

theorem sha256_ne_empty [PyRuntime] (s : String) : PyRuntime.sha256 s ≠ "" := by
  intro h
  have hl := PyRuntime.sha256_length s
  rw [h] at hl
  exact absurd hl (by decide)

def Json.plainText : Json → String
  | .str s => s
  | .num n => toString n
  | .obj fields => ",".intercalate (fields.map fun p =>
      match p.2 with
      | .str s => s
      | _ => "")
  | _ => ""

/-- A runtime to evaluate the model with: lower-casing as case folding and padded text as
its own digest. -/
@[reducible] def plainRuntime : PyRuntime where
  casefold s := String.ofList (s.toList.map Char.toLower)
  sha256 s := String.ofList (s.toList.take 64 ++ List.replicate (64 - s.length) '.')
  sha256_length s := by
    simp only [String.length_ofList,List.length_append,List.length_take,List.length_replicate,
      String.length_toList]
    omega
  sameLetter a b := a.toLower == b.toLower
  dumps _ value := value.plainText
  isoformat n := toString n
  validationText field := field

theorem toNat_lt_of_ascii {c : Char} (h : ∀ b ∈ String.utf8EncodeChar c, b < 128) :
    c.val.toNat < 128 := by
  by_contra hc
  have hnot : ¬c.val.toNat ≤ 127 := by omega
  unfold String.utf8EncodeChar at h
  simp only [hnot,if_false] at h
  split_ifs at h <;>
    (have hfirst := h _ List.mem_cons_self
     simp only [UInt8.lt_iff_toNat_lt,UInt8.toNat_ofNat',UInt8.reduceToNat] at hfirst
     omega)

/-- The bytes of an ASCII text are its characters. -/
theorem map_bytes_of_ascii {cs : List Char} (h : ∀ b ∈ cs.flatMap String.utf8EncodeChar, b < 128) :
    (cs.flatMap String.utf8EncodeChar).map (fun b => Char.ofNat b.toNat) = cs := by
  induction cs with
  | nil => rfl
  | cons c cs ih =>
    simp only [List.flatMap_cons,List.mem_append] at h
    have hc := toNat_lt_of_ascii fun b hb => h b (.inl hb)
    have hone : String.utf8EncodeChar c = [UInt8.ofNat c.val.toNat] := by
      unfold String.utf8EncodeChar
      exact if_pos (by omega)
    have hsize : c.val.toNat < UInt8.size := hc.trans (by decide)
    rw [List.flatMap_cons,List.map_append,ih fun b hb => h b (.inr hb),hone,List.map_singleton,
      UInt8.toNat_ofNat_of_lt' hsize]
    simp

/-- The characters of a text, read off its bytes where they are ASCII. -/
def bytewise (s : String) : List Char :=
  let bytes := s.toByteArray.data.toList
  if bytes.all (· < 128) then bytes.map fun b => Char.ofNat b.toNat else s.toList

theorem bytewise_eq (s : String) : bytewise s = s.toList := by
  have hbytes : s.toByteArray.data.toList = s.toList.flatMap String.utf8EncodeChar := by
    rw [← String.utf8Encode_toList,List.utf8Encode,List.toList_data_toByteArray]
  unfold bytewise
  dsimp only
  split
  · next h =>
    rw [hbytes] at h ⊢
    exact map_bytes_of_ascii fun b hb => of_decide_eq_true (List.all_eq_true.mp h b hb)
  · rfl

/-- The runtime `plainRuntime`, with texts decoded in one pass: runs on it are evaluated faster. -/
@[reducible] def bytewiseRuntime : PyRuntime where
  casefold s := String.ofList ((bytewise s).map Char.toLower)
  sha256 s := String.ofList ((bytewise s).take 64 ++ List.replicate (64 - (bytewise s).length) '.')
  sha256_length s := by
    simp only [bytewise_eq,String.length_toList]
    exact plainRuntime.sha256_length s
  sameLetter a b := a.toLower == b.toLower
  dumps _ value := value.plainText
  isoformat n := toString n
  validationText field := field

theorem plainRuntime_eq : plainRuntime = bytewiseRuntime := by
  simp only [plainRuntime,bytewiseRuntime,bytewise_eq,String.length_toList]

/-- The code points for which `str.isspace` holds. -/
def isSpace (c : Char) : Bool :=
  let n := c.toNat
  (9 ≤ n && n ≤ 13) || (28 ≤ n && n ≤ 32) || n == 133 || n == 160 || n == 5760 ||
    (8192 ≤ n && n ≤ 8202) || n == 8232 || n == 8233 || n == 8239 || n == 8287 || n == 12288

/-- `str.split()` with the word read so far. -/
def splitWords : List Char → List Char → List (List Char)
  | word, [] => if word.isEmpty then [] else [word]
  | word, c :: cs =>
      if isSpace c then
        if word.isEmpty then splitWords [] cs else word :: splitWords [] cs
      else splitWords (word ++ [c]) cs

def words (s : String) : List String := (splitWords [] s.toList).map String.ofList

/-- `" ".join(value.split())`. -/
def normalizeSpace (s : String) : String := " ".intercalate (words s)

/-- A word of `str.split()`. -/
def IsWord (w : List Char) : Prop := w ≠ [] ∧ ∀ c ∈ w, isSpace c = false

theorem splitWords_words (word cs : List Char) (h : ∀ c ∈ word, isSpace c = false) :
    ∀ w ∈ splitWords word cs, IsWord w := by
  induction cs generalizing word with
  | nil =>
    intro w hw
    cases word with
    | nil => simp [splitWords] at hw
    | cons a word =>
      obtain rfl : w = a :: word := by simpa [splitWords] using hw
      exact ⟨List.cons_ne_nil _ _,h⟩
  | cons c cs ih =>
    intro w hw
    unfold splitWords at hw
    split at hw
    · split at hw
      · exact ih [] (by simp) w hw
      · next hne =>
        rcases List.mem_cons.mp hw with rfl | hw
        · exact ⟨by simpa using hne,h⟩
        · exact ih [] (by simp) w hw
    · next hc =>
      refine ih (word ++ [c]) (fun d hd => ?_) w hw
      rcases List.mem_append.mp hd with hd | hd
      · exact h d hd
      · rw [List.mem_singleton.mp hd]
        simpa using hc

/-- Characters that are no spaces go to the word read so far. -/
theorem splitWords_append (word w cs : List Char) (h : ∀ c ∈ w, isSpace c = false) :
    splitWords word (w ++ cs) = splitWords (word ++ w) cs := by
  induction w generalizing word with
  | nil => simp
  | cons c w ih =>
    rw [List.cons_append,splitWords,if_neg (by simp [h c]),
      ih _ fun d hd => h d (List.mem_cons_of_mem _ hd),List.append_assoc,List.singleton_append]

theorem splitWords_join (ws : List (List Char)) (h : ∀ w ∈ ws, IsWord w) :
    splitWords [] ([' '].intercalate ws) = ws := by
  induction ws with
  | nil => rfl
  | cons w ws ih =>
    have hw := h w List.mem_cons_self
    cases ws with
    | nil =>
      have := splitWords_append [] w [] hw.2
      simp only [List.append_nil,List.nil_append] at this
      rw [List.intercalate_singleton,this,splitWords,if_neg (by simpa using hw.1)]
    | cons v ws =>
      have hrest := ih fun x hx => h x (List.mem_cons_of_mem _ hx)
      rw [List.intercalate_cons_cons,List.append_assoc,splitWords_append _ _ _ hw.2]
      rw [List.nil_append,List.singleton_append,splitWords,if_pos (by decide),
        if_neg (by simpa using hw.1),hrest]

@[simp] theorem normalizeSpace_normalizeSpace (s : String) :
    normalizeSpace (normalizeSpace s) = normalizeSpace s := by
  have hws : ∀ w ∈ splitWords [] s.toList, IsWord w := splitWords_words [] _ (by simp)
  have h : words (normalizeSpace s) = words s := by
    simp only [words,normalizeSpace,String.toList_intercalate,List.map_map]
    have : (splitWords [] s.toList).map (String.toList ∘ String.ofList) = splitWords [] s.toList := by
      simp [Function.comp_def]
    rw [this,show " ".toList = [' '] from rfl,splitWords_join _ hws]
  rw [normalizeSpace,h]
  rfl
/-- `value[:limit]`. -/
def clipText (limit : ℕ) (s : String) : String := String.ofList (s.toList.take limit)

/-- `str(value or "")`. -/
def orEmpty (value : Option String) : String := value.getD ""

/-- `value or None` for a text that may be empty. -/
def orNone (s : String) : Option String := if s.isEmpty then none else some s

/-- `str(a or b or … or "")`. -/
def firstText : List (Option String) → String
  | [] => ""
  | none :: rest => firstText rest
  | some s :: rest => if s.isEmpty then firstText rest else s

/-- The exceptions a modelled function raises. -/
inductive FailureKind where
  | valueError
  | lookupError
  | runtimeError
  | osError
  | integrityError
  | idempotencyConflict
  | candidateSnapshotError
  | memoryMutationError
  | validationError
  deriving Repr, DecidableEq

def FailureKind.name : FailureKind → String
  | .valueError => "ValueError"
  | .lookupError => "LookupError"
  | .runtimeError => "RuntimeError"
  | .osError => "OSError"
  | .integrityError => "IntegrityError"
  | .idempotencyConflict => "IdempotencyConflict"
  | .candidateSnapshotError => "CandidateSnapshotError"
  | .memoryMutationError => "MemoryMutationError"
  | .validationError => "ValidationError"

structure Failure where
  kind : FailureKind
  message : String
  deriving Repr, DecidableEq

def valueError (message : String) : Failure := ⟨.valueError,message⟩

def lookupError (message : String) : Failure := ⟨.lookupError,message⟩

/-- `f"{type(exc).__name__}: {exc}"`. -/
def Failure.text (e : Failure) : String := e.kind.name ++ ": " ++ e.message

section

variable {α β : Type}

theorem bind_ok {x : Except Failure α} {f : α → Except Failure β} {b : β} (h : x >>= f = .ok b) :
    ∃ a, x = .ok a ∧ f a = .ok b := by
  cases x with
  | error e => cases h
  | ok a => exact ⟨a,rfl,h⟩

theorem map_ok {x : Except Failure α} {f : α → β} {b : β} (h : x.map f = .ok b) :
    ∃ a, x = .ok a ∧ f a = b := by
  cases x with
  | error e => cases h
  | ok a => exact ⟨a,rfl,Except.ok.inj h⟩

end

/-- Whether a text starts with the pattern, ignoring case. -/
def startsWith [PyRuntime] : List Char → List Char → Bool
  | [], _ => true
  | _ :: _, [] => false
  | p :: ps, c :: cs => PyRuntime.sameLetter p c && startsWith ps cs

/-- Leftmost non-overlapping replacement; the counter skips a match already replaced. -/
def replaceAll [PyRuntime] (pattern marker : List Char) : ℕ → List Char → List Char × Bool
  | _, [] => ([],false)
  | skip + 1, _ :: cs => replaceAll pattern marker skip cs
  | 0, c :: cs =>
      if startsWith pattern (c :: cs) then
        let rest := replaceAll pattern marker (pattern.length - 1) cs
        (marker ++ rest.1,true)
      else
        let rest := replaceAll pattern marker 0 cs
        (c :: rest.1,rest.2)

def deletionMarker : String := "[Content deleted by owner]"

def redactString [PyRuntime] (value content : String) : String × Bool :=
  let r := replaceAll content.toList deletionMarker.toList 0 value.toList
  (String.ofList r.1,r.2)

mutual

def redactValue [PyRuntime] (content : String) : Json → Json × Bool
  | .str s => let r := redactString s content; (.str r.1,r.2)
  | .arr items => let r := redactItems content items; (.arr r.1,r.2)
  | .obj fields => let r := redactFields content fields; (.obj r.1,r.2)
  | value => (value,false)

def redactItems [PyRuntime] (content : String) : List Json → List Json × Bool
  | [] => ([],false)
  | item :: items =>
      let r := redactValue content item
      let rest := redactItems content items
      (r.1 :: rest.1,r.2 || rest.2)

def redactFields [PyRuntime] (content : String) : List (String × Json) →
    List (String × Json) × Bool
  | [] => ([],false)
  | (key,item) :: fields =>
      let r := redactValue content item
      let rest := redactFields content fields
      ((key,r.1) :: rest.1,r.2 || rest.2)

end

def Dict.get (d : Dict) (key : String) : Option Json := (d.find? fun p => p.1 == key).map (·.2)

/-- The text stored under a key, if the value is a string. -/
def Json.textAt (j : Json) (key : String) : Option String :=
  match j with
  | .obj fields =>
      match Dict.get fields key with
      | some (.str s) => some s
      | _ => none
  | _ => none

end Atlas
