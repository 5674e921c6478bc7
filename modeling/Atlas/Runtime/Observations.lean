import Atlas.Lib.Base64
import Atlas.Lib.JsonText
import Mathlib.Data.List.Sort

/-! The evidence store: an observation is frozen, its payloads become artifacts, and the exact value
is read back in pages or acquired as a resource. -/
namespace Atlas
namespace Observations

open JsonText (FloatText Value)

/-- The parts of the Python runtime that the store leaves open. -/
class StoreRuntime (F : Type) extends FloatText F where
  sha256 : ByteArray → String
  /-- `str` of the identifier that is drawn next after so many. -/
  uuid : ℕ → String
  readUuid : String → Option ℕ
  readUuid_uuid : ∀ n, readUuid (uuid n) = some n
  uuid_plain : ∀ n, Char.ofNat 0 ∉ (uuid n).toList
  sha256_plain : ∀ data, Char.ofNat 0 ∉ (sha256 data).toList
  str : Value F → String
  isZero : F → Bool
  /-- The order in which a JSONB column keeps the keys of an object. -/
  keyBefore : String → String → Bool
  /-- What a JSONB column gives back for a float. -/
  numeric : F → ℤ ⊕ F
  /-- `int(text)`. -/
  readInt : String → Option ℤ

abbrev Fields (F : Type) := List (String × Value F)

/-- What a call raises. -/
inductive Refusal where
  | valueError (message : String)
  | validationError
  | dataError
  | typeError
  | attributeError
  | keyError
  | noResultFound
  deriving Repr, DecidableEq

section

variable {F : Type}

def hasNul (s : String) : Bool := s.toList.contains (Char.ofNat 0)

mutual

/-- What a JSONB column takes. -/
def storable : Value F → Bool
  | .str s => !hasNul s
  | .constant _ => false
  | .arr items => storableItems items
  | .obj fields => storableFields fields
  | _ => true

def storableItems : List (Value F) → Bool
  | [] => true
  | v :: vs => storable v && storableItems vs

def storableFields : Fields F → Bool
  | [] => true
  | (key,v) :: fields => !hasNul key && storable v && storableFields fields

end

/-- `d.update(new)`. -/
def update (d new : Fields F) : Fields F := new.foldl JsonText.putPair d

structure Artifact (F : Type) where
  data : ByteArray
  sha256 : String
  sizeBytes : ℕ
  mediaType : String
  filename : Option String
  source : String
  provenance : Fields F

structure Turn (F : Type) where
  transcriptId : ℕ
  sequence : ℕ
  actor : String
  blocks : List (Value F)

/-- The artifacts and turns in the order of their identifiers, and the last number that each
transcript gave to a turn. -/
structure Store (F : Type) where
  artifacts : List (Artifact F) := []
  transcripts : List ℕ := []
  turns : List (Turn F) := []

variable [StoreRuntime F]

mutual

/-- What a JSONB column gives back. -/
def column : Value F → Value F
  | .float f => match StoreRuntime.numeric f with
      | .inl n => .int n
      | .inr g => .float g
  | .arr items => .arr (columnItems items)
  | .obj fields => .obj (columnFields fields)
  | v => v

def columnItems : List (Value F) → List (Value F)
  | [] => []
  | v :: vs => column v :: columnItems vs

def columnFields : Fields F → Fields F
  | [] => []
  | (key,v) :: fields =>
      (columnFields fields).orderedInsert (fun p q => StoreRuntime.keyBefore F p.1 q.1 = true)
        (key,column v)

end

/-- The truth of a value. -/
def truthy : Value F → Bool
  | .null => false
  | .bool b => b
  | .int n => n != 0
  | .float f => !StoreRuntime.isZero f
  | .constant _ => true
  | .str s => s != ""
  | .arr items => !items.isEmpty
  | .obj fields => !fields.isEmpty

/-- `str(value)`. -/
def text : Value F → String
  | .str s => s
  | v => StoreRuntime.str v

/-- `str(value or default)`. -/
def textOrElse (v : Option (Value F)) (default : String) : String :=
  match v with
  | some v => if truthy v then text v else default
  | none => default

/-- The reference that a frozen value holds. -/
def reference (id : ℕ) (a : Artifact F) : Fields F :=
  [("artifact_id",.str (StoreRuntime.uuid F id)),("snapshot_sha256",.str a.sha256),
    ("snapshot_size_bytes",.int a.sizeBytes)]

/-- The file name of an artifact, which is a text where there is one. -/
def fileName : Option (Value F) → Option (Option String)
  | none => some none
  | some .null => some none
  | some (.str s) => some (some s)
  | _ => none

/-- `_blob`. -/
def blob (data : ByteArray) (mediaType : String) (name : Option (Value F)) (provenance : Fields F)
    (s : Store F) : Except Refusal (Fields F × Store F) :=
  match fileName name with
  | none => .error .validationError
  | some filename =>
      let source := textOrElse (provenance.lookup "source") "runtime"
      if hasNul mediaType || filename.any hasNul || hasNul source || !storableFields provenance ||
          decide (255 < mediaType.length) || decide (128 < source.length) then .error .dataError
      else
        let a : Artifact F := {
          data := data
          sha256 := StoreRuntime.sha256 F data
          sizeBytes := data.size
          mediaType := mediaType
          filename := filename
          source := source
          provenance := provenance}
        .ok (reference s.artifacts.length a,{s with artifacts := s.artifacts ++ [a]})

/-- The artifact that a payload says it is. -/
def existing (fields : Fields F) (s : Store F) : Except Refusal (Option (ℕ × Artifact F)) :=
  match fields.lookup "artifact_id" with
  | some (.str id) => .ok ((StoreRuntime.readUuid F id).bind fun n => (s.artifacts[n]?).map (n,·))
  | some v => if truthy v then .error .attributeError else .ok none
  | none => .ok none

/-- What `freeze` makes of `data_base64`. -/
def freezePayload (provenance fields result : Fields F) (payload : Value F) (s : Store F) :
    Except Refusal (Fields F × Store F) :=
  match payload with
  | .str coded =>
      match Base64.decode coded.toList with
      | none => .error (.valueError "Incorrect padding")
      | some bytes => do
          let data : ByteArray := ⟨bytes.toArray⟩
          let found ← existing fields s
          match found.filter fun a => StoreRuntime.sha256 F data == a.2.sha256 with
          | some (id,a) => return (update result (reference id a),s)
          | none =>
              let (r,s) ← blob data
                (textOrElse (fields.lookup "media_type") "application/octet-stream")
                (fields.lookup "name") (update provenance
                  [("resource",.obj (result.filter fun f => f.1 ≠ "artifact_id"))]) s
              return (update result r,s)
  | _ => .error .typeError

/-- The text with its NUL characters replaced, as far as it is shown. -/
def preview (t : String) : String :=
  String.ofList ((t.toList.map fun c => if c = Char.ofNat 0 then Char.ofNat 65533 else c).take 2000)

/-- What `freeze` makes of a text with a NUL character. -/
def frozenText (r : Fields F) (t : String) : Value F :=
  .obj [("text_artifact",.obj r),("encoding",.str "utf-8"),("contains_nul",.bool true),
    ("preview",.str (preview t))]

mutual

def freeze (provenance : Fields F) : Value F → Store F → Except Refusal (Value F × Store F)
  | .str t, s =>
      if hasNul t then do
        let (r,s) ← blob t.toUTF8 "application/octet-stream" (some (.str "nul-containing-text.bin"))
          (update provenance [("encoding",.str "utf-8"),("reason",.str "nul_in_text_payload")]) s
        return (frozenText r t,s)
      else .ok (.str t,s)
  | .arr items, s => do
      let (items,s) ← freezeItems provenance items s
      return (.arr items,s)
  | .obj fields, s => do
      let (result,s) ← freezeFields provenance fields s
      match fields.lookup "data_base64" with
      | none => return (.obj result,s)
      | some payload =>
          let (result,s) ← freezePayload provenance fields result payload s
          return (.obj result,s)
  | v, s => .ok (v,s)

def freezeItems (provenance : Fields F) : List (Value F) → Store F →
    Except Refusal (List (Value F) × Store F)
  | [], s => .ok ([],s)
  | v :: vs, s => do
      let (w,s) ← freeze provenance v s
      let (ws,s) ← freezeItems provenance vs s
      return (w :: ws,s)

def freezeFields (provenance : Fields F) : Fields F → Store F → Except Refusal (Fields F × Store F)
  | [], s => .ok ([],s)
  | (key,v) :: fields, s =>
      if key = "data_base64" then freezeFields provenance fields s
      else do
        let (w,s) ← freeze provenance v s
        let (rest,s) ← freezeFields provenance fields s
        return ((key,w) :: rest,s)

end

/-- `json.dumps(value, ensure_ascii=False, separators=(',', ':'))`. -/
def dumps (v : Value F) : String := String.ofList (JsonText.encode ⟨false,false⟩ v)

def loads (data : ByteArray) : Except Refusal (Value F) :=
  match (String.fromUTF8? data).bind fun text => JsonText.parse text.toList with
  | some v => .ok v
  | none => .error (.valueError "Expecting value")

structure Request (F : Type) where
  transcriptId : ℕ
  operation : String
  phase : String
  detail : Fields F
  runId : Option String := none
  actionId : Option String := none
  transcript : String
  trust : String := "external"

/-- A text, or nothing. -/
def optional : Option String → Value F
  | some s => .str s
  | none => .null

def Request.provenance (q : Request F) : Fields F :=
  [("source",.str q.operation),("trust",.str q.trust),("run_id",optional q.runId),
    ("transcript_id",.str q.transcript),("action_id",optional q.actionId)]

/-- The detail that a turn holds, and the artifact that it is in where it is large. -/
def storeDetail (q : Request F) (frozen : Value F) (s : Store F) :
    Except Refusal ((Value F × Value F) × Store F) :=
  let encoded := (dumps frozen).toUTF8
  if 32000 < encoded.size then do
    let (r,s) ← blob encoded "application/json" (some (.str "observation.json")) q.provenance s
    let status : Value F := match frozen with
      | .obj fields => (fields.lookup "status").getD .null
      | _ => .null
    return ((.obj [("evidence_payload",.obj r),("status",status),("operation_id",.str q.operation)],
      (r.lookup "artifact_id").getD .null),s)
  else .ok ((frozen,.null),s)

/-- `ToolObservationBlock(...).model_dump(mode="json")`. -/
def toolObservation (q : Request F) (stored artifactId : Value F) : Fields F :=
  [("type",.str "tool_observation"),("action_id",optional q.actionId),("artifact_id",artifactId),
    ("operation",.str q.operation),("phase",.str q.phase),
    ("summary",.str (q.operation ++ " · " ++ q.phase)),("detail",stored),
    ("provenance",.obj q.provenance)]

/-- `append_turn`. -/
def appendTurn (transcriptId : ℕ) (actor : String) (blocks : List (Value F)) (s : Store F) :
    Except Refusal (ℕ × Store F) :=
  match s.transcripts[transcriptId]? with
  | none => .error .noResultFound
  | some last =>
      if storableItems blocks then
        .ok (s.turns.length,{s with
          transcripts := s.transcripts.set transcriptId (last + 1)
          turns := s.turns ++ [{
            transcriptId := transcriptId
            sequence := last + 1
            actor := actor
            blocks := columnItems blocks}]})
      else .error .dataError

/-- `record`, without the task checkpoint. -/
def record (s : Store F) (q : Request F) : Except Refusal ((ℕ × Value F) × Store F) := do
  let (frozen,s) ← freeze q.provenance (.obj q.detail) s
  let ((stored,artifactId),s) ← storeDetail q frozen s
  let (id,s) ← appendTurn q.transcriptId "tool" [.obj (toolObservation q stored artifactId)] s
  return ((id,frozen),s)

/-- `_artifact_bytes`. -/
def artifactBytes (s : Store F) (id : String) : Except Refusal ByteArray :=
  match (StoreRuntime.readUuid F id).bind fun n => s.artifacts[n]? with
  | none => .error (.valueError "Evidence artifact not found")
  | some a =>
      if StoreRuntime.sha256 F a.data = a.sha256 then .ok a.data
      else .error (.valueError "Evidence artifact integrity check failed")

mutual

/-- Whether a value refers to an artifact. -/
def references (id : String) : Value F → Bool
  | .obj fields => (match fields.lookup "artifact_id" with
      | some (.str other) => other == id
      | _ => false) || referencesFields id fields
  | .arr items => referencesItems id items
  | _ => false

def referencesItems (id : String) : List (Value F) → Bool
  | [] => false
  | v :: vs => references id v || referencesItems id vs

def referencesFields (id : String) : Fields F → Bool
  | [] => false
  | (_,v) :: fields => references id v || referencesFields id fields

end

/-- The field of a block. -/
def field (block : Value F) (key : String) : Option (Value F) :=
  match block with
  | .obj fields => fields.lookup key
  | _ => none

def isTool (block : Value F) : Bool :=
  match field block "type" with
  | some (.str kind) => kind == "tool_observation"
  | _ => false

/-- The artifact that holds the detail of a block. -/
def payloadId (block : Value F) : Option (Option (Value F)) :=
  ((field block "detail").bind fun d => field d "evidence_payload").bind fun payload =>
    match payload with
    | .obj fields => some (fields.lookup "artifact_id")
    | _ => none

/-- The observation that a block holds, from its artifact where it is large. -/
def loadPayload (s : Store F) (block : Value F) (inline : Value F) : Except Refusal (Value F) :=
  match payloadId block with
  | none => .ok inline
  | some (some (.str id)) => (artifactBytes s id).bind loads
  | some (some _) => .error .attributeError
  | some none => .error .keyError

/-- `part.replace('~1', '/').replace('~0', '~')`. -/
def unescape (code : Char) (meaning : Char) : List Char → List Char
  | [] => []
  | [c] => [c]
  | '~' :: c :: cs => if c = code then meaning :: unescape code meaning cs
      else '~' :: unescape code meaning (c :: cs)
  | c :: d :: cs => c :: unescape code meaning (d :: cs)

/-- `items[i]`. -/
def index (items : List (Value F)) (i : ℤ) : Option (Value F) :=
  if 0 ≤ i then items[i.toNat]?
  else if -items.length ≤ i then items[(items.length + i).toNat]?
  else none

/-- One step of a pointer. -/
def child (v : Value F) (part : List Char) : Option (Value F) :=
  let key := String.ofList (unescape '0' '~' (unescape '1' '/' part))
  match v with
  | .arr items => (StoreRuntime.readInt F key).bind (index items)
  | .obj fields => fields.lookup key
  | _ => none

def navigate (v : Value F) (pointer : List Char) : Except Refusal (Value F) :=
  match pointer with
  | [] => .ok v
  | '/' :: parts =>
      match (parts.splitOn '/').foldlM child v with
      | some w => .ok w
      | none => .error (.valueError "Evidence pointer does not exist")
  | _ => .error (.valueError "Use an RFC 6901 JSON pointer")

structure Page (F : Type) where
  transcriptId : ℕ
  sequence : ℕ
  actor : String
  evidenceKind : String
  operation : Value F
  phase : Value F
  actionId : Value F
  provenance : Value F
  artifactId : Option String
  pointer : String
  offset : ℕ
  nextOffset : Option ℕ
  totalCharacters : ℕ
  text : String

/-- The one block of a turn of a tool. -/
def toolBlock (t : Turn F) : Option (Value F) :=
  match t.blocks with
  | [block] => if isTool block then some block else none
  | _ => none

/-- The kind of evidence that a turn is. -/
def evidenceKind (t : Turn F) (artifactId : Option String) : String :=
  if (toolBlock t).isSome then "tool_observation"
  else if t.actor = "owner" then
    if artifactId.isSome then "owner_attachment" else "owner_statement"
  else if t.actor = "atlas" then "model_statement"
  else if t.actor = "system" then "system_statement"
  else "transcript_evidence"

/-- `value or other`. -/
def orElse (value : Option (Value F)) (other : Value F) : Value F :=
  match value with
  | some v => if truthy v then v else other
  | none => other

/-- Where the evidence is said to come from. -/
def provenanceOf (t : Turn F) (artifactId : Option String) : Value F :=
  match toolBlock t with
  | some block => orElse (field block "provenance") (.obj [])
  | none =>
      match artifactId with
      | none => .obj []
      | some id =>
          if t.actor = "owner" then
            orElse ((t.blocks.find? fun block => isReference id block).bind fun block =>
              field block "provenance") (.obj [])
          else .obj []
where
  /-- Whether a block is a durable reference to the artifact. -/
  isReference (id : String) (block : Value F) : Bool :=
    (match field block "type" with
      | some (.str kind) => kind == "artifact_ref"
      | _ => false) && text ((field block "artifact_id").getD .null) == id

/-- The value that a read of a turn begins with. -/
def evidenceValue (s : Store F) (t : Turn F) : Except Refusal (Value F) :=
  match toolBlock t with
  | some block => loadPayload s block ((field block "detail").getD .null)
  | none => .ok (.arr t.blocks)

/-- The text of an artifact that a value refers to. -/
def artifactText (s : Store F) (value : Value F) (id : String) : Except Refusal (Value F) := do
  if references id value then
    let data ← artifactBytes s id
    match String.fromUTF8? data with
    | some text => return .str text
    | none => throw (.valueError "Binary evidence requires native resource acquisition")
  else throw (.valueError "Artifact is not referenced by this evidence")

/-- The value that a read navigates. -/
def selected (s : Store F) (t : Turn F) : Option String → Except Refusal (Value F)
  | none => evidenceValue s t
  | some id => evidenceValue s t >>= fun value => artifactText s value id

/-- The text that a read shows of a value. -/
def shownText : Value F → String
  | .str t => t
  | v => dumps v

/-- `read`. -/
def read (s : Store F) (evidenceId : ℕ) (pointer : String) (offset limit : ℤ)
    (artifactId : Option String) : Except Refusal (Page F) :=
  match s.turns[evidenceId]? with
  | none => .error (.valueError "Canonical evidence not found")
  | some t => do
      let value ← selected s t artifactId
      let value ← navigate value pointer.toList
      let text := (shownText value).toList
      let start := offset.toNat
      let stop := min text.length (start + (max 1 (min limit 8000)).toNat)
      let tool (key : String) : Value F := ((toolBlock t).bind fun block => field block key).getD .null
      return {
        transcriptId := t.transcriptId
        sequence := t.sequence
        actor := t.actor
        evidenceKind := evidenceKind t artifactId
        operation := tool "operation"
        phase := tool "phase"
        actionId := orElse (some (tool "action_id")) .null
        provenance := provenanceOf t artifactId
        artifactId := artifactId
        pointer := pointer
        offset := start
        nextOffset := if stop < text.length then some stop else none
        totalCharacters := text.length
        text := String.ofList ((text.take stop).drop start)}

/-- A resource that was acquired. -/
structure Resource where
  artifactId : String
  name : String
  mediaType : String
  source : String
  sha256 : String
  sizeBytes : ℕ
  dataBase64 : String

def resourceOf (artifactId : String) (a : Artifact F) (data : ByteArray) : Resource where
  artifactId := artifactId
  name := match a.filename with
    | some name => if name = "" then "evidence" else name
    | none => "evidence"
  mediaType := a.mediaType
  source := a.source
  sha256 := a.sha256
  sizeBytes := data.size
  dataBase64 := String.ofList (Base64.encode data.data.toList)

/-- The blocks of a turn, one after another, until one refers to the artifact. -/
def acquireFrom (s : Store F) (artifactId : String) : List (Value F) → Except Refusal Resource
  | [] => .error (.valueError "Artifact is not referenced by this evidence")
  | block :: blocks => do
      let loaded ← loadPayload s block block
      if references artifactId loaded then
        match (StoreRuntime.readUuid F artifactId).bind fun n => s.artifacts[n]? with
        | none => throw (.valueError "Evidence resource is unavailable or exceeds the acquisition limit")
        | some a =>
            if 25 * 1024 * 1024 < a.sizeBytes then
              throw (.valueError "Evidence resource is unavailable or exceeds the acquisition limit")
            let data ← artifactBytes s artifactId
            return resourceOf artifactId a data
      else acquireFrom s artifactId blocks

/-- `acquire`. -/
def acquire (s : Store F) (evidenceId : ℕ) (artifactId : String) : Except Refusal Resource :=
  match s.turns[evidenceId]? with
  | none => .error (.valueError "Canonical evidence not found")
  | some t => acquireFrom s artifactId t.blocks

end

end Observations
end Atlas
