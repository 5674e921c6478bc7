import Mathlib.Data.List.Sort
import Mathlib.Data.List.Dedup
import Atlas.Memory.Explicit

/-! Candidate proposals: validation, normalization and the intake that deduplicates
reconcilable candidates by the hash of their evidence set. -/
namespace Atlas
namespace Memory

open RowTable

structure CandidateEvidenceRef where
  handle : Option String := none
  turnId : Option ℕ := none
  spanRef : String := ""
  deriving Repr, DecidableEq

/-- A proposal as a model or an explicit command hands it in. -/
structure RawCandidate where
  kind : String
  content : String
  scope : String
  confidence : ℚ
  durability : String
  subject : Option String := none
  nameSpace : Option String := none
  evidenceRefs : List CandidateEvidenceRef

def candidateKinds : List String :=
  ["identity","preference","fact","decision","relationship","procedure","project_state","intent"]

/-- A proposal that passed validation. -/
structure MemoryCandidate where
  kind : String
  content : String
  scope : Scope
  confidence : ℚ
  durability : Durability
  subject : Option String
  nameSpace : Option String
  evidenceRefs : List CandidateEvidenceRef
  kind_allowed : kind ∈ candidateKinds
  content_bounds : 1 ≤ content.length ∧ content.length ≤ 2000
  confidence_bounds : 0 ≤ confidence ∧ confidence ≤ 1
  refs_bounds : 1 ≤ evidenceRefs.length ∧ evidenceRefs.length ≤ 8

def Scope.value : Scope → String
  | .chat => "chat"
  | .project => "project"
  | .crossChat => "cross_chat"

def Durability.value : Durability → String
  | .shortTerm => "short_term"
  | .longTerm => "long_term"

def Scope.parse (s : String) : Option Scope :=
  if s = "chat" then some .chat
  else if s = "project" then some .project
  else if s = "cross_chat" then some .crossChat
  else none

def Durability.parse (s : String) : Option Durability :=
  if s = "short_term" then some .shortTerm
  else if s = "long_term" then some .longTerm
  else none

def ScopeKey.value : ScopeKey → String
  | .owner => "owner"
  | .chat id => "chat:" ++ toString id
  | .projectUnresolved id => "project-unresolved:" ++ toString id

section

variable [PyRuntime]

/-- Case, surrounding and duplicate whitespace, hyphen and space fold away. -/
def protocolToken (value : String) : String :=
  "_".intercalate (words (String.ofList ((PyRuntime.casefold value).toList.map fun c =>
    if c = '-' then ' ' else c)))

def validationError (field : String) : Failure :=
  ⟨.validationError,PyRuntime.validationText field⟩

def shortText (limit : ℕ) (value : Option String) : Bool := value.all (·.length ≤ limit)

/-- An evidence reference carries exactly one of a handle and a turn. -/
def CandidateEvidenceRef.wellFormed (ref : CandidateEvidenceRef) : Bool :=
  (ref.handle.isNone != ref.turnId.isNone) && ref.spanRef.length ≤ 160 &&
    ref.handle.all (fun h => 1 ≤ h.length && h.length ≤ 32)

/-- `MemoryCandidate.model_validate` after folding of token spelling. -/
def RawCandidate.validate (raw : RawCandidate) : Except Failure MemoryCandidate :=
  let kind := protocolToken raw.kind
  let scopeToken := protocolToken raw.scope
  let scopeToken := if scopeToken = "global" then "cross_chat" else scopeToken
  if hk : kind ∈ candidateKinds then
    if hc : 1 ≤ raw.content.length ∧ raw.content.length ≤ 2000 then
      match Scope.parse scopeToken with
      | none => .error (validationError "scope")
      | some scope =>
          if hq : 0 ≤ raw.confidence ∧ raw.confidence ≤ 1 then
            match Durability.parse (protocolToken raw.durability) with
            | none => .error (validationError "durability")
            | some durability =>
                if !shortText 160 raw.subject then .error (validationError "subject")
                else if !shortText 160 raw.nameSpace then .error (validationError "namespace")
                else if hr : 1 ≤ raw.evidenceRefs.length ∧ raw.evidenceRefs.length ≤ 8 then
                  if raw.evidenceRefs.all CandidateEvidenceRef.wellFormed then
                    .ok ⟨kind,raw.content,scope,raw.confidence,durability,raw.subject,
                      raw.nameSpace,raw.evidenceRefs,hk,hc,hq,hr⟩
                  else .error (validationError "evidence_refs")
                else .error (validationError "evidence_refs")
          else .error (validationError "confidence")
    else .error (validationError "content")
  else .error (validationError "kind")

def MemoryCandidate.raw (c : MemoryCandidate) : RawCandidate :=
  ⟨c.kind,c.content,c.scope.value,c.confidence,c.durability.value,c.subject,c.nameSpace,
    c.evidenceRefs⟩

/-- Whitespace of one reference collapsed. -/
def CandidateEvidenceRef.normalized (ref : CandidateEvidenceRef) : CandidateEvidenceRef :=
  { handle := (ref.handle.bind fun h => orNone (clipText 32 (normalizeSpace h)))
    turnId := ref.turnId
    spanRef := clipText 160 (normalizeSpace ref.spanRef) }

/-- First occurrences, in order. -/
def firstOccurrences {α : Type*} [DecidableEq α] (l : List α) : List α :=
  l.foldl (fun seen a => if a ∈ seen then seen else seen ++ [a]) []

def MemoryCandidate.normalized (c : MemoryCandidate) : Except Failure MemoryCandidate :=
  let content := normalizeSpace c.content
  if content.isEmpty then .error (valueError "candidate content cannot be empty")
  else
    RawCandidate.validate {c.raw with
      content := content
      subject := c.subject.bind fun v => orNone (normalizeSpace v)
      nameSpace := c.nameSpace.bind fun v => orNone (normalizeSpace v)
      evidenceRefs := firstOccurrences (c.evidenceRefs.map CandidateEvidenceRef.normalized)}

def candidateScopeKey (scope : Scope) (sourceTranscriptId : ℕ) : ScopeKey :=
  match scope with
  | .crossChat => .owner
  | .chat => .chat sourceTranscriptId
  | .project => .projectUnresolved sourceTranscriptId

/-- Semantic proposal fingerprint; not the dedupe key. -/
def candidateFingerprint (c : MemoryCandidate) (scopeKey : ScopeKey) : String :=
  PyRuntime.sha256 (PyRuntime.dumps true (.obj [
    ("content",.str (PyRuntime.casefold c.content)),
    ("kind",.str c.kind),
    ("namespace",.str (PyRuntime.casefold (orEmpty c.nameSpace))),
    ("scope",.str c.scope.value),
    ("scope_key",.str scopeKey.value),
    ("subject",.str (PyRuntime.casefold (orEmpty c.subject)))]))

def evidenceSetHash (refs : List (ℕ × String)) : String :=
  PyRuntime.sha256 ("\n".intercalate
    ((refs.map fun r => toString r.1 ++ ":" ++ r.2).insertionSort (· ≤ ·)))

/-- Where an intake call comes from, with its constant arguments. -/
structure IntakeSource where
  sourceTranscriptId : ℕ
  sourceTurnId : ℕ
  sourceProviderEvidenceId : Option ℕ := none
  allowedEvidenceTurnIds : Option (List ℕ) := none
  evidenceHandleMap : Option (List (String × ℕ × String)) := none
  proposerModel : Option String := none
  intakePath : String := "foreground"
  origin : String := "conversation"
  temporalHorizonAt : Option Time := none

/-- The canonical turn and span a reference stands for. -/
def IntakeSource.resolve (source : IntakeSource) (ref : CandidateEvidenceRef) :
    Except Failure (ℕ × String) :=
  match ref.handle, ref.turnId with
  | some handle, _ =>
      match source.evidenceHandleMap.bind fun m => m.find? fun p => p.1 == handle with
      | none => .error (valueError "candidate referenced an unknown evidence handle")
      | some (_,turnId,span) =>
          if ref.spanRef ≠ "" ∧ ref.spanRef ≠ span then
            .error (valueError "candidate evidence handle/span mismatch")
          else .ok (turnId,span)
  | none, some turnId =>
      if source.evidenceHandleMap.isSome then
        .error (valueError "model candidates must use runtime evidence handles")
      else .ok (turnId,ref.spanRef)
  | none, none => .error (validationError "evidence_refs")

/-- Decimal digits with single underscores between them. -/
def parseDigits : ℕ → List Char → Option ℕ
  | n, [] => some n
  | n, '_' :: d :: cs => if d.isDigit then parseDigits (n * 10 + (d.toNat - 48)) cs else none
  | n, c :: cs => if c.isDigit then parseDigits (n * 10 + (c.toNat - 48)) cs else none

/-- `int(text)` for a decimal literal. -/
def parseInt (s : String) : Option ℤ :=
  match (normalizeSpace s).toList with
  | '-' :: c :: cs => if c.isDigit then (parseDigits 0 (c :: cs)).map fun n => -(n : ℤ) else none
  | '+' :: c :: cs => if c.isDigit then (parseDigits 0 (c :: cs)).map fun n => (n : ℤ) else none
  | c :: cs => if c.isDigit then (parseDigits 0 (c :: cs)).map fun n => (n : ℤ) else none
  | [] => none

/-- The parts of a span `kind:index`; `none` if it is malformed. -/
def parseSpan (span : String) : Option (String × ℤ) :=
  match span.toList.span (· ≠ ':') with
  | (_,[]) => none
  | (kind,_ :: index) => (parseInt (String.ofList index)).map fun i => (String.ofList kind,i)

/-- The canonical text block a span names. -/
def spanBlock (turn : TurnRow) (span : String) : Except Failure Json :=
  match parseSpan span with
  | none => .error (valueError "candidate evidence span is malformed")
  | some (kind,index) =>
      if kind ≠ "text" ∨ index < 0 ∨ (turn.blocks.length : ℤ) ≤ index then
        .error (valueError "candidate evidence span is unavailable")
      else
        match turn.blocks[index.toNat]? with
        | none => .error (valueError "candidate evidence span is unavailable")
        | some block =>
            if block.textAt "type" = some "text" then .ok block
            else .error (valueError "candidate evidence span is not canonical text")

namespace Tables

/-- The checks `enqueue` makes on one reference to a turn that exists. -/
def checkEvidence (s : Tables) (sourceTranscriptId : ℕ) (ref : ℕ × String) : Except Failure Unit :=
  match s.turns[ref.1]? with
  | none => .error (valueError "candidate referenced unknown canonical evidence")
  | some turn =>
      if turn.deletedAt.isSome then
        .error (valueError "candidate referenced deleted canonical evidence")
      else if turn.transcriptId ≠ sourceTranscriptId then
        .error (valueError "candidate evidence must belong to the source transcript")
      else if ref.2 ≠ "" then (spanBlock turn ref.2).map fun _ => ()
      else .ok ()

/-- The reconcilable candidate of an evidence set, the newest if there were several. -/
def reconcilableByHash (s : Tables) (hash : String) : Option ℕ :=
  (ids (fun c => c.status.reconcilable && c.evidenceSetHash == some hash) s.candidates).getLast?

def evidenceRows (s : Tables) (candidateId : ℕ) (refs : List (ℕ × String)) : List EvidenceRow :=
  refs.mapIdx fun ordinal ref =>
    { candidateId := candidateId
      turnId := ref.1
      principal := ((s.turns[ref.1]?).map (·.actor.principal)).getD "other"
      ordinal := ordinal
      spanRef := ref.2 }

/-- The row an accepted proposal is stored as. -/
def candidateRow (candidate : MemoryCandidate) (source : IntakeSource) (hash : String) :
    CandidateRow :=
  let scopeKey := candidateScopeKey candidate.scope source.sourceTranscriptId
  { kind := candidate.kind
    content := some candidate.content
    scope := candidate.scope
    scopeKey := some scopeKey
    confidence := candidate.confidence
    durability := candidate.durability
    subject := candidate.subject
    nameSpace := candidate.nameSpace
    fingerprint := some (candidateFingerprint candidate scopeKey)
    evidenceSetHash := some hash
    proposerModel := orNone (clipText 128 (normalizeSpace (orEmpty source.proposerModel)))
    intakePath := (orNone (clipText 32 (normalizeSpace source.intakePath))).getD "foreground"
    origin := (orNone (clipText 64 (normalizeSpace source.origin))).getD "conversation"
    temporalHorizonAt := source.temporalHorizonAt
    sourceTranscriptId := source.sourceTranscriptId
    sourceTurnId := source.sourceTurnId
    sourceProviderEvidenceId := source.sourceProviderEvidenceId }

/-- `MemoryCandidateRepository.enqueue`: the candidate's id and whether it was created. -/
def enqueue (s : Tables) (candidate : MemoryCandidate) (source : IntakeSource) :
    Except Failure (Tables × ℕ × Bool) := do
  let candidate ← candidate.normalized
  let refs := firstOccurrences (← candidate.evidenceRefs.mapM source.resolve)
  if source.allowedEvidenceTurnIds.any fun allowed => !refs.all fun r => r.1 ∈ allowed then
    .error (valueError "candidate referenced evidence outside the model-visible context")
  else if refs.any fun r => (s.turns[r.1]?).isNone then
    .error (valueError "candidate referenced unknown canonical evidence")
  else
    let _ ← refs.mapM (s.checkEvidence source.sourceTranscriptId)
    let hash := evidenceSetHash refs
    match s.reconcilableByHash hash with
    | some existing => .ok (s,existing,false)
    | none =>
        let id := s.candidates.length
        .ok ({s with
          candidates := s.candidates ++ [candidateRow candidate source hash]
          evidence := s.evidence ++ s.evidenceRows id refs},id,true)

/-- `enqueue_many`: at most eight proposals, each accepted or rejected on its own. -/
def enqueueMany (s : Tables) (proposals : List RawCandidate) (source : IntakeSource) : Tables :=
  (proposals.take 8).foldl (fun s raw =>
    match (raw.validate.bind fun c => s.enqueue c source) with
    | .ok (s',_,_) => s'
    | .error _ => s) s

end Tables

end

end Memory
end Atlas
