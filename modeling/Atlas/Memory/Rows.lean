import Mathlib.Data.Rat.Defs
import Atlas.Lib.RowTable
import Atlas.Persistence.SharedWrites

/-! The rows of the memory store. A row is identified by its position in its table, so
identifiers follow creation order; times are arbitrary numbers. -/
namespace Atlas
namespace Memory

open RowTable

abbrev Time := ℕ

def hours (n : ℕ) : ℕ := n * 3600

def days (n : ℕ) : ℕ := n * 86400

/-- Identities of shared-write operations: a command's own, or a fresh one. -/
inductive OperationId where
  | command (id : ℕ)
  | uuid (n : ℕ)
  deriving Repr, DecidableEq

inductive CandidateStatus where
  | pending
  | leased
  | retainedShortTerm
  | awaitingOwner
  | reconciled
  | discarded
  | blocked
  | invalidated
  | expired
  | failed
  | rejected
  deriving Repr, DecidableEq

def CandidateStatus.value : CandidateStatus → String
  | .pending => "pending"
  | .leased => "leased"
  | .retainedShortTerm => "retained_short_term"
  | .awaitingOwner => "awaiting_owner"
  | .reconciled => "reconciled"
  | .discarded => "discarded"
  | .blocked => "blocked"
  | .invalidated => "invalidated"
  | .expired => "expired"
  | .failed => "failed"
  | .rejected => "rejected"

/-- The statuses under which a candidate can still be reconciled. -/
def CandidateStatus.reconcilable : CandidateStatus → Bool
  | .pending | .leased | .retainedShortTerm | .awaitingOwner => true
  | _ => false

inductive Scope where
  | chat
  | project
  | crossChat
  deriving Repr, DecidableEq

inductive ScopeKey where
  | owner
  | chat (transcriptId : ℕ)
  | projectUnresolved (transcriptId : ℕ)
  deriving Repr, DecidableEq

inductive Durability where
  | shortTerm
  | longTerm
  deriving Repr, DecidableEq

inductive Actor where
  | owner
  | atlas
  | tool
  | system
  deriving Repr, DecidableEq

/-- `_principal`. -/
def Actor.principal : Actor → String
  | .owner => "owner"
  | .atlas => "assistant"
  | .tool => "tool"
  | .system => "other"

structure TranscriptRow where
  kind : String := "owner"
  retentionPolicy : String := "standard"
  title : Option String := none
  createdAt : Time := 0
  updatedAt : Time := 0
  closedAt : Option Time := none
  contextSummary : Option String := none
  summarizedThroughTurnId : Option ℕ := none
  activeTaskState : Dict := []
  activeTaskRevision : ℕ := 0
  nextTurnSequence : ℕ := 0
  contentRevision : ℕ := 0

structure TurnRow where
  transcriptId : ℕ
  actor : Actor
  sequence : ℕ
  blocks : List Json
  deletedAt : Option Time := none
  deletionOperationId : Option OperationId := none
  createdAt : Time := 0

structure IndexChunkRow where
  transcriptId : ℕ
  startSequence : ℕ
  endSequence : ℕ
  content : String
  deriving Repr, DecidableEq

structure IndexStateRow where
  transcriptId : ℕ
  lastIndexedSequence : ℕ
  deriving Repr, DecidableEq

structure CapsuleRow where
  transcriptId : ℕ
  summary : String
  deriving Repr, DecidableEq

structure DiscoveryStateRow where
  transcriptId : ℕ
  lastScannedSequence : ℕ
  sourceRevision : ℕ := 0
  updatedAt : Time
  deriving Repr, DecidableEq

/-- The keys the memory modules write into `decision_json`. -/
structure DecisionJson where
  decision : Option String := none
  code : Option String := none
  result : Option String := none
  lastError : Option String := none
  reasonCode : Option String := none
  obligationId : Option ℕ := none
  conflictId : Option ℕ := none
  targetMemoryId : Option ℕ := none
  supersededByCommandId : Option ℕ := none
  ownerConfirmationGranted : Bool := false
  ownerAssertionTurnId : Option ℕ := none
  ownerAssertionTranscriptId : Option ℕ := none
  ownerRetries : Option ℕ := none
  deriving Repr, DecidableEq

structure CandidateRow where
  status : CandidateStatus := .pending
  kind : String
  content : Option String
  scope : Scope
  scopeKey : Option ScopeKey
  confidence : ℚ
  durability : Durability
  proposedAction : String := "upsert"
  subject : Option String
  nameSpace : Option String
  evidence : Option String := none
  fingerprint : Option String
  evidenceSetHash : Option String
  proposerModel : Option String := none
  intakePath : String := "foreground"
  origin : String := "conversation"
  temporalHorizonAt : Option Time := none
  stateVersion : ℕ := 0
  invalidatedAt : Option Time := none
  invalidationOperationId : Option OperationId := none
  leaseToken : Option ℕ := none
  leasedUntil : Option Time := none
  attemptCount : ℕ := 0
  reviewAfter : Option Time := none
  expiresAt : Option Time := none
  sourceTranscriptId : ℕ
  sourceTurnId : ℕ
  sourceProviderEvidenceId : Option ℕ := none
  decisionJson : DecisionJson := {}
  processedAt : Option Time := none
  deriving DecidableEq

structure EvidenceRow where
  candidateId : ℕ
  turnId : ℕ
  principal : String
  ordinal : ℕ
  spanRef : String := ""
  deriving Repr, DecidableEq

/-- The identities a snapshot of a candidate's evaluation refers to. -/
structure EvidenceRefs where
  triggerTurnId : ℕ
  evidenceSetHash : Option String
  evidenceTurnIds : List ℕ
  sourceProviderEvidenceId : Option ℕ
  activeMemoryIds : List ℕ
  restrictedMemoryIds : List ℕ
  legacyUnverifiedTargetIds : List ℕ
  reconciliationRecordId : Option ℕ := none
  deriving Repr, DecidableEq

/-- The keys of an attempt's `result_json`. -/
structure AttemptResult where
  result : Option String := none
  code : Option String := none
  expectedRevision : Option ℕ := none
  reasonCode : Option String := none
  obligationId : Option ℕ := none
  conflictId : Option ℕ := none
  targetMemoryId : Option ℕ := none
  deriving Repr, DecidableEq

structure AttemptRow where
  candidateId : ℕ
  leaseToken : ℕ
  attemptNumber : ℕ
  candidateStateVersion : ℕ := 0
  evaluatedMemoryRevision : Option ℕ := none
  evaluatedSourceRevision : Option ℕ := none
  semanticDecision : Option String := none
  targetMemoryId : Option ℕ := none
  operationId : Option OperationId := none
  status : String := "claimed"
  evidenceJson : Option EvidenceRefs := none
  resultJson : AttemptResult := {}
  error : Option String := none
  completedAt : Option Time := none
  deriving Repr, DecidableEq

structure ReadingRow where
  candidateId : ℕ
  attemptId : ℕ
  evidenceSetHash : String
  sourceRevision : ℕ
  extractedClaims : List String
  category : Option String
  scope : Option Scope
  durability : Option Durability
  claimPrincipal : Option String
  eventValidFrom : Option Time
  eventValidTo : Option Time
  verifierModel : Option String
  tombstonedAt : Option Time := none
  tombstoneOperationId : Option OperationId := none
  deriving Repr, DecidableEq

structure ComparisonRow where
  candidateId : ℕ
  readingId : ℕ
  verdict : String
  normalizedContent : Option String
  category : Option String
  scope : Option Scope
  durability : Option Durability
  tombstonedAt : Option Time := none
  tombstoneOperationId : Option OperationId := none
  deriving Repr, DecidableEq

structure ReconciliationRecordRow where
  candidateId : ℕ
  comparisonId : ℕ
  relation : String
  targetMemoryId : Option ℕ
  evaluatedMemoryRevision : ℕ
  replacementContent : Option String
  temporalGuard : Option String
  tombstonedAt : Option Time := none
  tombstoneOperationId : Option OperationId := none
  deriving Repr, DecidableEq

structure PolicyDecisionRow where
  candidateId : ℕ
  reconciliationId : ℕ
  decision : String
  reasonCode : Option String
  deriving Repr, DecidableEq

inductive ObligationKind where
  | explicitRemember
  | explicitCorrect
  | memoryConfirmation
  | memoryReview
  | memoryConflict
  deriving Repr, DecidableEq

/-- `EXPLICIT_OBLIGATION_KINDS`. -/
def ObligationKind.explicit : ObligationKind → Bool
  | .explicitRemember | .explicitCorrect => true
  | _ => false

inductive ObligationStatus where
  | pending
  | resolved
  deriving Repr, DecidableEq

inductive SubjectType where
  | memoryCandidate
  | durableMemory
  | memoryConflict
  | memoryCommand
  deriving Repr, DecidableEq

/-- The keys the memory modules write into `resolution_json`. -/
structure ResolutionJson where
  failureCount : Option ℕ := none
  failureBudget : Option ℕ := none
  ownerRetries : Option ℕ := none
  lastError : Option String := none
  candidateId : Option ℕ := none
  memoryId : Option ℕ := none
  result : Option String := none
  code : Option String := none
  reason : Option String := none
  triggerReason : Option String := none
  conflictId : Option ℕ := none
  targetMemoryId : Option ℕ := none
  replacementMemoryId : Option ℕ := none
  commandId : Option ℕ := none
  correctionCandidateId : Option ℕ := none
  correctionObligationId : Option ℕ := none
  changeType : Option String := none
  deriving Repr, DecidableEq

structure ObligationRow where
  kind : ObligationKind
  status : ObligationStatus := .pending
  subjectType : SubjectType
  subjectId : Option ℕ
  origin : String := "runtime"
  commandId : Option ℕ := none
  sourceTranscriptId : Option ℕ := none
  sourceTurnId : Option ℕ := none
  resolutionSourceTranscriptId : Option ℕ := none
  resolutionSourceTurnId : Option ℕ := none
  resolutionCode : Option String := none
  resolutionJson : ResolutionJson := {}
  expiresAt : Option Time := none
  resolvedAt : Option Time := none
  deriving Repr, DecidableEq

structure ConflictRow where
  candidateId : ℕ
  reconciliationId : ℕ
  targetMemoryId : ℕ
  status : String := "open"
  proposedContent : Option String
  reasonCode : Option String
  tombstonedAt : Option Time := none
  tombstoneOperationId : Option OperationId := none
  resolvedAt : Option Time := none
  deriving Repr, DecidableEq

inductive MemoryStatus where
  | active
  | superseded
  | retired
  | deleted
  deriving Repr, DecidableEq

def MemoryStatus.value : MemoryStatus → String
  | .active => "active"
  | .superseded => "superseded"
  | .retired => "retired"
  | .deleted => "deleted"

inductive Grounding where
  | verified
  | legacyUnverified
  deriving Repr, DecidableEq

def Grounding.value : Grounding → String
  | .verified => "verified"
  | .legacyUnverified => "legacy_unverified"

structure DurableMemoryRow where
  status : MemoryStatus := .active
  recordKind : String := "owner_directed"
  origin : String := "runtime_unclassified"
  groundingStatus : Grounding := .legacyUnverified
  verificationRecordId : Option ℕ := none
  ownerAssertionTurnId : Option ℕ := none
  originatingCandidateId : Option ℕ := none
  memoryKind : Option String := none
  scope : Scope := .crossChat
  scopeKey : Option ScopeKey := none
  durability : Durability := .longTerm
  subject : Option String := none
  nameSpace : Option String := none
  content : Option String
  fingerprint : Option String
  suppressesRecall : Bool := false
  embedded : Bool := false
  sourceTranscriptId : Option ℕ := none
  sourceTurnId : Option ℕ := none
  supersedesId : Option ℕ := none
  supersededById : Option ℕ := none
  validFrom : Option Time := none
  validTo : Option Time := none
  retiredAt : Option Time := none
  deletedAt : Option Time := none
  deletionOperationId : Option OperationId := none
  updatedAt : Time := 0
  deriving Repr, DecidableEq

structure ProvenanceRow where
  memoryId : ℕ
  relationship : String
  sourceTurnId : Option ℕ := none
  sourceCandidateId : Option ℕ := none
  sourceMemoryId : Option ℕ := none
  deriving Repr, DecidableEq

inductive CommandStatus where
  | pending
  | applied
  | failed
  deriving Repr, DecidableEq

structure CommandRow where
  operation : String
  status : CommandStatus := .pending
  arguments : Dict := []
  sourceTranscriptId : Option ℕ := none
  sourceTurnId : Option ℕ := none
  targetMemoryId : Option ℕ := none
  replacementMemoryId : Option ℕ := none
  error : Option String := none
  appliedAt : Option Time := none
  failedAt : Option Time := none

structure DeletionReceiptRow where
  operationId : OperationId
  targetMemoryId : Option ℕ
  scope : String
  memoryIds : List ℕ
  turnIds : List ℕ
  candidateIds : List ℕ
  preservedMemoryIds : List ℕ
  deriving Repr, DecidableEq

/-- The tables the memory modules read and write. -/
structure Tables where
  transcripts : List TranscriptRow := []
  turns : List TurnRow := []
  chunks : List IndexChunkRow := []
  indexStates : List IndexStateRow := []
  capsules : List CapsuleRow := []
  discoveries : List DiscoveryStateRow := []
  candidates : List CandidateRow := []
  evidence : List EvidenceRow := []
  attempts : List AttemptRow := []
  readings : List ReadingRow := []
  comparisons : List ComparisonRow := []
  records : List ReconciliationRecordRow := []
  policies : List PolicyDecisionRow := []
  obligations : List ObligationRow := []
  conflicts : List ConflictRow := []
  memories : List DurableMemoryRow := []
  provenance : List ProvenanceRow := []
  commands : List CommandRow := []
  receipts : List DeletionReceiptRow := []
  /-- Source of lease tokens. -/
  nextToken : ℕ := 0

namespace Tables

def setCandidate (s : Tables) (id : ℕ) (f : CandidateRow → CandidateRow) : Tables :=
  {s with candidates := s.candidates.modify id f}

def setAttempt (s : Tables) (id : ℕ) (f : AttemptRow → AttemptRow) : Tables :=
  {s with attempts := s.attempts.modify id f}

def setObligation (s : Tables) (id : ℕ) (f : ObligationRow → ObligationRow) : Tables :=
  {s with obligations := s.obligations.modify id f}

def setConflict (s : Tables) (id : ℕ) (f : ConflictRow → ConflictRow) : Tables :=
  {s with conflicts := s.conflicts.modify id f}

def setMemory (s : Tables) (id : ℕ) (f : DurableMemoryRow → DurableMemoryRow) : Tables :=
  {s with memories := s.memories.modify id f}

def setCommand (s : Tables) (id : ℕ) (f : CommandRow → CommandRow) : Tables :=
  {s with commands := s.commands.modify id f}

def setTranscript (s : Tables) (id : ℕ) (f : TranscriptRow → TranscriptRow) : Tables :=
  {s with transcripts := s.transcripts.modify id f}

def addProvenance (s : Tables) (rows : List ProvenanceRow) : Tables :=
  {s with provenance := s.provenance ++ rows}

end Tables

end Memory
end Atlas
