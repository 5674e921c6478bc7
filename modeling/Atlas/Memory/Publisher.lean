import Atlas.Memory.Lease

/-! The publisher: the only path from a candidate to derived durable memory, one shared
write that re-checks lease, evidence and lifecycle before it changes anything. -/
namespace Atlas
namespace Memory

open RowTable

inductive PublicationTerminality where
  | terminalSuccess
  | terminalFailure
  | nonterminal
  | retry
  deriving Repr, DecidableEq

inductive PublicationOutcome where
  | created
  | merge
  | supersede
  | historicalPredecessor
  | historicalLineageAdded
  | historicalAlreadyRepresented
  | legacyGrounded
  | lineageAdded
  | alreadyRepresented
  | retainedShortTerm
  | discarded
  | blocked
  | invalidated
  | awaitingOwner
  | conflict
  | sourceConflict
  | leaseConflict
  deriving Repr, DecidableEq

def PublicationOutcome.value : PublicationOutcome → String
  | .created => "created"
  | .merge => "merge"
  | .supersede => "supersede"
  | .historicalPredecessor => "historical_predecessor"
  | .historicalLineageAdded => "historical_lineage_added"
  | .historicalAlreadyRepresented => "historical_already_represented"
  | .legacyGrounded => "legacy_grounded"
  | .lineageAdded => "lineage_added"
  | .alreadyRepresented => "already_represented"
  | .retainedShortTerm => "retained_short_term"
  | .discarded => "discarded"
  | .blocked => "blocked"
  | .invalidated => "invalidated"
  | .awaitingOwner => "awaiting_owner"
  | .conflict => "conflict"
  | .sourceConflict => "source_conflict"
  | .leaseConflict => "lease_conflict"

def PublicationOutcome.terminality : PublicationOutcome → PublicationTerminality
  | .retainedShortTerm | .awaitingOwner | .conflict => .nonterminal
  | .blocked | .invalidated => .terminalFailure
  | .sourceConflict | .leaseConflict => .retry
  | _ => .terminalSuccess

def PublicationOutcome.terminal (o : PublicationOutcome) : Bool :=
  o.terminality == .terminalSuccess || o.terminality == .terminalFailure

inductive SemanticDecision where
  | discard
  | retainShortTerm
  | create
  | equivalent
  | merge
  | supersede
  | historicalPredecessor
  | groundLegacy
  | conflict
  | awaitOwner
  deriving Repr, DecidableEq

def SemanticDecision.value : SemanticDecision → String
  | .discard => "discard"
  | .retainShortTerm => "retain_short_term"
  | .create => "create"
  | .equivalent => "equivalent"
  | .merge => "merge"
  | .supersede => "supersede"
  | .historicalPredecessor => "historical_predecessor"
  | .groundLegacy => "ground_legacy"
  | .conflict => "conflict"
  | .awaitOwner => "await_owner"

def SemanticDecision.targeted : SemanticDecision → Bool
  | .equivalent | .merge | .supersede | .historicalPredecessor | .groundLegacy | .conflict => true
  | _ => false

def SemanticDecision.needsContent : SemanticDecision → Bool
  | .merge | .supersede | .historicalPredecessor | .groundLegacy => true
  | _ => false

/-- A decision the model validator accepts. -/
structure ReconciliationDecision where
  decision : SemanticDecision
  targetMemoryId : Option ℕ := none
  content : Option String := none
  reason : Option String := none
  eventValidFrom : Option Time := none
  eventValidTo : Option Time := none
  memoryKind : Option String := none
  scope : Option Scope := none
  durability : Option Durability := none
  target_present : targetMemoryId.isSome = decision.targeted := by rfl
  content_present : decision.needsContent = true → normalizeSpace (orEmpty content) ≠ "" := by decide
  content_length : (orEmpty content).length ≤ 4000 := by decide

def createDecision : ReconciliationDecision := {decision := .create}

def awaitOwnerDecision : ReconciliationDecision := {decision := .awaitOwner}

def equivalentDecision (memoryId : ℕ) : ReconciliationDecision :=
  {decision := .equivalent, targetMemoryId := some memoryId}

def conflictDecision (memoryId : ℕ) : ReconciliationDecision :=
  {decision := .conflict, targetMemoryId := some memoryId}

/-- The command context and payload the evaluation saw. -/
structure SnapshotCandidate where
  ownerConfirmationGranted : Bool := false
  explicitOperation : Option String := none
  explicitTargetMemoryId : Option ℕ := none
  explicitChangeType : Option String := none
  deriving Repr, DecidableEq

structure EvaluationSnapshot where
  candidateId : ℕ
  sourceTranscriptId : ℕ
  sourceTurnId : ℕ
  sourceRevision : ℕ
  memoryRevision : ℕ
  candidate : SnapshotCandidate := {}
  evidenceRefs : EvidenceRefs
  publicationAllowed : Bool
  deriving Repr, DecidableEq

structure PublisherConfig where
  shortTermReviewHours : ℕ := 24
  shortTermExpiryDays : ℕ := 14
  deriving Repr, DecidableEq

def PublisherConfig.clamped (c : PublisherConfig) : PublisherConfig :=
  ⟨max 1 (min c.shortTermReviewHours 168),max 1 (min c.shortTermExpiryDays 90)⟩

/-- The mutation result of a publication. -/
structure Published where
  mutated : Bool
  outcome : PublicationOutcome
  code : Option String := none
  memoryId : Option ℕ := none
  targetMemoryId : Option ℕ := none
  obligationId : Option ℕ := none
  conflictId : Option ℕ := none
  deriving Repr, DecidableEq

def idEntry (key : String) : Option ℕ → Dict
  | none => []
  | some id => [(key,.str (toString id))]

def Published.dict (p : Published) : Dict :=
  [("result",Json.str p.outcome.value)] ++ (p.code.map fun c => [("code",Json.str c)]).getD [] ++
    idEntry "memory_id" p.memoryId ++ idEntry "target_memory_id" p.targetMemoryId ++
    idEntry "obligation_id" p.obligationId ++ idEntry "conflict_id" p.conflictId

/-- What the branches of a publication share once the lease is established. -/
structure Publication where
  candidateId : ℕ
  attemptId : ℕ
  candidate : CandidateRow
  snapshot : EvaluationSnapshot
  decision : ReconciliationDecision
  primaryEvidenceTurnId : ℕ
  now : Time

/-- `a or b` for optional texts. -/
def textOr : Option String → Option String → Option String
  | some s, other => if s.isEmpty then other else some s
  | none, other => other

/-- `.scalar_one_or_none()`. -/
def atMostOne : List ℕ → Except Failure (Option ℕ)
  | [] => .ok none
  | [id] => .ok (some id)
  | _ => .error ⟨.runtimeError,"Multiple rows were found when one or none was required"⟩

def effectiveScopeKey (scope : Scope) (candidate : CandidateRow) : ScopeKey :=
  candidateScopeKey scope candidate.sourceTranscriptId

/-- `_target_applicable`. -/
def targetApplicable (target : DurableMemoryRow) (candidate : CandidateRow)
    (decisionScope : Option Scope) : Bool :=
  match decisionScope.getD candidate.scope with
  | .crossChat => target.scope == .crossChat
  | .chat => target.scope == .crossChat ||
      (target.scope == .chat && target.scopeKey == some (.chat candidate.sourceTranscriptId))
  | .project => false

/-- `_same_scope`. -/
def sameScope (target : DurableMemoryRow) (candidate : CandidateRow)
    (decisionScope : Option Scope) : Bool :=
  let scope := decisionScope.getD candidate.scope
  target.scope == scope && target.scopeKey == some (effectiveScopeKey scope candidate)

namespace Tables

/-- `_advance_candidate_state`. -/
def advanceCandidateState (s : Tables) (candidateId attemptId : ℕ) (candidate : CandidateRow)
    (attempt : AttemptRow) : Except Failure Tables :=
  if candidate.stateVersion ≠ attempt.candidateStateVersion then
    .error ⟨.candidateSnapshotError,"candidate state changed during worker advance"⟩
  else
    let next := candidate.stateVersion + 1
    .ok ((s.setCandidate candidateId fun row => {row with stateVersion := next}).setAttempt attemptId
      fun a => {a with candidateStateVersion := next})

/-- `_live_evidence_rows`. -/
def liveEvidenceRows (s : Tables) (candidateId : ℕ) (candidate : CandidateRow) : List EvidenceRow :=
  if s.evidenceLive candidateId candidate then
    (s.evidenceOf candidateId).insertionSort fun a b => a.ordinal ≤ b.ordinal
  else []

/-- `_add_candidate_lineage`; the flag says whether provenance was missing. -/
def addCandidateLineage (s : Tables) (memoryId candidateId : ℕ) : Tables × Bool :=
  let refs := s.evidenceOf candidateId
  let existing := (s.provenance.filter fun p =>
    p.memoryId == memoryId && p.relationship == "evidence_source").filterMap (·.sourceTurnId)
  let missing := refs.filter fun e => !existing.contains e.turnId
  if missing.isEmpty then (s,false)
  else
    let source : ProvenanceRow :=
      { memoryId := memoryId
        relationship := "candidate_source"
        sourceCandidateId := some candidateId }
    (s.addProvenance (source :: missing.map fun e =>
      { memoryId := memoryId
        relationship := "evidence_source"
        sourceCandidateId := some candidateId
        sourceTurnId := some e.turnId }),true)

end Tables

namespace Publication

/-- The end of an attempt together with what it does to its candidate. -/
def close (p : Publication) (s : Tables) (f : CandidateRow → CandidateRow) (status : String)
    (target : Option ℕ) (result : AttemptResult) : Tables :=
  (s.setCandidate p.candidateId fun row => f {row with leaseToken := none, leasedUntil := none}
    ).setAttempt p.attemptId fun a => {a with
      status := status
      completedAt := some p.now
      targetMemoryId := target.or a.targetMemoryId
      resultJson := result}

/-- `_complete_candidate`. -/
def complete (p : Publication) (s : Tables) (decision result : String) (target : Option ℕ) : Tables :=
  p.close s (fun row => {row with
    status := if decision = "discard" then .discarded else .reconciled
    processedAt := some p.now
    decisionJson := {decision := some decision, result := some result}}) "committed" target
    {result := some result}

/-- `_block`. -/
def block (p : Publication) (s : Tables) (code : String) : Tables × Published :=
  (p.close s (fun row => {row with
    status := .blocked
    processedAt := some p.now
    decisionJson := {decision := some "blocked", code := some code}}) "committed" none
    {result := some "blocked", code := some code},
  {mutated := false, outcome := .blocked, code := some code})

def activeIds (p : Publication) : List ℕ := p.snapshot.evidenceRefs.activeMemoryIds

def legacyIds (p : Publication) : List ℕ := p.snapshot.evidenceRefs.legacyUnverifiedTargetIds

def verificationRecordId (p : Publication) : Option ℕ := p.snapshot.evidenceRefs.reconciliationRecordId

def ownerAssertionTurnId (p : Publication) : Option ℕ := p.candidate.decisionJson.ownerAssertionTurnId

/-- The evaluated target, if it is one of the listed memories and its row exists. -/
def targetIn (p : Publication) (s : Tables) (listed : List ℕ) :
    Option (ℕ × Option DurableMemoryRow) :=
  match p.decision.targetMemoryId with
  | some id => if listed.contains id then some (id,s.memories[id]?) else none
  | none => none

def requeueSource (p : Publication) (s : Tables) : Tables × Published :=
  (p.close s (fun row => {row with status := .pending}) "source_conflict" none
    {result := some "source_conflict"},
  {mutated := false, outcome := .sourceConflict})

def discard (p : Publication) (s : Tables) : Tables × Published :=
  (p.complete s "discard" "discarded" none,{mutated := false, outcome := .discarded})

def retain (p : Publication) (config : PublisherConfig) (s : Tables) : Tables × Published :=
  let review := p.now + hours config.shortTermReviewHours
  let expires := p.candidate.expiresAt.getD (p.now + days config.shortTermExpiryDays)
  (p.close s (fun row => {row with
    status := .retainedShortTerm
    attemptCount := 0
    reviewAfter := some (min review expires)
    expiresAt := some expires
    processedAt := some p.now
    decisionJson := {decision := some "retain_short_term"}}) "committed" none
    {result := some "retained_short_term"},
  {mutated := false, outcome := .retainedShortTerm})

def awaitOwner (p : Publication) (s : Tables) : Tables × Published :=
  let imported := !(["conversation","owner_statement","owner_review_confirmation"].contains
    p.candidate.origin)
  let obligationId := s.obligations.length
  let s := {s with obligations := s.obligations ++ [{
    kind := if imported then .memoryReview else .memoryConfirmation
    subjectType := .memoryCandidate
    subjectId := some p.candidateId
    sourceTranscriptId := some p.candidate.sourceTranscriptId
    sourceTurnId := some p.candidate.sourceTurnId
    origin := p.candidate.origin
    expiresAt := if imported then none else some (p.now + days 7) }]}
  (p.close s (fun row => {row with
    status := .awaitingOwner
    processedAt := some p.now
    decisionJson := {
      decision := some "awaiting_owner"
      obligationId := some obligationId
      reasonCode := p.decision.reason}}) "awaiting_owner" none
    {result := some "awaiting_owner", obligationId := some obligationId,
      reasonCode := p.decision.reason},
  {mutated := true, outcome := .awaitingOwner, obligationId := some obligationId})

/-- The evaluated target of a conflict, or the code it is blocked with. -/
def conflict (p : Publication) (s : Tables) : Except Failure (Tables × Published) :=
  match p.targetIn s p.activeIds with
  | none => .ok (p.block s "target_not_in_evaluated_snapshot")
  | some (targetId,target) =>
      if !target.any (·.status == .active) then .ok (p.block s "conflict_target_invalid")
      else
        match p.verificationRecordId with
        | none => .error (valueError "badly formed hexadecimal UUID string")
        | some recordId => do
            let content ← cleanMemoryContent (textOr p.decision.content p.candidate.content) "content"
            let conflictId := s.conflicts.length
            let obligationId := s.obligations.length
            let conflict : ConflictRow :=
              { candidateId := p.candidateId
                reconciliationId := recordId
                targetMemoryId := targetId
                proposedContent := some content
                reasonCode := p.decision.reason }
            let obligation : ObligationRow :=
              { kind := .memoryConflict
                subjectType := .memoryConflict
                subjectId := some conflictId
                sourceTranscriptId := some p.candidate.sourceTranscriptId
                sourceTurnId := some p.candidate.sourceTurnId
                origin := p.candidate.origin
                resolutionJson := {triggerReason := p.decision.reason.bind orNone}
                expiresAt := some (p.now + days 14) }
            let s := {s with
              conflicts := s.conflicts ++ [conflict]
              obligations := s.obligations ++ [obligation]}
            .ok (p.close s (fun row => {row with
                status := .awaitingOwner
                processedAt := some p.now
                decisionJson := {
                  decision := some "conflicts_with"
                  targetMemoryId := some targetId
                  conflictId := some conflictId
                  obligationId := some obligationId}}) "awaiting_owner" (some targetId)
                { result := some "conflict"
                  targetMemoryId := some targetId
                  conflictId := some conflictId
                  obligationId := some obligationId },
              { mutated := true
                outcome := .conflict
                targetMemoryId := some targetId
                conflictId := some conflictId
                obligationId := some obligationId })

def equivalent (p : Publication) (s : Tables) : Tables × Published :=
  match p.targetIn s p.activeIds with
  | none => p.block s "target_not_in_evaluated_snapshot"
  | some (targetId,target) =>
      if !target.any fun m => m.status == .active && targetApplicable m p.candidate p.decision.scope then
        p.block s "equivalent_target_invalid"
      else
        let lineage := s.addCandidateLineage targetId p.candidateId
        let asserted := p.ownerAssertionTurnId.isSome
        let s := if asserted then
            (lineage.1.setMemory targetId fun m =>
              {m with ownerAssertionTurnId := p.ownerAssertionTurnId, updatedAt := p.now}).addProvenance
              [{ memoryId := targetId
                 relationship := "owner_confirmation"
                 sourceTurnId := p.ownerAssertionTurnId }]
          else lineage.1
        let added := lineage.2 || asserted
        let outcome : PublicationOutcome := if added then .lineageAdded else .alreadyRepresented
        (p.complete s "equivalent" outcome.value (some targetId),
          {mutated := added, outcome := outcome, memoryId := some targetId})

/-- The classification columns a publication writes, the record kind apart. -/
def classified (p : Publication) (row : DurableMemoryRow) : DurableMemoryRow :=
  let scope := p.decision.scope.getD p.candidate.scope
  {row with
    memoryKind := some ((p.decision.memoryKind.bind orNone).getD p.candidate.kind)
    scope := scope
    scopeKey := some (effectiveScopeKey scope p.candidate)
    durability := p.decision.durability.getD p.candidate.durability
    subject := p.candidate.subject
    nameSpace := p.candidate.nameSpace}

/-- The verified derived row that carries the proposed content. -/
def derivedRow (p : Publication) (content : String) (fingerprint : String) : DurableMemoryRow :=
  p.classified {
    status := .active
    recordKind := "derived"
    origin := "conversation_verification"
    groundingStatus := .verified
    verificationRecordId := p.verificationRecordId
    ownerAssertionTurnId := p.ownerAssertionTurnId
    originatingCandidateId := some p.candidateId
    content := some content
    fingerprint := some fingerprint
    sourceTranscriptId := some p.candidate.sourceTranscriptId
    sourceTurnId := some p.primaryEvidenceTurnId
    validFrom := p.decision.eventValidFrom
    validTo := p.decision.eventValidTo
    updatedAt := p.now }

def explicitOperation (p : Publication) : String := orEmpty p.snapshot.candidate.explicitOperation

def explicitChangeType (p : Publication) : String := orEmpty p.snapshot.candidate.explicitChangeType

def explicitTargetId (p : Publication) : Option ℕ := p.snapshot.candidate.explicitTargetMemoryId

/-- An owner correction of the wording, not of its validity over time. -/
def corrects (p : Publication) : Bool :=
  p.explicitOperation == "correct" && p.explicitChangeType == "correction"

/-- A lifecycle row that restricts the publication of a fingerprint. -/
def restricts (fingerprint : String) (m : DurableMemoryRow) : Bool :=
  m.fingerprint == some fingerprint && m.groundingStatus == .verified && m.suppressesRecall &&
    (m.status == .retired || m.status == .superseded)

def groundLegacy [PyRuntime] (p : Publication) (s : Tables) (content : String) :
    Except Failure (Tables × Published) :=
  match p.targetIn s p.legacyIds with
  | none => .ok (p.block s "legacy_target_not_in_evaluated_snapshot")
  | some (targetId,target) =>
      if !target.any fun m => m.status == .active && m.groundingStatus == .legacyUnverified &&
          !m.ownerDirected && m.derived && sameScope m p.candidate p.decision.scope then
        .ok (p.block s "legacy_grounding_target_invalid")
      else if (s.activeByFingerprint (memoryFingerprint content)).any (· ≠ targetId) then
        .ok (p.block s "legacy_grounding_duplicate_exists")
      else do
        let grounded := s.setMemory targetId fun m => p.classified {m with
          content := some content
          fingerprint := some (memoryFingerprint content)
          groundingStatus := .verified
          verificationRecordId := p.verificationRecordId
          ownerAssertionTurnId := p.ownerAssertionTurnId
          sourceTranscriptId := some p.candidate.sourceTranscriptId
          sourceTurnId := some p.primaryEvidenceTurnId
          validFrom := p.decision.eventValidFrom
          validTo := p.decision.eventValidTo
          updatedAt := p.now}.clearEmbedding
        let lineage := grounded.addCandidateLineage targetId p.candidateId
        let review ← atMostOne (ids (fun o => o.kind == .memoryReview && o.status == .pending &&
          o.subjectType == .durableMemory && o.subjectId == some targetId) s.obligations)
        let s := match review with
          | none => lineage.1
          | some id => lineage.1.setObligation id fun o => {o with
              status := .resolved
              resolutionCode := some "grounded_by_evidence"
              resolutionJson := {candidateId := some p.candidateId}
              resolvedAt := some p.now}
        .ok (p.complete s "ground_legacy" "legacy_grounded" (some targetId),
          {mutated := true, outcome := .legacyGrounded, memoryId := some targetId})

/-- Lineage of a predecessor that the graph already holds as a superseded row. -/
def historicalLineage (p : Publication) (s : Tables) (restrictionId targetId : ℕ) :
    Tables × Published :=
  let lineage := s.addCandidateLineage restrictionId p.candidateId
  let outcome : PublicationOutcome :=
    if lineage.2 then .historicalLineageAdded else .historicalAlreadyRepresented
  (p.complete lineage.1 "historical_predecessor" outcome.value (some targetId),
    { mutated := lineage.2
      outcome := outcome
      memoryId := some restrictionId
      targetMemoryId := some targetId })

def historicalPredecessor [PyRuntime] (p : Publication) (s : Tables) (content : String)
    (restriction : Option (ℕ × DurableMemoryRow)) : Tables × Published :=
  match p.targetIn s p.activeIds with
  | none => p.block s "target_not_in_evaluated_snapshot"
  | some (targetId,target) =>
      match target with
      | none => p.block s "historical_target_invalid"
      | some m =>
          if m.status ≠ .active ∨ !targetApplicable m p.candidate p.decision.scope then
            p.block s "historical_target_invalid"
          else
            match restriction with
            | some (restrictionId,r) =>
                if r.status ≠ .superseded ∨ r.ownerDirected ∨ !r.derived ∨
                    !targetApplicable r p.candidate p.decision.scope ∨
                    ¬ (r.supersededById = some targetId ∨ m.supersedesId = some restrictionId) then
                  p.block s "historical_lifecycle_restriction"
                else p.historicalLineage s restrictionId targetId
            | none =>
                let row := p.derivedRow content (memoryFingerprint content)
                let historicalId := s.memories.length
                let s := {s with memories := s.memories ++ [{row with
                  status := .superseded
                  suppressesRecall := true
                  supersededById := some targetId
                  validTo := m.validFrom}]}
                let lineage := s.addCandidateLineage historicalId p.candidateId
                let s := lineage.1.addProvenance [{
                  memoryId := historicalId
                  relationship := "historical_predecessor"
                  sourceMemoryId := some targetId}]
                (p.complete s "historical_predecessor" "historical_predecessor" (some targetId),
                  { mutated := true
                    outcome := .historicalPredecessor
                    memoryId := some historicalId
                    targetMemoryId := some targetId })

/-- The lifecycle row an explicit correction without an active target names. -/
def correctionGuard (p : Publication) (s : Tables) : Option (ℕ × DurableMemoryRow) :=
  if p.explicitOperation ≠ "correct" then none
  else p.explicitTargetId.bind fun id => (s.memories[id]?).map fun m => (id,m)

def create [PyRuntime] (p : Publication) (s : Tables) (content : String) : Tables × Published :=
  if (s.activeByFingerprint (memoryFingerprint content)).isSome then
    p.block s "create_target_already_exists"
  else
    let target := p.correctionGuard s
    if target.any fun t => t.2.status == .active then
      p.block s "explicit_correction_target_not_reconciled"
    else
      let guardId := (target.filter fun t => (t.2.status == .retired || t.2.status == .superseded) &&
        t.2.recordKind == "owner_correction_guard").map (·.1)
      let row := p.derivedRow content (memoryFingerprint content)
      let (s',memoryId,created) := s.createActive content {row with
        supersedesId := guardId
        validFrom := if p.corrects then none else row.validFrom}
      if !created then p.block s "derived_create_refused"
      else
        let lineage := s'.addCandidateLineage memoryId p.candidateId
        let s := match guardId with
          | none => lineage.1
          | some id =>
              (lineage.1.setMemory id fun m =>
                {m with supersededById := some memoryId, updatedAt := p.now}).addProvenance
                [{ memoryId := memoryId
                   relationship := if p.explicitChangeType = "correction" then "corrects"
                     else "supersedes"
                   sourceMemoryId := some id }]
        (p.complete s "create" "created" (some memoryId),
          {mutated := true, outcome := .created, memoryId := some memoryId})

/-- The branch of the decisions `merge` and `supersede`. -/
def replace [PyRuntime] (p : Publication) (s : Tables) (content : String) : Tables × Published :=
  match p.targetIn s p.activeIds with
  | none => p.block s "target_not_in_evaluated_snapshot"
  | some (targetId,target) =>
      let explicitTarget := p.explicitOperation == "correct" && p.explicitTargetId.isSome
      if explicitTarget && p.explicitTargetId != some targetId then
        p.block s "explicit_correction_target_mismatch"
      else if !target.any fun m => m.status == .active &&
          (explicitTarget || (!m.ownerDirected && m.derived)) &&
          sameScope m p.candidate p.decision.scope &&
          m.memoryKind.all (· == (p.decision.memoryKind.bind orNone).getD p.candidate.kind) then
        p.block s "derived_target_invalid"
      else
        match s.activeByFingerprint (memoryFingerprint content) with
        | some existing =>
            if existing ≠ targetId then p.block s "replacement_already_exists"
            else p.block s "replacement_unchanged"
        | none =>
            let row := p.derivedRow content (memoryFingerprint content)
            let (s',replacementId,created) := s.createActive content {row with
              supersedesId := some targetId
              validFrom := if p.corrects then none else row.validFrom}
            if !created || replacementId == targetId then p.block s "derived_replacement_refused"
            else
              let superseded := s'.setMemory targetId fun m => {m with
                status := .superseded
                suppressesRecall := true
                supersededById := some replacementId
                validTo := if p.corrects then m.validTo
                  else some (p.decision.eventValidFrom.getD p.now)
                updatedAt := p.now}.clearEmbedding
              let lineage := superseded.addCandidateLineage replacementId p.candidateId
              let s := lineage.1.addProvenance [{
                memoryId := replacementId
                relationship := if p.corrects then "corrects"
                  else if p.decision.decision = .merge then "merged_from" else "supersedes"
                sourceMemoryId := some targetId}]
              (p.complete s p.decision.decision.value "created" (some replacementId),
                { mutated := true
                  outcome := if p.decision.decision = .merge then .merge else .supersede
                  memoryId := some replacementId
                  targetMemoryId := some targetId })

/-- The newest lifecycle row that restricts this content. -/
def restriction [PyRuntime] (_ : Publication) (s : Tables) (content : String) :
    Option (ℕ × DurableMemoryRow) :=
  (newest (·.updatedAt) (restricts (memoryFingerprint content)) s.memories).bind fun id =>
    (s.memories[id]?).map fun m => (id,m)

/-- The decisions that write content, once the restriction check has passed. -/
def write [PyRuntime] (p : Publication) (s : Tables) : Except Failure (Tables × Published) := do
  let content ← cleanMemoryContent (textOr p.decision.content p.candidate.content) "content"
  let restriction := p.restriction s content
  if restriction.any fun r => r.2.status == .retired ||
      p.decision.decision != .historicalPredecessor then
    .ok (p.block s "owner_lifecycle_restriction")
  else
    match p.decision.decision with
    | .groundLegacy => p.groundLegacy s content
    | .historicalPredecessor => .ok (p.historicalPredecessor s content restriction)
    | .create => .ok (p.create s content)
    | .merge | .supersede => .ok (p.replace s content)
    | _ => .ok (p.block s "unsupported_semantic_decision")

/-- Whether the recorded owner assertion can still ground the publication. -/
def assertionInvalid (p : Publication) (s : Tables) : Bool :=
  p.ownerAssertionTurnId.any fun id =>
    match s.turns[id]? with
    | none => true
    | some turn => turn.deletedAt.isSome || turn.actor != .owner

/-- The decision of a claim whose lease and evidence hold. -/
def decide [PyRuntime] (p : Publication) (config : PublisherConfig) (s : Tables) :
    Except Failure (Tables × Published) :=
  let sourceStale :=
    match s.transcripts[p.snapshot.sourceTranscriptId]?, s.turns[p.snapshot.sourceTurnId]? with
    | some transcript, some _ => transcript.contentRevision != p.snapshot.sourceRevision
    | _, _ => true
  let durable := p.decision.decision == .create || p.decision.decision == .merge ||
    p.decision.decision == .supersede
  if sourceStale then .ok (p.requeueSource s)
  else if p.decision.decision = .discard then .ok (p.discard s)
  else if p.decision.decision = .retainShortTerm then .ok (p.retain config s)
  else if !p.snapshot.publicationAllowed then .ok (p.block s "scope_not_publishable")
  else if p.decision.durability.getD p.candidate.durability = .shortTerm ∧ durable then
    .ok (p.block s "short_term_not_durable")
  else if p.assertionInvalid s then .ok (p.block s "owner_assertion_evidence_invalid")
  else
    match p.decision.decision with
    | .awaitOwner => .ok (p.awaitOwner s)
    | .conflict => p.conflict s
    | .equivalent => .ok (p.equivalent s)
    | _ => p.write s

end Publication

/-- The guard of a publication before its lease is examined. -/
def leaseMismatch (claim : CandidateLease) (candidate : Option CandidateRow) (attempt : AttemptRow) :
    Bool :=
  attempt.leaseToken != claim.leaseToken || attempt.completedAt.isSome ||
    candidate.any fun c => c.stateVersion != attempt.candidateStateVersion

namespace Tables

/-- The mutation of a publication. -/
def publishMutate [PyRuntime] (s : Tables) (config : PublisherConfig) (claim : CandidateLease)
    (snapshot : EvaluationSnapshot) (decision : ReconciliationDecision) (operationId : OperationId)
    (now : Time) : Except Failure (Tables × Published) :=
  match s.attempts[claim.attemptId]? with
  | none => .error (valueError "reconciliation attempt disappeared")
  | some attempt =>
      let candidate := s.candidates[claim.candidateId]?
      if leaseMismatch claim candidate attempt then
        .ok (s,{mutated := false, outcome := .leaseConflict})
      else
        let s := s.setAttempt claim.attemptId fun a => {a with
          operationId := some operationId
          semanticDecision := some decision.decision.value
          targetMemoryId := decision.targetMemoryId}
        let close (status : String) (result : AttemptResult) (s : Tables) : Tables :=
          s.setAttempt claim.attemptId fun a => {a with
            status := status
            completedAt := some now
            resultJson := result}
        match candidate with
        | none =>
            .ok (close "lease_conflict" {result := some "lease_conflict"} s,
              {mutated := false, outcome := .leaseConflict})
        | some candidate =>
            if candidate.invalidatedAt.isSome ∨ candidate.content.isNone ∨
                candidate.fingerprint.isNone ∨ candidate.status = .invalidated then
              let s := if candidate.leaseToken = some claim.leaseToken then
                  s.setCandidate claim.candidateId fun row => {row.cleared with
                    status := .invalidated
                    processedAt := some now}
                else s
              .ok (close "invalidated" {result := some "invalidated"} s,
                {mutated := false, outcome := .invalidated})
            else if candidate.status ≠ .leased ∨ candidate.leaseToken ≠ some claim.leaseToken ∨
                candidate.leasedUntil.all (· ≤ now) then
              .ok (close "lease_conflict" {result := some "lease_conflict"} s,
                {mutated := false, outcome := .leaseConflict})
            else
              let rows := s.liveEvidenceRows claim.candidateId candidate
              match rows with
              | [] =>
                  let s := s.setCandidate claim.candidateId fun row => {row.cleared with
                    status := .invalidated
                    invalidatedAt := some now
                    processedAt := some now
                    decisionJson := {
                      decision := some "invalidated"
                      code := some "evidence_unavailable"}}
                  .ok (close "invalidated" {
                      result := some "invalidated"
                      code := some "evidence_unavailable"} s,
                    { mutated := false
                      outcome := .invalidated
                      code := some "evidence_unavailable" })
              | first :: _ => do
                  let primary := ((rows.find? fun e => e.principal == "owner").getD first).turnId
                  let s ← s.advanceCandidateState claim.candidateId claim.attemptId candidate attempt
                  Publication.decide ⟨claim.candidateId,claim.attemptId,candidate,snapshot,decision,
                    primary,now⟩ config s

/-- `mutate_and_settle`. -/
def publishAndSettle [PyRuntime] (s : Tables) (config : PublisherConfig) (claim : CandidateLease)
    (snapshot : EvaluationSnapshot) (decision : ReconciliationDecision) (operationId : OperationId)
    (now : Time) : Except Failure (Tables × Published) :=
  (s.publishMutate config claim snapshot decision operationId now).map fun r =>
    if r.2.outcome.terminal then
      (r.1.settleExplicitObligation claim.candidateId now r.2.memoryId r.2.code none,r.2)
    else r

end Tables

def publishEnvelope (claim : CandidateLease) (snapshot : EvaluationSnapshot)
    (decision : ReconciliationDecision) (operationId : OperationId) :
    SharedWrites.Envelope OperationId :=
  { operationId := operationId
    resourceType := memoryResource.1
    resourceId := memoryResource.2
    operation := "reconcile_candidate"
    expectedVersion := some snapshot.memoryRevision
    payload := .obj [
      ("candidate_id",.str (toString claim.candidateId)),
      ("attempt_id",.str (toString claim.attemptId)),
      ("lease_token",.str (toString claim.leaseToken)),
      ("semantic_decision",.str decision.decision.value),
      ("target_memory_id",
        (decision.targetMemoryId.map fun id => Json.str (toString id)).getD .null)]
    actor := "memory_reconciler"
    sourceTranscriptId := some snapshot.sourceTranscriptId
    sourceTurnId := some snapshot.sourceTurnId
    sourceRunId := none
    resourceType_bounds := memoryResource_type
    resourceId_bounds := memoryResource_id
    operation_bounds := by decide
    actor_bounds := by decide }

/-- `DerivedMemoryPublisher.publish`. -/
def publish [PyRuntime] (w : State) (config : PublisherConfig) (claim : CandidateLease)
    (snapshot : EvaluationSnapshot) (decision : ReconciliationDecision) (operationId : OperationId)
    (now : Time) : SharedWrites.Attempted OperationId Dict Tables Failure :=
  SharedWrites.execute w (publishEnvelope claim snapshot decision operationId) fun s _ =>
    (checked (s.publishAndSettle config.clamped claim snapshot decision operationId now)).map
      fun r => (⟨r.2.mutated,r.2.dict⟩,r.1)

end Memory
end Atlas
