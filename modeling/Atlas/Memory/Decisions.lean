import Atlas.Memory.Lifecycle

/-! Owner decisions on memory obligations: confirmations and rejections of candidates,
retries of explicit commands, legacy reviews and conflicts. -/
namespace Atlas
namespace Memory

open RowTable

inductive OwnerDecision where
  | confirm
  | reject
  | retry
  | keepCurrent
  | acceptCompeting
  | restate
  deriving Repr, DecidableEq

def OwnerDecision.value : OwnerDecision → String
  | .confirm => "confirm"
  | .reject => "reject"
  | .retry => "retry"
  | .keepCurrent => "keep_current"
  | .acceptCompeting => "accept_competing"
  | .restate => "restate"

/-- `_CONFLICT_DECISIONS`. -/
def OwnerDecision.conflict : OwnerDecision → Bool
  | .keepCurrent | .acceptCompeting | .restate => true
  | _ => false

/-- A conflict with one of the `_CONFLICT_RESOLVABLE_STATUSES`. -/
def ConflictRow.resolvable (c : ConflictRow) : Bool :=
  c.status == "open" || c.status == "expired_unresolved"

structure ResolveArguments where
  obligationId : ℕ
  decision : OwnerDecision
  content : Option String := none
  changeType : Option String := none
  reviewVersion : Option String := none
  deriving Repr, DecidableEq

/-- What the owner's caller is told. -/
structure Resolution where
  result : String
  candidateId : Option ℕ := none
  memoryId : Option ℕ := none
  reviewVersion : Option String := none
  queued : Option Queued := none
  deriving Repr, DecidableEq

section

variable [PyRuntime]

/-- `_review_version`. -/
def reviewVersion (subjectType : String) (subjectId : ℕ) (text state : String) : String :=
  PyRuntime.sha256 (subjectType ++ ":" ++ toString subjectId ++ ":" ++ state ++ ":" ++ text)

def candidateReviewVersion (id : ℕ) (row : CandidateRow) (text : String) : String :=
  reviewVersion "memory_candidate" id text
    (row.status.value ++ ":" ++ toString row.stateVersion ++ ":" ++ orEmpty row.fingerprint ++ ":" ++
      orEmpty row.evidenceSetHash)

def memoryReviewVersion (id : ℕ) (row : DurableMemoryRow) (text : String) : String :=
  reviewVersion "durable_memory" id text
    (row.status.value ++ ":" ++ row.groundingStatus.value ++ ":" ++ orEmpty row.fingerprint ++ ":" ++
      PyRuntime.isoformat row.updatedAt)

/-- The cleaned text, empty if there is none. -/
def cleanedOrEmpty (value : Option String) : Except Failure String :=
  match value.bind orNone with
  | none => .ok ""
  | some text => cleanMemoryContent (some text) "content"

/-- `conflict_review_version`. -/
def conflictReviewVersion (id : ℕ) (conflict : ConflictRow) (target : DurableMemoryRow)
    (candidate : Option CandidateRow) : Except Failure String := do
  let targetText ← cleanedOrEmpty target.content
  let competing ← cleanedOrEmpty conflict.proposedContent
  .ok (reviewVersion "memory_conflict" id (targetText ++ "\n---\n" ++ competing)
    (conflict.status ++ ":" ++ target.status.value ++ ":" ++ target.groundingStatus.value ++ ":" ++
      orEmpty target.fingerprint ++ ":" ++ PyRuntime.isoformat target.updatedAt ++ ":" ++
      ((candidate.map (·.status.value)).getD "") ++ ":" ++
      toString ((candidate.map (·.stateVersion)).getD 0)))

namespace Tables

/-- The confirmation branch of `resolve_obligation`. -/
def confirmCandidate (s : Tables) (obligationId candidateId : ℕ) (candidate : CandidateRow)
    (content : Option String) (now : Time) : Except Failure Tables := do
  let asserted ← cleanMemoryContent (content.or candidate.content) "content"
  let (s,transcriptId,turnId) ← s.appendOwnerAssertionTurn asserted now
  let rows := s.evidenceOf candidateId
  let ordinal := (rows.map (·.ordinal + 1)).foldl max 0
  let assertion : EvidenceRow :=
    { candidateId := candidateId
      turnId := turnId
      principal := "owner"
      ordinal := ordinal
      spanRef := "text:0" }
  let s := {s with evidence := s.evidence ++ [assertion]}
  let s := s.setObligation obligationId fun o => {o with
    status := .resolved
    resolvedAt := some now
    resolutionSourceTranscriptId := some transcriptId
    resolutionSourceTurnId := some turnId
    resolutionCode := some "confirmed"
    resolutionJson := {candidateId := some candidateId}}
  .ok (s.setCandidate candidateId fun row => {row.cleared with
    stateVersion := row.stateVersion + 1
    evidenceSetHash := some (evidenceSetHash
      (rows.map (fun e => (e.turnId,e.spanRef)) ++ [(turnId,"text:0")]))
    status := .pending
    attemptCount := 0
    processedAt := none
    decisionJson := {
      decision := some "owner_confirmed"
      ownerConfirmationGranted := true
      ownerAssertionTurnId := some turnId
      ownerAssertionTranscriptId := some transcriptId
      obligationId := some obligationId}})

/-- The rejection branch of `resolve_obligation`. -/
def rejectCandidate (s : Tables) (obligationId candidateId : ℕ) (source : OwnerSource) (now : Time) :
    Tables :=
  ((s.setObligation obligationId fun o => {o with
    status := .resolved
    resolvedAt := some now
    resolutionSourceTranscriptId := source.1
    resolutionSourceTurnId := source.2
    resolutionCode := some "rejected"
    resolutionJson := {candidateId := some candidateId}}).setCandidate candidateId fun row =>
      {row.cleared with
        stateVersion := row.stateVersion + 1
        status := .rejected
        processedAt := some now
        decisionJson := {
          decision := some "rejected"
          code := some "owner_rejected_confirmation"
          obligationId := some obligationId}}).settleExplicitObligation candidateId now none
            (some "owner_rejected_confirmation") none

/-- The branch of `resolve_obligation` for a confirmation that is already due. -/
def expireConfirmation (s : Tables) (obligationId candidateId : ℕ) (now : Time) : Tables :=
  ((s.setObligation obligationId fun o => {o with
    status := .resolved
    resolutionCode := some "expired_unconfirmed"
    resolutionJson := {}
    resolvedAt := some now}).setCandidate candidateId fun row => {row with
      stateVersion := row.stateVersion + 1
      status := .expired
      processedAt := some now
      decisionJson := {decision := some "expired", code := some "owner_confirmation_expired"}}
    ).settleExplicitObligation candidateId now none (some "owner_confirmation_expired") none

/-- The confirmation or review of a candidate. -/
def resolveCandidate (s : Tables) (arguments : ResolveArguments) (obligation : ObligationRow)
    (source : OwnerSource) (now : Time) : Except Failure (Tables × Resolution) :=
  if arguments.decision = .retry then
    .error (valueError "candidate confirmation does not support retry")
  else
    match obligation.subjectId.bind fun id => (s.candidates[id]?).map fun c => (id,c) with
    | none => .error (lookupError "memory candidate for obligation not found")
    | some (candidateId,candidate) => do
        let text ← cleanMemoryContent candidate.content "content"
        let version := candidateReviewVersion candidateId candidate text
        if arguments.reviewVersion ≠ some version then
          .ok (s,{result := "stale_review", reviewVersion := some version})
        else if obligation.expiresAt.any (· ≤ now) then
          .ok (s.expireConfirmation arguments.obligationId candidateId now,{result := "expired"})
        else if arguments.decision = .confirm then do
          let s ← s.confirmCandidate arguments.obligationId candidateId candidate arguments.content now
          .ok (s,{result := "requeued_for_reconciliation", candidateId := some candidateId})
        else
          .ok (s.rejectCandidate arguments.obligationId candidateId source now,
            {result := "rejected", candidateId := some candidateId})

/-- Whether every turn a candidate cites still exists and is not deleted. -/
def evidenceTurnsLive (s : Tables) (candidateId : ℕ) : Bool :=
  !(s.evidenceOf candidateId).isEmpty && (s.evidenceOf candidateId).all fun e =>
    (s.turns[e.turnId]?).any (·.deletedAt.isNone)

/-- A failed candidate whose evidence is gone when the owner retries it. -/
def invalidateRetried (s : Tables) (candidateId : ℕ) (now : Time) : Tables :=
  (s.setCandidate candidateId fun row => {row with
    stateVersion := row.stateVersion + 1
    status := .invalidated
    invalidatedAt := some now
    processedAt := some now
    decisionJson := {decision := some "invalidated", code := some "evidence_unavailable"}}
    ).settleExplicitObligation candidateId now none (some "evidence_unavailable") none

/-- A failed candidate goes back to the queue at the owner's request. -/
def retryCandidate (s : Tables) (obligationId candidateId : ℕ) (obligation : ObligationRow)
    (source : OwnerSource) : Tables :=
  let retries := obligation.resolutionJson.ownerRetries.getD 0 + 1
  (s.setCandidate candidateId fun row => {row.cleared with
    stateVersion := row.stateVersion + 1
    status := .pending
    attemptCount := 0
    processedAt := none
    decisionJson := {
      decision := some "owner_retry"
      obligationId := some obligationId
      ownerRetries := some retries}}).setObligation obligationId fun o => {o with
        resolutionJson := {o.resolutionJson with ownerRetries := some retries}
        resolutionSourceTranscriptId := source.1
        resolutionSourceTurnId := source.2}

/-- `_retry_explicit_obligation`. -/
def retryExplicitObligation (s : Tables) (arguments : ResolveArguments) (obligation : ObligationRow)
    (source : OwnerSource) (now : Time) : Except Failure (Tables × Resolution) :=
  if arguments.decision ≠ .retry then
    .error (valueError "explicit remember/correct obligations support only retry")
  else if obligation.subjectType ≠ .memoryCandidate then
    .error (valueError "this explicit command obligation has no retryable candidate")
  else
    match obligation.subjectId.bind fun id => (s.candidates[id]?).map fun c => (id,c) with
    | none => .error (lookupError "memory candidate for obligation not found")
    | some (candidateId,candidate) =>
        if candidate.status.reconcilable then
          .ok (s,{result := "already_queued", candidateId := some candidateId})
        else if candidate.status ≠ .failed then
          .ok (s,{result := "not_retryable", candidateId := some candidateId})
        else do
          let text ← cleanedOrEmpty candidate.content
          let version := candidateReviewVersion candidateId candidate text
          if arguments.reviewVersion ≠ some version then
            .ok (s,{result := "stale_review", reviewVersion := some version})
          else if !s.evidenceTurnsLive candidateId ∨ candidate.content.isNone ∨
              candidate.fingerprint.isNone then
            .ok (s.invalidateRetried candidateId now,
              {result := "evidence_unavailable", candidateId := some candidateId})
          else
            .ok (s.retryCandidate arguments.obligationId candidateId obligation source,
              {result := "requeued_for_reconciliation", candidateId := some candidateId})

/-- The transaction of `resolve_obligation` for obligations about candidates. -/
def resolveObligationIn (s : Tables) (arguments : ResolveArguments) (source : OwnerSource)
    (now : Time) : Except Failure (Tables × Resolution) :=
  match s.obligations[arguments.obligationId]? with
  | none => .error (lookupError "memory obligation not found")
  | some obligation =>
      if obligation.status ≠ .pending then .ok (s,{result := "already_resolved"})
      else if obligation.kind.explicit then s.retryExplicitObligation arguments obligation source now
      else if (obligation.kind ≠ .memoryConfirmation ∧ obligation.kind ≠ .memoryReview) ∨
          obligation.subjectType ≠ .memoryCandidate then
        .error (valueError "this obligation requires a different resolution flow")
      else s.resolveCandidate arguments obligation source now

/-- The rejection of a legacy review. -/
def rejectReview (s : Tables) (obligationId targetId : ℕ) (now : Time) : Tables :=
  (s.setObligation obligationId fun o => {o with
    status := .resolved
    resolvedAt := some now
    resolutionCode := some "rejected"
    resolutionJson := {memoryId := some targetId}}).setMemory targetId fun m =>
      if m.status = .active then retiredRow now m else m

/-- The confirmation of a legacy review, with the owner's wording as evidence. -/
def confirmReview (s : Tables) (obligationId targetId : ℕ) (asserted : String) (now : Time) :
    Except Failure Tables := do
  let fingerprint := memoryFingerprint asserted
  if (s.activeByFingerprint fingerprint).any (· ≠ targetId) then
    .error (valueError "confirmed review wording already exists as another active memory")
  else
    let (s,transcriptId,turnId) ← s.appendOwnerAssertionTurn asserted now
    let s := s.setMemory targetId fun m => {m with
      content := some asserted
      fingerprint := some fingerprint
      groundingStatus := .verified
      verificationRecordId := none
      ownerAssertionTurnId := some turnId
      sourceTranscriptId := some transcriptId
      sourceTurnId := some turnId
      updatedAt := now}.clearEmbedding
    .ok ((s.addProvenance [{
      memoryId := targetId
      relationship := "owner_review_confirmed"
      sourceTurnId := some turnId}]).setObligation obligationId fun o => {o with
        status := .resolved
        resolvedAt := some now
        resolutionSourceTranscriptId := some transcriptId
        resolutionSourceTurnId := some turnId
        resolutionCode := some "confirmed"
        resolutionJson := {memoryId := some targetId}})

/-- The mutation of `_resolve_memory_review`. -/
def resolveReviewMutate (arguments : ResolveArguments) (now : Time) (s : Tables) :
    Except Failure (Tables × Bool × Resolution) :=
  match s.obligations[arguments.obligationId]? with
  | none => .error (lookupError "memory obligation not found")
  | some obligation =>
      if obligation.status ≠ .pending then .ok (s,false,{result := "already_resolved"})
      else if obligation.kind ≠ .memoryReview ∨ obligation.subjectType ≠ .durableMemory then
        .error (valueError "obligation is not a durable-memory review")
      else
        match obligation.subjectId with
        | none => .error (lookupError "memory review target is missing")
        | some targetId =>
            match s.memories[targetId]? with
            | none => .error (lookupError "memory review target not found")
            | some target => do
                let text ← cleanMemoryContent target.content "content"
                let version := memoryReviewVersion targetId target text
                if arguments.reviewVersion ≠ some version then
                  .ok (s,false,{result := "stale_review", reviewVersion := some version})
                else if arguments.decision = .reject then
                  .ok (s.rejectReview arguments.obligationId targetId now,true,
                    {result := "rejected", memoryId := some targetId})
                else
                  let asserted ← cleanMemoryContent (arguments.content.or target.content) "content"
                  let s ← s.confirmReview arguments.obligationId targetId asserted now
                  .ok (s,true,{result := "confirmed", memoryId := some targetId})

/-- The candidate of a decided conflict, rejected if it still waits for the owner. -/
def rejectConflicting (s : Tables) (candidateId : ℕ) (decision : DecisionJson) (code : String)
    (resolution : Option String) (now : Time) : Tables :=
  match s.candidates[candidateId]? with
  | none => s
  | some row =>
      if row.status ≠ .awaitingOwner then s
      else
        (s.setCandidate candidateId fun row => {row.cleared with
          stateVersion := row.stateVersion + 1
          status := .rejected
          processedAt := some now
          decisionJson := decision}).settleExplicitObligation candidateId now none (some code)
            resolution

/-- The `keep_current` branch of `_resolve_memory_conflict`. -/
def keepCurrent (s : Tables) (obligationId conflictId : ℕ) (conflict : ConflictRow)
    (source : OwnerSource) (now : Time) : Tables :=
  let s := (s.setConflict conflictId fun c => {c with
    status := "resolved_keep_current"
    resolvedAt := some now}).rejectConflicting conflict.candidateId
      { decision := some "rejected"
        code := some "owner_kept_current"
        conflictId := some conflictId
        obligationId := some obligationId } "owner_kept_current" none now
  ((s.addProvenance [{
    memoryId := conflict.targetMemoryId
    relationship := "owner_conflict_kept_current"
    sourceCandidateId := some conflict.candidateId}]).setMemory conflict.targetMemoryId fun m =>
      {m with updatedAt := now}).setObligation obligationId fun o => {o with
        status := .resolved
        resolvedAt := some now
        resolutionSourceTranscriptId := source.1
        resolutionSourceTurnId := source.2
        resolutionCode := some "keep_current"
        resolutionJson := {
          conflictId := some conflictId
          targetMemoryId := some conflict.targetMemoryId
          candidateId := some conflict.candidateId}}

/-- The wording an accepted or restated conflict replaces its target with. -/
def conflictReplacement (arguments : ResolveArguments) (conflict : ConflictRow)
    (target : DurableMemoryRow) : Except Failure String := do
  let replacement ←
    if arguments.decision = .restate then
      match arguments.content with
      | none => Except.error (valueError "restate requires content")
      | some content => cleanMemoryContent (some content) "content"
    else
      match conflict.proposedContent.bind orNone with
      | none => Except.error (valueError
          "the competing claim is no longer available; restate the correct wording")
      | some content => cleanMemoryContent (some content) "content"
  if some (memoryFingerprint replacement) = target.fingerprint then
    .error (valueError "the wording equals the current memory; use keep_current")
  else .ok replacement

def replaceInConflict (s : Tables) (arguments : ResolveArguments) (changeType : String)
    (conflictId : ℕ) (conflict : ConflictRow) (target : DurableMemoryRow) (source : OwnerSource)
    (now : Time) : Except Failure (Tables × Queued) := do
  let replacement ← conflictReplacement arguments conflict target
  let (s,queued) ← s.queueExplicitContentCommandIn
    { operation := "correct"
      content := replacement
      classification := targetClassification (some target)
      targetMemoryId := some conflict.targetMemoryId
      changeType := some changeType
      suppressionContent := target.content } source now
  let s := (s.setConflict conflictId fun c => {c with
    status := "resolved_" ++ arguments.decision.value
    resolvedAt := some now}).rejectConflicting conflict.candidateId
      { decision := some "rejected"
        code := some "owner_resolved_conflict"
        conflictId := some conflictId
        obligationId := some arguments.obligationId
        supersededByCommandId := some queued.commandId } "owner_resolved_conflict"
      (some "superseded") now
  .ok (s.setObligation arguments.obligationId fun o => {o with
    status := .resolved
    resolvedAt := some now
    resolutionSourceTranscriptId := source.1
    resolutionSourceTurnId := source.2
    resolutionCode := some arguments.decision.value
    resolutionJson := {
      conflictId := some conflictId
      targetMemoryId := some conflict.targetMemoryId
      candidateId := some conflict.candidateId
      commandId := some queued.commandId
      correctionCandidateId := some queued.candidateId
      correctionObligationId := some queued.obligationId
      changeType := some changeType}},queued)

/-- The mutation of `_resolve_memory_conflict`. -/
def resolveConflictMutate (arguments : ResolveArguments) (changeType : String) (source : OwnerSource)
    (now : Time) (s : Tables) : Except Failure (Tables × Bool × Resolution) :=
  match s.obligations[arguments.obligationId]? with
  | none => .error (lookupError "memory obligation not found")
  | some obligation =>
      if obligation.kind ≠ .memoryConflict ∨ obligation.subjectType ≠ .memoryConflict ∨
          obligation.subjectId.isNone then
        .error (valueError "obligation is not a memory conflict")
      else
        match obligation.subjectId.bind fun id => (s.conflicts[id]?).map fun c => (id,c) with
        | none => .error (lookupError "memory conflict not found")
        | some (conflictId,conflict) =>
            if !conflict.resolvable then .ok (s,false,{result := "already_resolved"})
            else
              match (s.memories[conflict.targetMemoryId]?).filter fun m =>
                  m.status == .active && m.content.isSome with
              | none => .error (valueError "conflict target is no longer active")
              | some target => do
                  let version ← conflictReviewVersion conflictId conflict target
                    s.candidates[conflict.candidateId]?
                  if arguments.reviewVersion ≠ some version then
                    .ok (s,false,{result := "stale_review", reviewVersion := some version})
                  else
                    let _ ← cleanMemoryContent target.content "content"
                    if arguments.decision = .keepCurrent then
                      .ok (s.keepCurrent arguments.obligationId conflictId conflict source now,true,
                        {result := "keep_current", memoryId := some conflict.targetMemoryId})
                    else
                      let r ← s.replaceInConflict arguments changeType conflictId conflict target
                        source now
                      .ok (r.1,true,
                        { result := "queued_for_verification"
                          candidateId := some r.2.candidateId
                          queued := some r.2 })

end Tables

def Resolution.dict (r : Resolution) : Dict :=
  [("result",Json.str r.result)] ++ idEntry "candidate_id" r.candidateId ++
    idEntry "memory_id" r.memoryId

def decisionEnvelope (operationId : OperationId) (prefixed : String) (arguments : ResolveArguments)
    (source : OwnerSource) (h : 1 ≤ prefixed.length ∧ prefixed.length ≤ 64) :
    SharedWrites.Envelope OperationId :=
  { operationId := operationId
    resourceType := memoryResource.1
    resourceId := memoryResource.2
    operation := prefixed
    expectedVersion := none
    payload := .obj [("obligation_id",.str (toString arguments.obligationId)),
      ("decision",.str arguments.decision.value)]
    actor := "owner"
    sourceTranscriptId := source.1
    sourceTurnId := source.2
    sourceRunId := none
    resourceType_bounds := memoryResource_type
    resourceId_bounds := memoryResource_id
    operation_bounds := h
    actor_bounds := owner_actor }

omit [PyRuntime] in
theorem conflictOperation_bounds (d : OwnerDecision) :
    1 ≤ ("memory_conflict_" ++ d.value).length ∧ ("memory_conflict_" ++ d.value).length ≤ 64 := by
  cases d <;> decide

omit [PyRuntime] in
theorem reviewOperation_bounds (d : OwnerDecision) :
    1 ≤ ("memory_review_" ++ d.value).length ∧ ("memory_review_" ++ d.value).length ≤ 64 := by
  cases d <;> decide

/-- A decision's mutation as the coordinator calls it. -/
def decisionMutation (mutate : Tables → Except Failure (Tables × Bool × Resolution)) (s : Tables)
    (_ : ℕ) : Except Failure (SharedWrites.Mutation Dict × Tables) :=
  (checked (mutate s)).map fun r => (⟨r.2.1,r.2.2.dict⟩,r.1)

def decided (attempted : SharedWrites.Attempted OperationId Dict Tables Failure) :
    State × Except Failure Dict :=
  (attempted.world,(attempted.receipt.mapError writeFailure).map fun r => r.result.getD [])

/-- `resolve_obligation`; the operation id is the fresh one of the decisions that are shared
writes. -/
def resolveObligation (w : State) (arguments : ResolveArguments) (currentTranscript : Option ℕ)
    (operationId : OperationId) (now : Time) : State × Except Failure Dict :=
  let source := w.data.latestOwnerSource currentTranscript
  match w.data.obligations[arguments.obligationId]? with
  | none => (w,.error (lookupError "memory obligation not found"))
  | some preview =>
      if preview.kind = .memoryConflict then
        let changeType := (arguments.changeType.bind orNone).getD "correction"
        if !arguments.decision.conflict then
          (w,.error (valueError
            "memory conflicts require keep_current, accept_competing, or restate"))
        else if changeType ≠ "correction" ∧ changeType ≠ "change_over_time" then
          (w,.error (valueError "invalid change_type"))
        else decided (SharedWrites.execute w
          (decisionEnvelope operationId ("memory_conflict_" ++ arguments.decision.value) arguments
            source (conflictOperation_bounds _))
          (decisionMutation (Tables.resolveConflictMutate arguments changeType source now)))
      else if arguments.decision.conflict then
        (w,.error (valueError "conflict decisions apply only to memory conflict obligations"))
      else if preview.kind = .memoryReview ∧ preview.subjectType = .durableMemory then
        if arguments.decision ≠ .confirm ∧ arguments.decision ≠ .reject then
          (w,.error (valueError "memory review requires confirm or reject"))
        else decided (SharedWrites.execute w
          (decisionEnvelope operationId ("memory_review_" ++ arguments.decision.value) arguments
            (none,none) (reviewOperation_bounds _))
          (decisionMutation (Tables.resolveReviewMutate arguments now)))
      else
        let r := transact w fun s => s.resolveObligationIn arguments source now
        (r.1,r.2.map Resolution.dict)

end

end Memory
end Atlas
