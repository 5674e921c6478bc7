import Atlas.Memory.Publisher

/-! The steps of a reconciliation worker between claim and publication. Each is one
transaction that re-checks the claim; only the failure release reads its rows unlocked. -/
namespace Atlas
namespace Memory

open RowTable

structure IndependentReading where
  extractedClaims : List String := []
  category : Option String := none
  scope : Option Scope := none
  durability : Option Durability := none
  claimPrincipal : Option String := none
  eventValidFrom : Option Time := none
  eventValidTo : Option Time := none
  deriving Repr, DecidableEq

structure ComparisonVerdict where
  verdict : String
  normalizedContent : Option String := none
  category : Option String := none
  scope : Option Scope := none
  durability : Option Durability := none
  deriving Repr, DecidableEq

structure MemoryRelationDecision where
  relation : String
  targetMemoryId : Option ℕ := none
  replacementContent : Option String := none
  temporalGuard : Option String := none
  deriving Repr, DecidableEq

/-- A column as the unit of work leaves it: written only if the loaded value was changed. -/
def flushColumn {α : Type*} [DecidableEq α] (loaded new current : α) : α :=
  if new = loaded then current else new

@[simp] theorem flushColumn_loaded {α : Type*} [DecidableEq α] (loaded new : α) :
    flushColumn loaded new loaded = new := by
  unfold flushColumn
  split
  · next h => exact h.symm
  · rfl

/-- The lifecycle columns of a candidate that a session loaded, changed and flushed. -/
def CandidateRow.flush (loaded new current : CandidateRow) : CandidateRow :=
  {current with
    status := flushColumn loaded.status new.status current.status
    content := flushColumn loaded.content new.content current.content
    evidence := flushColumn loaded.evidence new.evidence current.evidence
    fingerprint := flushColumn loaded.fingerprint new.fingerprint current.fingerprint
    stateVersion := flushColumn loaded.stateVersion new.stateVersion current.stateVersion
    invalidatedAt := flushColumn loaded.invalidatedAt new.invalidatedAt current.invalidatedAt
    invalidationOperationId := flushColumn loaded.invalidationOperationId
      new.invalidationOperationId current.invalidationOperationId
    leaseToken := flushColumn loaded.leaseToken new.leaseToken current.leaseToken
    leasedUntil := flushColumn loaded.leasedUntil new.leasedUntil current.leasedUntil
    reviewAfter := flushColumn loaded.reviewAfter new.reviewAfter current.reviewAfter
    decisionJson := flushColumn loaded.decisionJson new.decisionJson current.decisionJson
    processedAt := flushColumn loaded.processedAt new.processedAt current.processedAt}

/-- The columns of an attempt that a session loaded, changed and flushed. -/
def AttemptRow.flush (loaded new current : AttemptRow) : AttemptRow :=
  {current with
    candidateStateVersion := flushColumn loaded.candidateStateVersion new.candidateStateVersion
      current.candidateStateVersion
    status := flushColumn loaded.status new.status current.status
    resultJson := flushColumn loaded.resultJson new.resultJson current.resultJson
    error := flushColumn loaded.error new.error current.error
    completedAt := flushColumn loaded.completedAt new.completedAt current.completedAt}

/-- `_requeue_or_fail` on the candidate row; a failed candidate is settled by the caller. -/
def CandidateRow.requeueOrFail (row : CandidateRow) (maxAttempts : ℕ) (now : Time)
    (code : Option String) : CandidateRow :=
  let row := {row with leaseToken := none, leasedUntil := none}
  if maxAttempts ≤ row.attemptCount then
    {row with
      status := .failed
      processedAt := some now
      decisionJson := {
        decision := some "failed"
        code := some "attempt_limit"
        lastError := code.bind orNone}}
  else {row with status := .pending}

namespace Tables

/-- The condition `_locked_live_claim` and the release steps share on the two rows. -/
def holdsClaim (claim : CandidateLease) (candidate : CandidateRow) (attempt : AttemptRow) : Bool :=
  attempt.completedAt.isNone && candidate.status == .leased &&
    candidate.leaseToken == some claim.leaseToken &&
    candidate.stateVersion == attempt.candidateStateVersion

/-- `_locked_live_claim`. -/
def lockedLiveClaim (s : Tables) (claim : CandidateLease) (now : Time) :
    Except Failure (CandidateRow × AttemptRow) :=
  match s.candidates[claim.candidateId]?, s.attempts[claim.attemptId]? with
  | some candidate, some attempt =>
      if holdsClaim claim candidate attempt ∧ attempt.leaseToken = claim.leaseToken ∧
          candidate.leasedUntil.any (now < ·) ∧ candidate.invalidatedAt = none ∧
          s.evidenceLive claim.candidateId candidate then
        .ok (candidate,attempt)
      else .error ⟨.candidateSnapshotError,"candidate lease/evidence is no longer live"⟩
  | _, _ => .error ⟨.candidateSnapshotError,"candidate lease/evidence is no longer live"⟩

/-- Run a step for a live claim whose candidate and attempt were advanced by one version. -/
def advancing (s : Tables) (claim : CandidateLease) (candidate : CandidateRow) (attempt : AttemptRow)
    (f : AttemptRow → AttemptRow) : Except Failure Tables :=
  (s.advanceCandidateState claim.candidateId claim.attemptId candidate attempt).map fun s =>
    s.setAttempt claim.attemptId f

def persistReading (s : Tables) (claim : CandidateLease) (snapshot : EvaluationSnapshot)
    (reading : IndependentReading) (verifierModel : Option String) (now : Time) :
    Except Failure (Tables × ℕ) := do
  let (candidate,attempt) ← s.lockedLiveClaim claim now
  match (ids (fun r => r.attemptId == claim.attemptId) s.readings).head? with
  | some existing => .ok (s,existing)
  | none =>
      let s ← s.advancing claim candidate attempt fun a => {a with
        status := "blind_read_complete"
        evaluatedSourceRevision := some snapshot.sourceRevision
        evidenceJson := some snapshot.evidenceRefs}
      let row : ReadingRow :=
        { candidateId := claim.candidateId
          attemptId := claim.attemptId
          evidenceSetHash := orEmpty candidate.evidenceSetHash
          sourceRevision := snapshot.sourceRevision
          extractedClaims := reading.extractedClaims
          category := reading.category
          scope := reading.scope
          durability := reading.durability
          claimPrincipal := reading.claimPrincipal
          eventValidFrom := reading.eventValidFrom
          eventValidTo := reading.eventValidTo
          verifierModel := verifierModel.bind orNone }
      .ok ({s with readings := s.readings ++ [row]},s.readings.length)

def persistComparison (s : Tables) (claim : CandidateLease) (readingId : ℕ)
    (comparison : ComparisonVerdict) (now : Time) : Except Failure (Tables × ℕ) := do
  let (candidate,attempt) ← s.lockedLiveClaim claim now
  if (s.readings[readingId]?).all (·.tombstonedAt.isSome) then
    .error ⟨.candidateSnapshotError,"blind reading disappeared before comparison"⟩
  else
    match (ids (fun r => r.readingId == readingId) s.comparisons).head? with
    | some existing => .ok (s,existing)
    | none =>
        let s ← s.advancing claim candidate attempt fun a => {a with
          status := "epistemically_evaluated"}
        let row : ComparisonRow :=
          { candidateId := claim.candidateId
            readingId := readingId
            verdict := comparison.verdict
            normalizedContent := (comparison.normalizedContent.bind orNone).map normalizeSpace
            category := comparison.category
            scope := comparison.scope
            durability := comparison.durability }
        .ok ({s with comparisons := s.comparisons ++ [row]},s.comparisons.length)

def persistReconciliation (s : Tables) (claim : CandidateLease) (comparisonId : ℕ)
    (snapshot : EvaluationSnapshot) (relation : MemoryRelationDecision) (now : Time) :
    Except Failure (Tables × ℕ) := do
  let (candidate,attempt) ← s.lockedLiveClaim claim now
  if (s.comparisons[comparisonId]?).all (·.tombstonedAt.isSome) then
    .error ⟨.candidateSnapshotError,"comparison disappeared before reconciliation"⟩
  else
    let s ← s.advancing claim candidate attempt fun a => {a with
      status := "reconciled"
      evaluatedMemoryRevision := some snapshot.memoryRevision
      semanticDecision := some relation.relation
      targetMemoryId := relation.targetMemoryId}
    let ordered := ["supersedes","historical_predecessor","conflicts_with"].contains
      relation.relation && relation.targetMemoryId.isSome
    let row : ReconciliationRecordRow :=
      { candidateId := claim.candidateId
        comparisonId := comparisonId
        relation := relation.relation
        targetMemoryId := relation.targetMemoryId
        evaluatedMemoryRevision := snapshot.memoryRevision
        replacementContent := (relation.replacementContent.bind orNone).map normalizeSpace
        temporalGuard := textOr relation.temporalGuard
          (if ordered then some "event_order_checked" else none) }
    .ok ({s with records := s.records ++ [row]},s.records.length)

def persistPolicy (s : Tables) (claim : CandidateLease) (recordId : ℕ) (policy : String)
    (reason : Option String) (now : Time) : Except Failure (Tables × ℕ) := do
  let (candidate,attempt) ← s.lockedLiveClaim claim now
  match (ids (fun r => r.reconciliationId == recordId) s.policies).head? with
  | some existing => .ok (s,existing)
  | none =>
      let s ← s.advancing claim candidate attempt fun a => {a with
        status := if policy = "require_owner_confirmation" then "awaiting_policy_confirmation"
          else if policy = "allow" then "policy_allowed" else "policy_blocked"}
      let row : PolicyDecisionRow :=
        { candidateId := claim.candidateId
          reconciliationId := recordId
          decision := policy
          reasonCode := reason }
      .ok ({s with policies := s.policies ++ [row]},s.policies.length)

/-- The common end of the two finishing steps. -/
def finish (s : Tables) (claim : CandidateLease) (status : CandidateStatus) (decision code : String)
    (semantic : Option String) (now : Time) : Except Failure (Tables × Unit) := do
  let (candidate,attempt) ← s.lockedLiveClaim claim now
  let s ← s.advancing claim candidate attempt fun a => {a with
    status := "committed"
    completedAt := some now
    semanticDecision := semantic.or a.semanticDecision
    resultJson := {result := some status.value, code := some code}}
  .ok ((s.setCandidate claim.candidateId fun row => {row with
    status := status
    leaseToken := none
    leasedUntil := none
    processedAt := some now
    decisionJson := {decision := some decision, code := some code}}
    ).settleExplicitObligation claim.candidateId now none (some code) none,())

def finishEpistemicRejection (s : Tables) (claim : CandidateLease) (code : String) (now : Time) :
    Except Failure (Tables × Unit) :=
  s.finish claim .discarded "discard" code (some "discard") now

def finishPolicyBlock (s : Tables) (claim : CandidateLease) (code : String) (now : Time) :
    Except Failure (Tables × Unit) :=
  s.finish claim .blocked "blocked" code none now

/-- `_requeue_after_version_conflict`. -/
def requeueAfterVersionConflict (s : Tables) (claim : CandidateLease)
    (snapshot : EvaluationSnapshot) (now : Time) : Tables :=
  match s.candidates[claim.candidateId]?, s.attempts[claim.attemptId]? with
  | some candidate, some attempt =>
      if !holdsClaim claim candidate attempt then s
      else
        (s.setAttempt claim.attemptId fun a => {a with
          candidateStateVersion := candidate.stateVersion + 1
          status := "version_conflict"
          completedAt := some now
          resultJson := {
            result := some "version_conflict"
            expectedRevision := some snapshot.memoryRevision}}
          ).setCandidate claim.candidateId fun row => {row with
            stateVersion := row.stateVersion + 1
            status := .pending
            leaseToken := none
            leasedUntil := none
            decisionJson := {
              decision := some "reconcile_retry_needed"
              code := some "version_conflict"}}
  | _, _ => s

/-- The rows of a failed or conflicting attempt whose candidate leaves the lease. -/
def releasedAttempt (attempt : AttemptRow) (status : String) (error code : Option String)
    (now : Time) : AttemptRow :=
  {attempt with
    candidateStateVersion := attempt.candidateStateVersion + 1
    status := status
    error := error.or attempt.error
    completedAt := some now
    resultJson := {result := some status, code := code}}

def settleIfFailed (s : Tables) (candidateId : ℕ) (row : CandidateRow) (now : Time)
    (code : Option String) : Tables :=
  if row.status = .failed then
    s.settleExplicitObligation candidateId now none
      (some ((code.bind orNone).getD "attempt_limit")) none
  else s

/-- `_release_after_conflict`. -/
def releaseAfterConflict (s : Tables) (maxAttempts : ℕ) (claim : CandidateLease) (code : String)
    (now : Time) : Tables :=
  match s.candidates[claim.candidateId]?, s.attempts[claim.attemptId]? with
  | some candidate, some attempt =>
      if !holdsClaim claim candidate attempt then s
      else
        let released := CandidateRow.requeueOrFail
          {candidate with stateVersion := candidate.stateVersion + 1} maxAttempts now none
        ((s.setAttempt claim.attemptId fun a => releasedAttempt a code none none now
          ).setCandidate claim.candidateId fun _ => released
          ).settleIfFailed claim.candidateId released now none
  | _, _ => s

/-- `_release_failed`: the decision is taken on the rows as read, without a lock, and the
flush writes the changed columns over whatever the rows hold by then. -/
def releaseFailed (read s : Tables) (maxAttempts : ℕ) (claim : CandidateLease) (code : String)
    (now : Time) : Tables :=
  match read.candidates[claim.candidateId]?, read.attempts[claim.attemptId]? with
  | some candidate, some attempt =>
      if !holdsClaim claim candidate attempt then s
      else
        let released := CandidateRow.requeueOrFail
          {candidate with stateVersion := candidate.stateVersion + 1} maxAttempts now (some code)
        let closed := releasedAttempt attempt "failed" (some code) (some code) now
        ((s.setAttempt claim.attemptId fun a => attempt.flush closed a
          ).setCandidate claim.candidateId fun row => candidate.flush released row
          ).settleIfFailed claim.candidateId released now (some code)
  | _, _ => s

end Tables

/-- What `_explicit_command_context` hands the reconciler. -/
def CommandRow.context (c : CommandRow) : SnapshotCandidate :=
  { explicitOperation := some c.operation
    explicitTargetMemoryId := c.targetMemoryId
    explicitChangeType := Json.textAt (.obj c.arguments) "change_type" }

/-- `_explicit_command_context`: the earliest explicit obligation about the candidate that
belongs to a command decides. -/
def Tables.explicitCommandContext (s : Tables) (candidateId : ℕ) : SnapshotCandidate :=
  (((s.obligations.filter (·.explicitAbout candidateId)).filterMap fun o =>
    o.commandId.bind fun id => s.commands[id]?).head?.map CommandRow.context).getD {}

end Memory
end Atlas
