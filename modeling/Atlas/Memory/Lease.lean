import Atlas.Memory.Candidates

/-! The candidate lease repository: due obligations expire, retained candidates expire,
exhausted candidates fail, and eligible candidates with live evidence are leased. -/
namespace Atlas
namespace Memory

open RowTable

/-- What a worker holds after `claim_batch` handed it a candidate. -/
structure CandidateLease where
  candidateId : ℕ
  attemptId : ℕ
  leaseToken : ℕ
  attemptNumber : ℕ
  deriving Repr, DecidableEq

structure LeaseConfig where
  leaseSeconds : ℕ := 180
  maxAttempts : ℕ := 3
  deriving Repr, DecidableEq

/-- The bounds the constructor puts on its arguments. -/
def LeaseConfig.clamped (c : LeaseConfig) : LeaseConfig :=
  ⟨max 30 (min c.leaseSeconds 1800),max 1 (min c.maxAttempts 10)⟩

/-- The rows other transactions hold locked; `SKIP LOCKED` passes over them. -/
structure RowLocks where
  candidates : List ℕ := []
  obligations : List ℕ := []
  deriving Repr, DecidableEq

/-- `_evidence_turn_admissible`. -/
def evidenceTurnAdmissible (candidate : CandidateRow) (turnId : ℕ) (turn : TurnRow) : Bool :=
  turn.deletedAt.isNone &&
    (turn.transcriptId == candidate.sourceTranscriptId ||
      (candidate.decisionJson.ownerAssertionTurnId == some turnId && turn.actor == .owner))

/-- The lease columns of a candidate nobody works on. -/
def CandidateRow.cleared (row : CandidateRow) : CandidateRow :=
  {row with leaseToken := none, leasedUntil := none, reviewAfter := none}

namespace Tables

def evidenceOf (s : Tables) (candidateId : ℕ) : List EvidenceRow :=
  s.evidence.filter fun e => e.candidateId == candidateId

/-- Whether a candidate's evidence rows all name admissible turns. -/
def evidenceAdmissible (s : Tables) (candidate : CandidateRow) (rows : List EvidenceRow) : Bool :=
  rows.all fun e =>
    match s.turns[e.turnId]? with
    | none => false
    | some turn => evidenceTurnAdmissible candidate e.turnId turn

/-- `_evidence_live`. -/
def evidenceLive (s : Tables) (candidateId : ℕ) (candidate : CandidateRow) : Bool :=
  candidate.evidenceSetHash.any (· ≠ "") && !(s.evidenceOf candidateId).isEmpty &&
    s.evidenceAdmissible candidate (s.evidenceOf candidateId)

def closeAttempt (status : String) (now : Time) (a : AttemptRow) : AttemptRow :=
  {a with status := status, completedAt := some now, resultJson := {result := some status}}

/-- `_close_stale_attempts`. -/
def closeStaleAttempts (s : Tables) (candidateId : ℕ) (now : Time) (status : String) : Tables :=
  {s with attempts := s.attempts.map fun a =>
    if a.candidateId = candidateId ∧ a.completedAt = none then closeAttempt status now a else a}

/-- An awaiting candidate whose owner decision did not come in time. -/
def expireAwaiting (s : Tables) (now : Time) (candidateId : ℕ) (decision : DecisionJson)
    (clear : CandidateRow → CandidateRow) : Tables :=
  match s.candidates[candidateId]? with
  | none => s
  | some row =>
      if row.status ≠ .awaitingOwner then s
      else
        (s.setCandidate candidateId fun row => {clear row with
          stateVersion := row.stateVersion + 1
          status := .expired
          processedAt := some now
          decisionJson := decision}).settleExplicitObligation candidateId now none
            (some "owner_confirmation_expired") none

/-- One due obligation of `_expire_due_obligations`. -/
def expireObligation (now : Time) (s : Tables) (obligationId : ℕ) : Tables :=
  match s.obligations[obligationId]? with
  | none => s
  | some obligation =>
      let s := s.setObligation obligationId fun o => {o with
        status := .resolved
        resolutionCode := some "expired_unconfirmed"
        resolutionJson := {}
        resolvedAt := some now}
      match obligation.subjectType, obligation.subjectId with
      | .memoryCandidate, some candidateId =>
          s.expireAwaiting now candidateId
            {decision := some "expired", code := some "owner_confirmation_expired"}
            CandidateRow.cleared
      | .memoryConflict, some conflictId =>
          match s.conflicts[conflictId]? with
          | none => s
          | some conflict =>
              if conflict.status ≠ "open" then s
              else
                (s.setConflict conflictId fun c => {c with
                  status := "expired_unresolved"
                  resolvedAt := some now}).expireAwaiting now conflict.candidateId
                    {decision := some "conflicts_with", code := some "owner_confirmation_expired",
                      conflictId := some conflictId} id
      | _, _ => s

def dueObligations (s : Tables) (now : Time) (locks : RowLocks) : List ℕ :=
  (ids (fun o => o.status == .pending && o.expiresAt.any (· ≤ now)) s.obligations).filter
    fun id => !locks.obligations.contains id

/-- `_expire_due_obligations`. -/
def expireDueObligations (s : Tables) (now : Time) (locks : RowLocks) : Tables :=
  (s.dueObligations now locks).foldl (expireObligation now) s

def expiredRows (s : Tables) (now : Time) (locks : RowLocks) : List ℕ :=
  (ids (fun c => c.status == .retainedShortTerm && c.expiresAt.any (· ≤ now)) s.candidates).filter
    fun id => !locks.candidates.contains id

def expireRetained (now : Time) (s : Tables) (candidateId : ℕ) : Tables :=
  (s.setCandidate candidateId fun row => {row.cleared with
    stateVersion := row.stateVersion + 1
    status := .expired
    processedAt := some now
    decisionJson := {decision := some "expired"}}).settleExplicitObligation candidateId now none
      (some "retention_expired") none

def exhaustedRows (s : Tables) (config : LeaseConfig) (now : Time) (locks : RowLocks) : List ℕ :=
  (ids (fun c => ((c.status == .leased && c.leasedUntil.any (· ≤ now)) || c.status == .pending) &&
    config.maxAttempts ≤ c.attemptCount) s.candidates).filter
      fun id => !locks.candidates.contains id

def failExhausted (now : Time) (s : Tables) (candidateId : ℕ) : Tables :=
  ((s.closeStaleAttempts candidateId now "attempt_limit").setCandidate candidateId fun row =>
    {row with
      stateVersion := row.stateVersion + 1
      status := .failed
      leaseToken := none
      leasedUntil := none
      processedAt := some now
      decisionJson := {decision := some "failed", code := some "attempt_limit"}}
    ).settleExplicitObligation candidateId now none (some "attempt_limit") none

/-- The condition of the claim query, payload included. -/
def eligible (config : LeaseConfig) (now : Time) (c : CandidateRow) : Bool :=
  ((c.status == .pending && c.attemptCount < config.maxAttempts) ||
    (c.status == .leased && c.leasedUntil.any (· ≤ now) && c.attemptCount < config.maxAttempts) ||
    (c.status == .retainedShortTerm && c.reviewAfter.any (· ≤ now) &&
      c.expiresAt.all (now < ·))) &&
  c.invalidatedAt.isNone && c.content.isSome && c.fingerprint.isSome

def eligibleRows (s : Tables) (config : LeaseConfig) (now : Time) (locks : RowLocks)
    (limit : ℕ) : List ℕ :=
  ((ids (eligible config now) s.candidates).filter fun id => !locks.candidates.contains id).take
    (max 1 (min limit 32))

/-- A candidate whose evidence is gone leaves the queue. -/
def invalidateUnavailable (now : Time) (s : Tables) (candidateId : ℕ) : Tables :=
  ((s.closeStaleAttempts candidateId now "evidence_unavailable").setCandidate candidateId fun row =>
    {row.cleared with
      stateVersion := row.stateVersion + 1
      status := .invalidated
      invalidatedAt := some now
      processedAt := some now
      decisionJson := {decision := some "invalidated", code := some "evidence_unavailable"}}
    ).settleExplicitObligation candidateId now none (some "evidence_unavailable") none

def nextAttemptNumber (s : Tables) (candidateId : ℕ) : ℕ :=
  ((s.attempts.filter fun a => a.candidateId == candidateId).map (·.attemptNumber)).foldl max 0 + 1

/-- The lease of one claimed candidate. -/
def leaseCandidate (config : LeaseConfig) (now : Time) (s : Tables) (candidateId : ℕ)
    (row : CandidateRow) : Tables × CandidateLease :=
  let s := if row.status = .leased then s.closeStaleAttempts candidateId now "lease_expired" else s
  let number := s.nextAttemptNumber candidateId
  let token := s.nextToken
  let attempt : AttemptRow :=
    { candidateId := candidateId
      leaseToken := token
      attemptNumber := number
      candidateStateVersion := row.stateVersion + 1 }
  let s := {s with attempts := s.attempts ++ [attempt], nextToken := token + 1}
  (s.setCandidate candidateId fun row => {row with
      stateVersion := row.stateVersion + 1
      status := .leased
      leaseToken := some token
      leasedUntil := some (now + config.leaseSeconds)
      attemptCount := row.attemptCount + 1
      reviewAfter := none},
    ⟨candidateId,s.attempts.length - 1,token,number⟩)

/-- One eligible row of `claim_batch`. -/
def claimRow (config : LeaseConfig) (now : Time) (s : Tables) (candidateId : ℕ) :
    Tables × Option CandidateLease :=
  match s.candidates[candidateId]? with
  | none => (s,none)
  | some row =>
      if s.evidenceLive candidateId row then
        let r := s.leaseCandidate config now candidateId row
        (r.1,some r.2)
      else (s.invalidateUnavailable now candidateId,none)

def claimRows (config : LeaseConfig) (now : Time) (s : Tables) (rows : List ℕ) :
    Tables × List CandidateLease :=
  rows.foldl (fun p id =>
    let r := p.1.claimRow config now id
    (r.1,p.2 ++ r.2.toList)) (s,[])

/-- `claim_batch`. -/
def claimBatch (s : Tables) (config : LeaseConfig) (limit : ℕ) (locks : RowLocks) (now : Time) :
    Tables × List CandidateLease × ℕ :=
  let config := config.clamped
  let due := s.dueObligations now locks
  let s := s.expireDueObligations now locks
  let expired := s.expiredRows now locks
  let s := expired.foldl (expireRetained now) s
  let s := (s.exhaustedRows config now locks).foldl (failExhausted now) s
  let r := s.claimRows config now (s.eligibleRows config now locks limit)
  (r.1,r.2,expired.length + due.length)

end Tables

end Memory
end Atlas
