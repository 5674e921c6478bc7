import Atlas.Memory.Durable

/-! Explicit owner commands ride the candidate pipeline: the obligation row stays pending
until the candidate that carries the request reaches a terminal outcome. -/
namespace Atlas
namespace Memory

open RowTable

def ownerRetryBudget : ℕ := 3

/-- `_TERMINAL_RESOLUTION`. -/
def terminalResolution : CandidateStatus → Option String
  | .reconciled => some "published"
  | .discarded => some "discarded"
  | .blocked => some "blocked"
  | .invalidated => some "invalidated"
  | .expired => some "expired"
  | .rejected => some "rejected"
  | _ => none

/-- The statuses that end a candidate's life. -/
def CandidateStatus.terminal (status : CandidateStatus) : Bool := (terminalResolution status).isSome

/-- `obligation_kind_for`. -/
def obligationKindFor (operation : String) : ObligationKind :=
  if operation = "remember" then .explicitRemember else .explicitCorrect

/-- `origin_for`. -/
def originFor (operation : String) : String :=
  if operation = "remember" then "explicit_owner_request" else "explicit_owner_correction"

/-- An obligation of an explicit kind about this candidate. -/
def ObligationRow.explicitAbout (candidateId : ℕ) (o : ObligationRow) : Bool :=
  o.subjectType == .memoryCandidate && o.subjectId == some candidateId && o.kind.explicit

def ObligationRow.pendingExplicit (candidateId : ℕ) (o : ObligationRow) : Bool :=
  o.explicitAbout candidateId && o.status == .pending

/-- `_carry`. -/
def ObligationRow.carry (o : ObligationRow) : ResolutionJson :=
  { failureCount := o.resolutionJson.failureCount
    failureBudget := o.resolutionJson.failureBudget
    ownerRetries := o.resolutionJson.ownerRetries
    lastError := o.resolutionJson.lastError }

namespace Tables

def pendingExplicitObligation (s : Tables) (candidateId : ℕ) : Option ℕ :=
  (ids (·.pendingExplicit candidateId) s.obligations).head?

/-- The command an obligation belongs to, if the obligation names one. -/
def setCommandOf (s : Tables) (obligation : ObligationRow) (f : CommandRow → CommandRow) : Tables :=
  match obligation.commandId with
  | none => s
  | some id => s.setCommand id f

/-- `settle_explicit_obligation`: reflect a candidate's status onto its first pending
explicit obligation. -/
def settleExplicitObligation (s : Tables) (candidateId : ℕ) (now : Time) (memoryId : Option ℕ)
    (code resolution : Option String) : Tables :=
  match s.candidates[candidateId]?, s.pendingExplicitObligation candidateId with
  | some candidate, some obligationId =>
      match s.obligations[obligationId]? with
      | none => s
      | some obligation =>
          let decision := candidate.decisionJson
          let detail := firstText [code,decision.code,decision.result,decision.decision]
          match candidate.status with
          | .reconciled =>
              let published := memoryId.or
                (ids (fun m => m.originatingCandidateId == some candidateId) s.memories).head?
              (s.setObligation obligationId fun o => {o with
                status := .resolved
                resolutionCode := some "published"
                resolutionJson := {o.carry with
                  candidateId := some candidateId
                  memoryId := published
                  result := some detail}
                resolvedAt := some now}).setCommandOf obligation fun command => {command with
                  status := .applied
                  appliedAt := some now
                  failedAt := none
                  error := none
                  replacementMemoryId := published}
          | .failed =>
              let failureCount := obligation.carry.failureCount.getD 0 + 1
              let counted := s.setObligation obligationId fun o => {o with
                resolutionJson := {o.carry with
                  candidateId := some candidateId
                  failureCount := some failureCount
                  failureBudget := some ownerRetryBudget
                  lastError := some detail}}
              if ownerRetryBudget ≤ failureCount then
                (counted.setObligation obligationId fun o => {o with
                  status := .resolved
                  resolutionCode := some "failed_retry_exhausted"
                  resolvedAt := some now}).setCommandOf obligation fun command => {command with
                    status := .failed
                    failedAt := some now
                    error := some (clipText 2000 ("failed_retry_exhausted: " ++ detail))}
              else counted
          | status =>
              match resolution.or (terminalResolution status) with
              | none => s
              | some resolution =>
                  (s.setObligation obligationId fun o => {o with
                    status := .resolved
                    resolutionCode := some resolution
                    resolutionJson := {o.carry with
                      candidateId := some candidateId
                      code := some detail}
                    resolvedAt := some now}).setCommandOf obligation fun command => {command with
                      status := .failed
                      failedAt := some now
                      error := some (clipText 2000 (resolution ++ ": " ++ detail))}
  | _, _ => s

end Tables

end Memory
end Atlas
