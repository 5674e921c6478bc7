import Atlas.Actions.Rows

/-! The authority store: proposals, the owner's decisions on them, automatic executions and
their outcomes. A function is one transaction; a refusal rolls it back. -/
namespace Atlas
namespace Actions

open RowTable

def ownerPrincipal : String := "owner:jaco"

def defaultProposalTtl : ℕ := hours 1

/-- `operation.split(".", 1)[0]`. -/
def operationPrefix (operation : String) : String :=
  String.ofList (operation.toList.takeWhile (· ≠ '.'))

def RunStatus.finished : RunStatus → Bool
  | .succeeded | .failed | .cancelled | .interrupted => true
  | _ => false

/-- The status that the actions of a run and its inference amount to. -/
def runPriority (statuses : List ActionStatus) (inferenceActive : Bool)
    (inferenceStatus : InferenceStatus) : RunStatus :=
  if .uncertain ∈ statuses then .uncertain
  else if .executing ∈ statuses then .running
  else if .prepared ∈ statuses then .waitingForOwner
  else if inferenceActive then .running
  else if .failed ∈ statuses ∨ inferenceStatus = .failed ∨ inferenceStatus = .interrupted then
    if inferenceStatus ≠ .interrupted then .failed else .interrupted
  else if .cancelled ∈ statuses then .cancelled
  else .succeeded

/-- The evidence that `complete` leaves on an action. -/
def completedEvidence (evidence : Dict) (result : Dict) (externalId : Option String) : Dict :=
  let decision := if Dict.holds evidence "automatic" then "automatic" else "approved"
  let evidence := Dict.put (Dict.put evidence "decision" (.str decision)) "result" (.obj result)
  match externalId.bind orNone with
  | none => evidence
  | some id => Dict.put evidence "external_id" (.str id)

namespace ActionRow

def begin (a : ActionRow) (now : Instant) : ActionRow :=
  {a with status := .executing, executionStartedAt := some now}

def cancel (a : ActionRow) : ActionRow :=
  {a with status := .cancelled, evidence := Dict.put a.evidence "decision" (.str "cancelled")}

def complete (a : ActionRow) (status : ActionStatus) (result : Dict)
    (externalId : Option String) : ActionRow :=
  {a with status := status, evidence := completedEvidence a.evidence result externalId}

def doubt (a : ActionRow) : ActionRow := {a with status := .uncertain}

/-- A remark added to the evidence, whatever the status. -/
def remark (a : ActionRow) (key text : String) : ActionRow :=
  {a with evidence := Dict.put a.evidence key (.str text)}

end ActionRow

def OwnerAttentionRow.resolve (r : OwnerAttentionRow) (now : Instant) : OwnerAttentionRow :=
  {r with resolved := true, resolvedAt := some now}

/-- The inference of a run comes to an end. -/
def RunRow.stop (r : RunRow) (status : InferenceStatus) : RunRow :=
  {r with inferenceActive := false, inferenceStatus := status}

def RunRow.doubt (r : RunRow) : RunRow := {r with status := .uncertain, finishedAt := none}

/-- A run takes the status that its actions and its inference amount to. -/
def RunRow.settle (r : RunRow) (statuses : List ActionStatus) (now : Instant) : RunRow :=
  let status := runPriority statuses r.inferenceActive r.inferenceStatus
  {r with status := status, finishedAt := if status.finished then some now else none}

def createdRun (transcriptId : Option ℕ) (intent : String) (kind : RunKind) (now : Instant) :
    RunRow where
  kind := kind
  status := .running
  transcriptId := transcriptId
  intent := some intent
  inferenceActive := true
  inferenceStatus := .running
  heartbeatAt := some now

section

variable [ActionRuntime]

/-- `_target_hash`. -/
def targetHash (operation : String) (arguments : Dict)
    (principal createdAt expiresAt capabilityId : String) : String :=
  PyRuntime.sha256 (PyRuntime.dumps false (.obj [
    ("operation",.str operation),
    ("arguments",.obj arguments),
    ("principal",.str principal),
    ("created_at",.str createdAt),
    ("expires_at",.str expiresAt),
    ("capability_id",.str capabilityId)]))

/-- `verify_proposal`. -/
def verifyProposal (action : ActionRow) (now : Instant) : Except Refusal Dict :=
  match Dict.get action.evidence "proposal" with
  | some (.obj proposal) =>
      match Dict.get proposal "operation",Dict.get proposal "arguments",
        Dict.get proposal "principal",Dict.get proposal "created_at",
        Dict.get proposal "expires_at",Dict.get proposal "capability_id" with
      | some operation,some (.obj arguments),some principal,some createdAt,some expiresAt,
          some capabilityId =>
          if Dict.text proposal "operation" ≠ some action.operation ∨
              Dict.text proposal "principal" ≠ some ownerPrincipal then
            .error (proposalIntegrityError "Action proposal identity no longer matches")
          else
            match ActionRuntime.fromisoformat (ActionRuntime.str expiresAt) with
            | none => .error (proposalIntegrityError "Action proposal expiry is invalid")
            | some expiry =>
                if expiry.utc ≤ now then
                  .error (proposalIntegrityError "Action proposal has expired")
                else if targetHash (ActionRuntime.str operation) arguments
                    (ActionRuntime.str principal) (ActionRuntime.str createdAt)
                    (ActionRuntime.str expiresAt) (ActionRuntime.str capabilityId) ≠
                    action.targetHash then
                  .error (proposalIntegrityError "Action proposal integrity check failed")
                else .ok proposal
      | _,_,_,_,_,_ => .error (proposalIntegrityError "Action proposal payload is incomplete")
  | _ => .error (proposalIntegrityError "Action proposal payload is missing")

/-- The proposal that `prepare_proposal` stores. -/
def newProposal (operation : String) (arguments : Dict) (title capabilityId : String)
    (now : Instant) : Dict := [
  ("operation",.str operation),
  ("arguments",.obj arguments),
  ("principal",.str ownerPrincipal),
  ("created_at",.str (PyRuntime.isoformat now)),
  ("expires_at",.str (PyRuntime.isoformat (now + defaultProposalTtl))),
  ("capability_id",.str capabilityId),
  ("title",.str title)]

def preparedAction (id runId : ℕ) (operation : String) (arguments : Dict)
    (title capabilityId : String) (now : Instant) : ActionRow where
  runId := runId
  operation := operation
  targetHash := targetHash operation arguments ownerPrincipal (PyRuntime.isoformat now)
    (PyRuntime.isoformat (now + defaultProposalTtl)) capabilityId
  status := .prepared
  idempotencyKey := some ("atlas:" ++ toString id)
  evidence := [
    ("proposal",.obj (newProposal operation arguments title capabilityId now)),
    ("summary",.str title)]

def approvalNotice (id runId : ℕ) (operation : String) (arguments : Dict) (title : String)
    (now : Instant) : OwnerAttentionRow where
  runId := some runId
  actionId := some id
  state := .approvalRequired
  title := title
  detail := [
    ("operation",.str operation),
    ("arguments",.obj arguments),
    ("expires_at",.str (PyRuntime.isoformat (now + defaultProposalTtl)))]

def automaticAction (id runId : ℕ) (operation : String) (arguments : Dict)
    (summary capabilityId : String) (now : Instant) : ActionRow where
  runId := runId
  operation := operation
  targetHash := targetHash operation arguments ownerPrincipal (PyRuntime.isoformat now)
    (PyRuntime.isoformat now) capabilityId
  status := .executing
  idempotencyKey := some ("atlas:" ++ toString id)
  executionStartedAt := some now
  evidence := [
    ("summary",.str summary),
    ("arguments",.obj arguments),
    ("automatic",.bool true),
    ("started_at",.str (PyRuntime.isoformat now)),
    ("capability_id",.str capabilityId)]

def recordedAction (id runId : ℕ) (operation : String) (arguments : Dict)
    (status summary : String) (output : Json) (now : Instant) : ActionRow where
  runId := runId
  operation := operation
  targetHash := targetHash operation arguments ownerPrincipal (PyRuntime.isoformat now)
    (PyRuntime.isoformat now) (operationPrefix operation)
  status := if status = "succeeded" then .succeeded else .failed
  idempotencyKey := some ("atlas:" ++ toString id)
  evidence := [
    ("summary",.str summary),
    ("result_status",.str status),
    ("arguments",.obj arguments),
    ("output",output)]

end

namespace Ledger

/-- `_require_managed_task_active`. -/
def requireManagedTaskActive (s : Ledger) (run : Option RunRow) : Except Refusal Unit :=
  match (run.bind (·.transcriptId)).bind (s.transcripts[·]?) with
  | none => .ok ()
  | some transcript =>
      if Dict.text transcript.activeTaskState "mode" = some "managed" ∧
          Dict.text transcript.activeTaskState "status" ≠ some "active" then
        .error (proposalIntegrityError
          "Managed task is no longer active; no new effects may be proposed or dispatched")
      else .ok ()

/-- `_recompute_run`. -/
def recomputeRun (s : Ledger) (runId : ℕ) (now : Instant) : Ledger :=
  match s.runs[runId]? with
  | none => s
  | some run =>
      let settled := run.settle (s.statuses runId) now
      let s := s.setRun runId fun _ => settled
      match run.scheduleId with
      | none => s
      | some schedule => s.setSchedule schedule fun t => {t with lastStatus := some settled.status}

/-- The unresolved attention rows of an action. -/
def openAttention (s : Ledger) (actionId : ℕ) : List ℕ :=
  ids (fun r => r.actionId == some actionId && !r.resolved) s.attention

/-- What the owner is told about an action in doubt. -/
def uncertainDetail (actionId : ℕ) (action : ActionRow) (reason : Option String) : Dict :=
  let detail : Dict := [
    ("operation",.str action.operation),
    ("action_id",.str (toString actionId)),
    ("run_id",.str (toString action.runId)),
    ("message",.str (reason.getD
      "Atlas started this action but cannot confirm whether it completed.")),
    ("execution_started_at",match action.executionStartedAt with
      | none => .null
      | some t => .num t)]
  match (Dict.get action.evidence "external_id").filter Json.truthy with
  | none => detail
  | some external => Dict.put detail "external_id" external

/-- The attention row of an action in doubt, added or restated. -/
def restateAttention (s : Ledger) (actionId : ℕ) (action : ActionRow) (detail : Dict) :
    Except Refusal Ledger :=
  let title := "Uncertain action: " ++ action.operation
  match scalarOneOrNone (s.openAttention actionId) with
  | .error e => .error e
  | .ok none => .ok (s.addAttention {
      runId := some action.runId
      actionId := some actionId
      state := .uncertain
      title := title
      detail := detail})
  | .ok (some id) => .ok (s.setAttention id fun r => {r with
      state := .uncertain
      title := title
      detail := detail})

/-- The run of an action in doubt. -/
def doubtRun (s : Ledger) (runId : ℕ) : Ledger :=
  match s.runs[runId]? with
  | none => s
  | some run =>
      let s := s.setRun runId (·.doubt)
      match run.scheduleId with
      | none => s
      | some schedule => s.setSchedule schedule fun t => {t with lastStatus := some .uncertain}

/-- `_mark_uncertain`. -/
def markUncertain (s : Ledger) (actionId : ℕ) (action : ActionRow) (reason : Option String) :
    Except Refusal Ledger :=
  (s.restateAttention actionId action (uncertainDetail actionId action reason)).map
    (·.doubtRun action.runId)

/-- `_resolve_attention_and_run`. -/
def resolveAttentionAndRun (s : Ledger) (actionId : ℕ) (action : ActionRow) (now : Instant) :
    Except Refusal Ledger :=
  match scalarOneOrNone (s.openAttention actionId) with
  | .error e => .error e
  | .ok none => .ok (s.recomputeRun action.runId now)
  | .ok (some id) => .ok ((s.setAttention id (·.resolve now)).recomputeRun action.runId now)

/-- The check of `create_run` that a conversation has no other foreground inference. -/
def foregroundFree (s : Ledger) (transcriptId : Option ℕ) (kind : RunKind) :
    Except Refusal Unit :=
  if kind = .foreground ∧ transcriptId.isSome then
    match scalarOneOrNone (ids (fun r => r.transcriptId == transcriptId && r.kind == kind &&
        r.inferenceActive) s.runs) with
    | .error e => .error e
    | .ok none => .ok ()
    | .ok (some _) => .error ⟨.foregroundBusy,
        "Atlas is still handling the previous message in this conversation"⟩
  else .ok ()

/-- A foreign key to the transcripts. -/
def transcriptExists (s : Ledger) (transcriptId : Option ℕ) : Except Refusal Unit :=
  require (transcriptId.all (· < s.transcripts.length))
    ⟨.integrityError,"runs.transcript_id names no transcript"⟩

/-- A foreign key to the runs. -/
def runExists (s : Ledger) (runId : ℕ) : Except Refusal Unit :=
  require (runId < s.runs.length) ⟨.integrityError,"actions.run_id names no run"⟩

/-- `create_run`. -/
def createRun (s : Ledger) (transcriptId : Option ℕ) (intent : String) (kind : RunKind)
    (now : Instant) : Except Refusal (Ledger × ℕ) := do
  s.foregroundFree transcriptId kind
  s.transcriptExists transcriptId
  return (s.addRun (createdRun transcriptId intent kind now),s.runs.length)

/-- `session.get(ActionRow, …)` where the row has to exist. -/
def getAction (s : Ledger) (actionId : ℕ) (missing : Refusal) : Except Refusal ActionRow :=
  match s.actions[actionId]? with
  | none => .error missing
  | some action => .ok action

def actionNotFound : Refusal := ⟨.lookupError,"Action proposal not found"⟩

/-- `cancel`. -/
def cancel (s : Ledger) (actionId : ℕ) (now : Instant) : Except Refusal Ledger := do
  let action ← s.getAction actionId actionNotFound
  require (action.status = .prepared)
    (proposalIntegrityError "Only a prepared action can be cancelled")
  (s.setAction actionId (·.cancel)).resolveAttentionAndRun actionId action now

/-- `complete`. -/
def complete (s : Ledger) (actionId : ℕ) (status : ActionStatus) (result : Dict)
    (externalId : Option String) (now : Instant) : Except Refusal Ledger := do
  require (status ∈ [ActionStatus.succeeded,.failed,.uncertain])
    ⟨.valueError,"Execution must end as succeeded, failed, or uncertain"⟩
  let action ← s.getAction actionId (proposalIntegrityError "Executing action state was lost")
  require (action.status = .executing)
    (proposalIntegrityError "Executing action state was lost")
  let s := s.setAction actionId (·.complete status result externalId)
  if status = .uncertain then
    s.markUncertain actionId (action.complete status result externalId) none
  else s.resolveAttentionAndRun actionId action now

/-- `acknowledge_uncertain`. -/
def acknowledgeUncertain [PyRuntime] (s : Ledger) (actionId : ℕ) (now : Instant) :
    Except Refusal Ledger := do
  let action ← s.getAction actionId ⟨.lookupError,"Action not found"⟩
  require (action.status = .uncertain)
    (proposalIntegrityError "Only uncertain actions can be acknowledged")
  match scalarOneOrNone (s.openAttention actionId) with
  | .error e => throw e
  | .ok none => throw ⟨.lookupError,"Unresolved attention item not found"⟩
  | .ok (some id) =>
      return (s.setAttention id (·.resolve now)).setAction actionId
        (·.remark "owner_acknowledged_at" (PyRuntime.isoformat now))

/-- `finish_run`. -/
def finishRun (s : Ledger) (runId : ℕ) (succeeded : Bool) (now : Instant) :
    Except Refusal Ledger :=
  match s.runs[runId]? with
  | none => .ok s
  | some run =>
      if run.inferenceActive = false ∨ run.inferenceStatus ≠ .running then
        .error (proposalIntegrityError "Inference no longer owns this run")
      else .ok ((s.setRun runId
        (·.stop (if succeeded then .succeeded else .failed))).recomputeRun runId now)

/-- `dismiss_interruption`. -/
def dismissInterruption (s : Ledger) (attentionId : ℕ) (now : Instant) : Except Refusal Ledger :=
  match s.attention[attentionId]? with
  | none => .error ⟨.lookupError,"Attention item not found"⟩
  | some row =>
      if row.state ∉ [AttentionState.interrupted,.stagedChange] ∨ row.actionId.isSome then
        .error (proposalIntegrityError "Only informational notices can be dismissed")
      else if row.resolved then .ok s
      else .ok (s.setAttention attentionId (·.resolve now))

/-- Resolves the unresolved attention rows that satisfy a condition. -/
def resolveWhere (s : Ledger) (p : OwnerAttentionRow → Bool) (now : Instant) : Ledger :=
  {s with attention := s.attention.map fun r =>
    if !r.resolved && p r then r.resolve now else r}

/-- `dismiss_informational_notices`. -/
def dismissInformationalNotices (s : Ledger) (now : Instant) : Ledger :=
  s.resolveWhere (fun r => r.actionId.isNone && (r.state == .interrupted ||
    r.state == .stagedChange)) now

/-- One row of `reconcile_stale_executions`. -/
def reconcileStaleExecution (s : Ledger) (actionId : ℕ) (staleBefore : Instant) :
    Except Refusal Ledger :=
  match s.actions[actionId]? with
  | none => .ok s
  | some action =>
      if action.status ≠ .executing ∨ ¬action.executionStartedAt.any (· < staleBefore) then .ok s
      else if (s.runs[action.runId]?).any fun run =>
          run.inferenceActive && run.heartbeatAt.any (staleBefore ≤ ·) then .ok s
      else (s.setAction actionId (·.doubt)).markUncertain actionId action.doubt (some
        "Execution was abandoned before Atlas could confirm the external outcome.")

section

variable [ActionRuntime]

/-- `record_execution`. -/
def recordExecution (s : Ledger) (runId : ℕ) (operation : String) (arguments : Dict)
    (status summary : String) (output : Json) (now : Instant) : Except Refusal (Ledger × ℕ) := do
  s.runExists runId
  return (s.addAction (recordedAction s.actions.length runId operation arguments status summary
    output now),s.actions.length)

/-- `prepare_proposal`. -/
def prepareProposal (s : Ledger) (runId : ℕ) (operation : String) (arguments : Dict)
    (title capabilityId : String) (now : Instant) : Except Refusal (Ledger × ℕ) := do
  s.requireManagedTaskActive s.runs[runId]?
  s.runExists runId
  let capabilityId := (orNone capabilityId).getD (operationPrefix operation)
  let id := s.actions.length
  let s := s.addAction (preparedAction id runId operation arguments title capabilityId now)
  let s := s.addAttention (approvalNotice id runId operation arguments title now)
  return (s.recomputeRun runId now,id)

/-- `begin_execution`; it returns the proposal to dispatch. -/
def beginExecution (s : Ledger) (actionId : ℕ) (reviewedTargetHash : Option String)
    (now : Instant) : Except Refusal (Ledger × Dict) := do
  let action ← s.getAction actionId actionNotFound
  s.requireManagedTaskActive s.runs[action.runId]?
  let proposal ← verifyProposal action now
  require (reviewedTargetHash.all (· = action.targetHash))
    (proposalIntegrityError "The proposal changed after review; reload its exact details")
  require (action.status = .prepared)
    (proposalIntegrityError "Action proposal is no longer executable")
  return ((s.setAction actionId (·.begin now)).recomputeRun action.runId now,proposal)

/-- `begin_automatic_execution`. -/
def beginAutomaticExecution (s : Ledger) (runId : ℕ) (operation : String) (arguments : Dict)
    (summary capabilityId : String) (now : Instant) : Except Refusal (Ledger × ℕ) := do
  s.requireManagedTaskActive s.runs[runId]?
  s.runExists runId
  return (s.addAction (automaticAction s.actions.length runId operation arguments summary
    capabilityId now),s.actions.length)

end

end Ledger

end Actions
end Atlas
