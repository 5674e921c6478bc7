import Atlas.Actions.Authority

/-! The liveness of inference runs, what their interruption and recovery leave behind, and the
results of dispatched actions. A function is one transaction. -/
namespace Atlas
namespace Actions

open RowTable

/-- What a call of a capability came to. -/
structure CapabilityCallResult where
  status : String
  operationId : String
  output : Json := .null
  proposalId : Option ℕ := none
  message : Option String := none

/-- `action_status_for_result`. -/
def actionStatusForResult (result : CapabilityCallResult) : ActionStatus :=
  let phase := result.output.textAt "failure_phase"
  if result.status = "succeeded" then .succeeded
  else if result.status ∈ ["forbidden","unavailable"] ∨
      phase ∈ [some "before_dispatch",some "completed"] then .failed
  else .uncertain

theorem actionStatusForResult_mem (result : CapabilityCallResult) :
    actionStatusForResult result ∈ [ActionStatus.succeeded,.failed,.uncertain] := by
  simp only [actionStatusForResult]
  split
  · simp
  · split
    · simp
    · simp

section

variable [ActionRuntime]

/-- `external_effect_id`. -/
def externalEffectId (output : Json) : Option String :=
  ["id","messageId","message_id","eventId","event_id"].findSome? fun key =>
    match output.field key with
    | some (.str s) => orNone s
    | some (.num n) => orNone (ActionRuntime.str (.num n))
    | some (.bool b) => orNone (ActionRuntime.str (.bool b))
    | _ => none

end

namespace Ledger

/-- `maintain_heartbeat`: the update of one beat. -/
def heartbeat (s : Ledger) (runId : ℕ) (now : Instant) : Ledger :=
  s.setRun runId fun r => if r.inferenceActive then {r with heartbeatAt := some now} else r

/-- `require_live_run`. -/
def requireLiveRun (s : Ledger) (runId : ℕ) : Except Refusal RunRow :=
  match (s.runs[runId]?).filter (·.inferenceActive) with
  | none => .error ⟨.runInterrupted,
      "This inference run no longer owns execution; durable task state was retained"⟩
  | some run =>
      match (run.transcriptId).bind (s.transcripts[·]?) with
      | none => .ok run
      | some transcript =>
          if Dict.text transcript.activeTaskState "mode" = some "managed" ∧
              Dict.text transcript.activeTaskState "status" = some "cancelled" then
            .error ⟨.runInterrupted,
              "This managed task was cancelled; no further effects may be dispatched"⟩
          else .ok run

/-- One action that an interrupted run leaves in doubt. -/
def abandonAction (reason : String) (s : Ledger) (actionId : ℕ) : Except Refusal Ledger :=
  match s.actions[actionId]? with
  | none => .ok s
  | some action =>
      if action.status ≠ .executing then .ok s
      else (s.setAction actionId (·.doubt)).markUncertain actionId action.doubt (some reason)

/-- The executing actions of a run. -/
def executingActions (s : Ledger) (runId : ℕ) : List ℕ :=
  ids (fun a => a.runId == runId && a.status == .executing) s.actions

/-- The notice of an interruption to the owner. -/
def noteInterruption (s : Ledger) (runId : ℕ) (reason : String) : Except Refusal Ledger :=
  match scalarOneOrNone (ids (fun r => r.runId == some runId && r.actionId.isNone &&
      r.state == .interrupted && !r.resolved) s.attention) with
  | .error e => .error e
  | .ok (some _) => .ok s
  | .ok none => .ok (s.addAttention {
      runId := some runId
      state := .interrupted
      title := "Atlas work was interrupted"
      detail := [
        ("message",.str reason),
        ("resume",.str ("Continue with a new owner message; exact prior evidence and task " ++
          "state are retained."))]})

/-- The transaction of `recover_abandoned_runs` that ends the inference of a silent run. -/
def expireRun (s : Ledger) (runId : ℕ) (cutoff : Instant) : Ledger :=
  s.setRun runId fun r =>
    if r.inferenceStatus ≠ .running ∨ r.heartbeatAt.any (cutoff ≤ ·) then r
    else {r with inferenceActive := false}

/-- The transaction of `_execute_task` that takes an occurrence from the queue. -/
def startRun (s : Ledger) (runId : ℕ) (now : Instant) : Ledger :=
  s.setRun runId fun r =>
    if r.inferenceStatus ≠ .queued then r
    else {r with
      inferenceActive := true
      inferenceStatus := .running
      status := .running
      heartbeatAt := some now}

section

variable [ActionRuntime]

/-- `_managed_task_status`. -/
def managedTaskStatus (s : Ledger) (transcriptId : Option ℕ) : Option String :=
  match transcriptId.bind (s.transcripts[·]?) with
  | none => none
  | some transcript =>
      if Dict.text transcript.activeTaskState "mode" ≠ some "managed" then none
      else match (Dict.get transcript.activeTaskState "status").filter Json.truthy with
        | none => some "active"
        | some status => some (ActionRuntime.str status)

/-- `interrupt_run`. -/
def interruptRun (s : Ledger) (runId : ℕ) (reason : String) (now : Instant) :
    Except Refusal Ledger :=
  match s.runs[runId]? with
  | none => .ok s
  | some run =>
      if run.inferenceStatus ∉ [InferenceStatus.running,.queued] then .ok s
      else do
        let s := s.setRun runId (·.stop .interrupted)
        let s ← (s.executingActions runId).foldlM (abandonAction reason) s
        let s := s.recomputeRun runId now
        if (s.managedTaskStatus run.transcriptId).isSome then return s
        else s.noteInterruption runId reason

/-- The notice of a change staged by an action. -/
def noteStagedChange (s : Ledger) (runId : ℕ) (result : CapabilityCallResult) : Ledger :=
  if result.status = "succeeded" ∧ result.operationId.startsWith "storage.projects." ∧
      result.output.textAt "status" = some "staged" then
    s.addAttention {
      runId := some runId
      state := .stagedChange
      title := "Project change ready to review"
      detail := [
        ("message",.str ("Live project files are unchanged. Download the bundle and integrate " ++
          "it through your editor or version-control workflow.")),
        ("download_url",.str ("/api/project-changes/" ++
          (result.output.textAt "change_id").getD "")),
        ("path",(result.output.field "path").getD .null)]}
  else s

/-- `finish_action`: the outcome of an action, or the evidence of a late one. -/
def finishAction (s : Ledger) (runId actionId : ℕ) (result : CapabilityCallResult)
    (evidenceId : String) (now : Instant) : Except Refusal Ledger := do
  let action ← s.getAction actionId actionNotFound
  if action.status ≠ .executing then
    return s.setAction actionId (·.remark "late_result_evidence_id" evidenceId)
  else
    let s ← s.complete actionId (actionStatusForResult result)
      [("status",.str result.status),("evidence_id",.str evidenceId)]
      (externalEffectId result.output) now
    return s.noteStagedChange runId result

end

end Ledger

end Actions
end Atlas
