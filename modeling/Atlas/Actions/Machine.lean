import Atlas.Actions.Recovery
import Atlas.Lib.Trace

/-! The store of runs and actions as a machine. A step is one transaction, taken at an instant;
a refused one leaves the store as it was. The task documents change as they may. -/
namespace Atlas
namespace Actions

inductive Op where
  | openTranscript (row : Memory.TranscriptRow)
  | document (transcriptId : ℕ) (state : Dict)
  | createRun (transcriptId : Option ℕ) (intent : String) (kind : RunKind)
  | queueRun (transcriptId : Option ℕ) (intent : String) (scheduleId : ℕ) (scheduledFor : Instant)
      (snapshot : Dict)
  | startRun (runId : ℕ)
  | heartbeat (runId : ℕ)
  | finishRun (runId : ℕ) (succeeded : Bool)
  | interruptRun (runId : ℕ) (reason : String)
  | expireRun (runId : ℕ) (cutoff : Instant)
  | prepareProposal (runId : ℕ) (operation : String) (arguments : Dict)
      (title capabilityId : String)
  | beginExecution (actionId : ℕ) (reviewedTargetHash : Option String)
  | beginAutomaticExecution (runId : ℕ) (operation : String) (arguments : Dict)
      (summary capabilityId : String)
  | recordExecution (runId : ℕ) (operation : String) (arguments : Dict) (status summary : String)
      (output : Json)
  | cancel (actionId : ℕ)
  | supersede (actionId : ℕ)
  | complete (actionId : ℕ) (status : ActionStatus) (result : Dict) (externalId : Option String)
  | finishAction (runId actionId : ℕ) (result : CapabilityCallResult) (evidenceId : String)
  | reconcileStaleExecution (actionId : ℕ) (staleBefore : Instant)
  | acknowledgeUncertain (actionId : ℕ)
  | dismissInterruption (attentionId : ℕ)
  | dismissInformationalNotices
  | ownerMessage (transcriptId : ℕ)
  | stallAttention (transcriptId runId : ℕ) (title : String) (detail : Dict)
  | resolveStallAttention (transcriptId : ℕ)

namespace Ledger

/-- `_queue_run`: the run is created and put into the queue. -/
def queueRun (s : Ledger) (transcriptId : Option ℕ) (intent : String) (scheduleId : ℕ)
    (scheduledFor : Instant) (snapshot : Dict) (now : Instant) : Except Refusal (Ledger × ℕ) := do
  let (s,runId) ← s.createRun transcriptId intent .scheduled now
  return (s.setRun runId fun r => {r with
    scheduleId := some scheduleId
    scheduledFor := some scheduledFor
    triggerSnapshot := snapshot
    status := .queued
    inferenceStatus := .queued
    inferenceActive := false
    heartbeatAt := none},runId)

/-- The cancellation of a proposal whose operation has become automatic. -/
def supersede (s : Ledger) (actionId : ℕ) (now : Instant) : Except Refusal Ledger := do
  let s ← s.cancel actionId now
  return s.setAction actionId (·.remark "cancel_reason" "superseded_by_current_auto_authority")

/-- Whether an attention row belongs to a run of a conversation. -/
def ofTranscript (s : Ledger) (transcriptId : ℕ) (row : OwnerAttentionRow) : Bool :=
  (row.runId.bind (s.runs[·]?)).any fun run => run.transcriptId == some transcriptId

/-- `_stall_attention`. -/
def stallAttention (s : Ledger) (transcriptId runId : ℕ) (title : String) (detail : Dict) :
    Ledger :=
  if s.attention.any fun r => s.ofTranscript transcriptId r && r.state == .managedTaskStalled &&
      !r.resolved then s
  else s.addAttention {
    runId := some runId
    state := .managedTaskStalled
    title := title
    detail := detail}

/-- The notices of interruption that a new message of the owner resolves. -/
def resolveInterruptions (s : Ledger) (transcriptId : ℕ) (now : Instant) : Ledger :=
  s.resolveWhere (fun r => s.ofTranscript transcriptId r && r.state == .interrupted) now

/-- `_resolve_stall_attention`. -/
def resolveStallAttention (s : Ledger) (transcriptId : ℕ) (now : Instant) : Ledger :=
  s.resolveWhere (fun r => s.ofTranscript transcriptId r && r.state == .managedTaskStalled) now

variable [ActionRuntime]

/-- The transaction of an operation. -/
def apply (s : Ledger) (op : Op) (now : Instant) : Except Refusal Ledger :=
  match op with
  | .openTranscript row => .ok {s with transcripts := s.transcripts ++ [row]}
  | .document transcriptId state => .ok {s with
      transcripts := s.transcripts.modify transcriptId fun t => {t with activeTaskState := state}}
  | .createRun transcriptId intent kind => (s.createRun transcriptId intent kind now).map (·.1)
  | .queueRun transcriptId intent scheduleId scheduledFor snapshot =>
      (s.queueRun transcriptId intent scheduleId scheduledFor snapshot now).map (·.1)
  | .startRun runId => .ok (s.startRun runId now)
  | .heartbeat runId => .ok (s.heartbeat runId now)
  | .finishRun runId succeeded => s.finishRun runId succeeded now
  | .interruptRun runId reason => s.interruptRun runId reason now
  | .expireRun runId cutoff => .ok (s.expireRun runId cutoff)
  | .prepareProposal runId operation arguments title capabilityId =>
      (s.prepareProposal runId operation arguments title capabilityId now).map (·.1)
  | .beginExecution actionId reviewedTargetHash =>
      (s.beginExecution actionId reviewedTargetHash now).map (·.1)
  | .beginAutomaticExecution runId operation arguments summary capabilityId =>
      (s.beginAutomaticExecution runId operation arguments summary capabilityId now).map (·.1)
  | .recordExecution runId operation arguments status summary output =>
      (s.recordExecution runId operation arguments status summary output now).map (·.1)
  | .cancel actionId => s.cancel actionId now
  | .supersede actionId => s.supersede actionId now
  | .complete actionId status result externalId => s.complete actionId status result externalId now
  | .finishAction runId actionId result evidenceId =>
      s.finishAction runId actionId result evidenceId now
  | .reconcileStaleExecution actionId staleBefore => s.reconcileStaleExecution actionId staleBefore
  | .acknowledgeUncertain actionId => s.acknowledgeUncertain actionId now
  | .dismissInterruption attentionId => s.dismissInterruption attentionId now
  | .dismissInformationalNotices => .ok (s.dismissInformationalNotices now)
  | .ownerMessage transcriptId => .ok (s.resolveInterruptions transcriptId now)
  | .stallAttention transcriptId runId title detail =>
      .ok (s.stallAttention transcriptId runId title detail)
  | .resolveStallAttention transcriptId => .ok (s.resolveStallAttention transcriptId now)

/-- One transaction; a refusal rolls it back. -/
def step (s : Ledger) (e : Op × Instant) : Ledger :=
  match s.apply e.1 e.2 with
  | .ok s' => s'
  | .error _ => s

/-- The ledgers that the service reaches from an empty one, whatever it does in which order. -/
def Reachable (s : Ledger) : Prop := Trace.Reach step (fun _ _ => True) (· = {}) s

/-- The ledger after a list of transactions on an empty one. -/
def ran (es : List (Op × Instant)) : Ledger := es.foldl step {}

theorem ran_reachable (es : List (Op × Instant)) : (ran es).Reachable := by
  have hinit : Reachable {} := Trace.Reach.start rfl
  exact hinit.steps es

end Ledger

end Actions
end Atlas
