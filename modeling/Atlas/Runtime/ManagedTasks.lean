import Atlas.Actions.Inference
import Atlas.Runtime.TaskState

/-! The workers of managed tasks. A claim locks its transcripts when it selects them, looks at
them one after the other, and commits what it found with the run it makes; steps of other
claims and of the service fall in between. -/
namespace Atlas
namespace Runtime

open Actions RowTable
open Memory (TranscriptRow)

def taskKind : String := "managed_task"

/-- What a claim makes of one transcript, and the intent of the run it wants to make there. -/
structure Look where
  row : TranscriptRow
  superseded : List ℕ := []
  intent : Option String := none

/-- An open claim transaction. -/
structure Claim where
  held : List ℕ
  todo : List ℕ
  looks : List (ℕ × Look) := []
  chosen : Option (ℕ × String) := none

/-- The background runs of a conversation whose inference is active. -/
def activeTaskRuns (s : Ledger) (transcriptId : ℕ) : List ℕ :=
  ids (fun r => r.transcriptId == some transcriptId && r.kind == .background &&
    r.inferenceActive) s.runs

section

variable [ActionRuntime]

/-- `_parse_time`. -/
def parseTime (value : Option Json) : Option Instant :=
  (value.filter Json.truthy).bind fun value =>
    (ActionRuntime.fromisoformat (ActionRuntime.str value)).map Moment.utc

/-- The actions that a task document names as pending. -/
def pendingActionIds (state : Dict) : List ℕ :=
  (listed (part state "runtime") "pending_actions").filterMap fun item =>
    ((item.field "action_id").filter Json.truthy).bind fun id =>
      ActionRuntime.uuid (ActionRuntime.str id)

/-- Whether a pending proposal is superseded by the authority its operation now has. -/
def supersedes (auto : ℕ → Bool) (id : ℕ) (action : ActionRow) : Bool :=
  action.status == .prepared && action.operation.startsWith "coding.agent." && auto id

/-- Whether a pending action is no longer pending for its task. -/
def settledAction (s : Ledger) (id : ℕ) (action : ActionRow) : Bool :=
  let seen := s.attention.any fun r => r.actionId == some id
  let isOpen := s.attention.any fun r => r.actionId == some id && !r.resolved
  match action.status with
  | .succeeded | .failed | .cancelled => true
  | .uncertain => Dict.holds action.evidence "owner_acknowledged_at" || (seen && !isOpen)
  | _ => false

/-- `_reconcile_pending`: the task document, and the proposals it supersedes. -/
def reconcilePending (s : Ledger) (auto : ℕ → Bool) (fresh : String) (row : TranscriptRow) :
    TranscriptRow × List ℕ :=
  let pending := (ids (fun _ => true) s.actions).filter
    (pendingActionIds row.activeTaskState).contains
  let superseded := pending.filter fun id => (s.actions[id]?).any (supersedes auto id)
  let resolved := pending.filter fun id =>
    (s.actions[id]?).any fun a => supersedes auto id a || settledAction s id a
  if resolved = [] then (row,[])
  else (mutateTask fresh row
    (removeResolvedPendingActions fresh · (resolved.map fun id => toString id)),superseded)

/-- `str(a or b or …)` of the texts that a claim takes its intent from. -/
def claimIntent (state : Dict) : String :=
  let semantic := part state "semantic"
  match (Dict.get semantic "next_step").filter Json.truthy,
    (Dict.get semantic "objective").filter Json.truthy with
  | some next,_ => ActionRuntime.str next
  | none,some objective => ActionRuntime.str objective
  | none,none => "Continue managed task"

/-- One round of the loop of `_claim_one`. -/
def look (s : Ledger) (auto : ℕ → Bool) (fresh : String) (now : Instant) (id : ℕ)
    (row : TranscriptRow) : Look :=
  let state := row.activeTaskState
  if managed state = false ∨ Dict.text state "status" ≠ some "active" then {row := row}
  else
    let (row,superseded) := reconcilePending s auto fresh row
    let runtime := part row.activeTaskState "runtime"
    if listed runtime "pending_actions" ≠ [] then
      let waiting := mutateTask fresh row
        (controllerState · "waiting_for_owner" none none none none none)
      {row := waiting, superseded := superseded}
    else if Dict.text runtime "controller_state" = some "stalled" ∨
        (parseTime (Dict.get runtime "next_wake_at")).any (now < ·) ∨
        activeTaskRuns s id ≠ [] then
      {row := row, superseded := superseded}
    else
      {row := row, superseded := superseded, intent := some (claimIntent row.activeTaskState)}

/-- What a claim writes for one transcript. -/
def writeLook (now : Instant) (s : Ledger) (entry : ℕ × Look) : Except Refusal Ledger := do
  let s ← entry.2.superseded.foldlM (fun s id => s.supersede id now) s
  return {s with transcripts := s.transcripts.modify entry.1 fun _ => entry.2.row}

/-- The run that a claim makes. -/
def claimedRun (s : Ledger) (transcriptId : ℕ) (runId : ℕ) : Ledger :=
  match s.transcripts[transcriptId]? with
  | none => s
  | some row =>
      let state := row.activeTaskState
      s.setRun runId fun r => {r with
        workspaceId := (Dict.text state "project_id").bind ActionRuntime.uuid
        triggerSnapshot := [
          ("task_id",(Dict.get state "task_id").getD .null),
          ("project_id",(Dict.get state "project_id").getD .null),
          ("task_revision",.num row.activeTaskRevision),
          ("controller",.str "managed_task_worker")]}

/-- The transaction of `_claim_one` from its writes to its commit. -/
def commitClaim (s : Ledger) (looks : List (ℕ × Look)) (transcriptId : ℕ) (intent fresh : String)
    (now : Instant) : Except Refusal Ledger := do
  let s ← looks.foldlM (writeLook now) s
  let (s,runId) ← s.createRun (some transcriptId) intent .background now
  let s := claimedRun s transcriptId runId
  let running := fun row => mutateTask fresh row
    (controllerState · "running" none none none (some (toString runId)) none)
  return {s with transcripts := s.transcripts.modify transcriptId running}

end

/-- The service with the claims that its workers have opened. -/
structure Workers where
  ledger : Ledger := {}
  claims : List Claim := []

inductive WorkerStep where
  | service (op : Op) (now : Instant)
  | select (skipped : List ℕ)
  | examine (claim : ℕ) (auto : ℕ → Bool) (fresh : String) (now : Instant)
  | commit (claim : ℕ) (fresh : String) (now : Instant)
  | rollback (claim : ℕ)

/-- The order in which a claim takes its transcripts. -/
def claimOrder (s : Ledger) (a b : ℕ) : Bool :=
  match s.transcripts[a]?,s.transcripts[b]? with
  | some x,some y => decide (x.updatedAt < y.updatedAt ∨
      (x.updatedAt = y.updatedAt ∧ x.createdAt ≤ y.createdAt))
  | _,_ => true

/-- The transcripts of managed tasks that are not locked, the least recent first. -/
def selectable (s : Ledger) (locked : ℕ → Bool) : List ℕ :=
  (((ids (fun t => t.kind == taskKind) s.transcripts).filter fun id => !locked id).insertionSort
    fun a b => claimOrder s a b = true).take 20

/-- Whether an operation makes a background run, which only a claim does. -/
def makesBackground : Op → Bool
  | .createRun _ _ .background => true
  | _ => false

namespace Workers

/-- Whether an open claim holds the lock of a transcript. -/
def locked (m : Workers) (id : ℕ) : Bool :=
  m.claims.any fun claim => claim.held.contains id

/-- The end of a claim's transaction. -/
def close (m : Workers) (claim : ℕ) : Workers :=
  {m with claims := m.claims.modify claim fun _ => {held := [],todo := []}}

/-- Whether an operation has to wait for a claim. -/
def waits (m : Workers) : Op → Bool
  | .document transcriptId _ => m.locked transcriptId
  | _ => false

variable [ActionRuntime]

/-- A selection skips the transcripts that an open claim holds, and whatever else is locked. -/
def act (m : Workers) : WorkerStep → Workers
  | .service op now =>
      if makesBackground op ∨ m.waits op then m else {m with ledger := m.ledger.step (op,now)}
  | .select skipped =>
      let held := selectable m.ledger fun id => skipped.contains id || m.locked id
      {m with claims := m.claims ++ [{held := held,todo := held}]}
  | .examine claim auto fresh now =>
      match m.claims[claim]? with
      | some {held := held, todo := id :: todo, looks := looks, chosen := none} =>
          match m.ledger.transcripts[id]? with
          | none => m
          | some row =>
              let found := look m.ledger auto fresh now id row
              {m with claims := m.claims.modify claim fun _ => {
                held := held
                todo := todo
                looks := looks ++ [(id,found)]
                chosen := found.intent.map (id,·)}}
      | _ => m
  | .commit claim fresh now =>
      match m.claims[claim]? with
      | some {held := _, todo := _, looks := looks, chosen := some (transcriptId,intent)} =>
          match commitClaim m.ledger looks transcriptId intent fresh now with
          | .error _ => m.close claim
          | .ok s => {m with ledger := s}.close claim
      | _ => m
  | .rollback claim => m.close claim

/-- The states that the service and its workers reach, in whatever order they take their steps. -/
def Reachable (m : Workers) : Prop := Trace.Reach act (fun _ _ => True) (· = {}) m

theorem ran_reachable (as : List WorkerStep) : Reachable (as.foldl act {}) := by
  have hinit : Reachable {} := Trace.Reach.start rfl
  exact hinit.steps as

/-- The states that can follow one. -/
def Later (m m' : Workers) : Prop := Trace.Path act (fun _ _ => True) m m'

end Workers

end Runtime
end Atlas
