import Atlas.Actions.Rows
import Atlas.Memory.Intake
import Mathlib.Algebra.Order.Ring.Nat

/-! The task document of a conversation and of a managed task: how it is made, and what model
deltas, runtime events, the controller, cancellation and resumption make of it. -/
namespace Atlas
namespace Runtime

open Memory (strip TranscriptRow)
open Actions

mutual

/-- Equality of values. -/
def sameJson : Json → Json → Bool
  | .null,.null => true
  | .bool a,.bool b => a == b
  | .num a,.num b => a == b
  | .str a,.str b => a == b
  | .arr a,.arr b => sameItems a b
  | .obj a,.obj b => sameFields a b
  | _,_ => false

def sameItems : List Json → List Json → Bool
  | [],[] => true
  | a :: as,b :: bs => sameJson a b && sameItems as bs
  | _,_ => false

def sameFields : List (String × Json) → List (String × Json) → Bool
  | [],[] => true
  | (k,a) :: as,(l,b) :: bs => k == l && sameJson a b && sameFields as bs
  | _,_ => false

end

mutual

def depth : Json → ℕ
  | .arr items => depthItems items + 1
  | .obj fields => depthFields fields + 1
  | _ => 0

def depthItems : List Json → ℕ
  | [] => 0
  | a :: as => max (depth a) (depthItems as)

def depthFields : List (String × Json) → ℕ
  | [] => 0
  | (_,a) :: as => max (depth a) (depthFields as)

end

/-- `state.get(key) or {}`. -/
def part (state : Dict) (key : String) : Dict :=
  match Dict.get state key with
  | some (.obj d) => d
  | _ => []

/-- `state.get(key) or []`. -/
def listed (state : Dict) (key : String) : List Json :=
  match Dict.get state key with
  | some (.arr l) => l
  | _ => []

/-- `int(state.get(key) or 0)`. -/
def number (state : Dict) (key : String) : ℤ :=
  match Dict.get state key with
  | some (.num n) => n
  | some (.bool true) => 1
  | _ => 0

/-- A key that is written only where a value is given. -/
def putSome (state : Dict) (key : String) (value : Option Json) : Dict :=
  match value with
  | none => state
  | some value => Dict.put state key value

def texts (l : List String) : Json := .arr (l.map .str)

/-- `_clip` of a text. -/
def clip (value : String) (limit : ℕ) : String :=
  let text := strip value
  if text.length ≤ limit then text else clipText (limit - 1) text ++ "…"

/-- `_bounded_strings` with the texts found so far. -/
def boundedFrom (limit : ℕ) : List String → List String → List String
  | found,[] => found
  | found,value :: values =>
      let text := clip value 300
      let found := if text ≠ "" ∧ text ∉ found then found ++ [text] else found
      if limit ≤ found.length then found else boundedFrom limit found values

def boundedStrings (values : List String) (limit : ℕ) : List String :=
  boundedFrom limit [] values

def maxOwnerRequest : ℕ := 4000

def maxList : ℕ := 5

def maxEvents : ℕ := 32

def maxWorkingSet : ℕ := 16

def maxErrors : ℕ := 8

def maxAuthorityGrants : ℕ := 64

def safeKeys : List String := ["project","path","source_path","target_path","name","message_id",
  "event_id","folder_id","file_id","sha256","session_id","codex_thread_id"]

def emptySemantic : Dict := [
  ("objective",.null),
  ("constraints",.arr []),
  ("decisions",.arr []),
  ("findings",.arr []),
  ("open_questions",.arr []),
  ("next_step",.null)]

/-- `new_task_state`. -/
def newTaskState (taskId ownerRequest : String) : Dict := [
  ("version",.num 3),
  ("mode",.str "conversation"),
  ("task_id",.str taskId),
  ("revision",.num 0),
  ("status",.str "active"),
  ("runtime",.obj [
    ("owner_request",.str (clip ownerRequest maxOwnerRequest)),
    ("owner_turns",.num 1),
    ("recent_events",.arr []),
    ("working_set",.arr []),
    ("pending_actions",.arr []),
    ("errors",.arr [])]),
  ("semantic",.obj emptySemantic)]

/-- `begin_owner_turn`. -/
def beginOwnerTurn (fresh : String) (state : Dict) (ownerRequest : String) : Dict :=
  if state.isEmpty ∨ Dict.text state "status" = some "complete" then
    let result := newTaskState fresh ownerRequest
    if state.isEmpty then result
    else Dict.put result "runtime" (.obj (Dict.put (part result "runtime") "pending_actions"
      ((Dict.get (part state "runtime") "pending_actions").getD (.arr []))))
  else
    let runtime := part state "runtime"
    Dict.put (Dict.put state "runtime" (.obj (Dict.put (Dict.put runtime
      "owner_request" (.str (clip ownerRequest maxOwnerRequest)))
      "owner_turns" (.num (number runtime "owner_turns" + 1)))))
      "status" (.str "active")

/-- `_begin_owner_checkpoint`. -/
def beginOwnerCheckpoint (fresh : String) (state : Dict) (request ownerTurnId : String) : Dict :=
  let state := beginOwnerTurn fresh state request
  Dict.put state "runtime" (.obj (Dict.put (part state "runtime") "owner_turn_id"
    (.str ownerTurnId)))

/-- What the owner agrees to when a managed task is made. -/
structure ManagedTask where
  title : String
  objective : String
  scope : List String
  acceptanceCriteria : List String
  checkpoints : List String := []
  sourceChatId : Option String := none
  policyPreset : Option String := none
  projectId : Option String := none
  handoff : String := ""
  authorityGrants : List String := []

def textOrNull : Option String → Json
  | none => .null
  | some s => .str s

/-- Texts numbered from one, the blank ones skipped, as entries of a contract. -/
def entries (letter : String) (limit : ℕ) (values : List String) (extra : Dict) : List Json :=
  (values.zipIdx 1).filterMap fun (text,index) =>
    if strip text = "" then none
    else some (.obj ([
      ("id",.str (letter ++ toString index)),
      ("text",.str (clip text limit)),
      ("status",.str "pending")] ++ extra))

/-- `new_managed_task_state`; the two fresh identities are given. -/
def newManagedTaskState (taskId freshProject : String) (task : ManagedTask) :
    Except Refusal Dict := do
  require (strip task.objective ≠ "") ⟨.valueError,"Managed task objective is required"⟩
  require (task.acceptanceCriteria ≠ [])
    ⟨.valueError,"Managed tasks require at least one acceptance criterion"⟩
  let criteria := entries "A" 500 task.acceptanceCriteria [("evidence_refs",.arr [])]
  require (criteria.isEmpty = false)
    ⟨.valueError,"Managed tasks require at least one non-empty acceptance criterion"⟩
  let state := newTaskState taskId ((orNone task.handoff).getD task.objective)
  let semantic := Dict.put (Dict.put (Dict.put (part state "semantic")
    "objective" (.str (clip task.objective 800)))
    "constraints" (texts (boundedStrings task.scope 8)))
    "next_step" (.str "Begin the agreed task and advance the first checkpoint.")
  let runtime := Dict.put (Dict.put (Dict.put (Dict.put (part state "runtime")
    "managed_turns" (.num 0))
    "retry_count" (.num 0))
    "last_event_evidence_id" .null)
    "completion_rejected" .null
  return [
    ("version",.num 3),
    ("mode",.str "managed"),
    ("task_id",.str taskId),
    ("revision",.num 0),
    ("status",.str "active"),
    ("runtime",.obj runtime),
    ("semantic",.obj semantic),
    ("project_id",.str ((task.projectId.bind orNone).getD freshProject)),
    ("project_title",.str (clip ((orNone task.title).getD task.objective) 160)),
    ("source_chat_id",textOrNull task.sourceChatId),
    ("policy_preset",textOrNull task.policyPreset),
    ("authority_grants",texts (boundedStrings task.authorityGrants maxAuthorityGrants)),
    ("scope",texts (boundedStrings task.scope 16)),
    ("acceptance_criteria",.arr criteria),
    ("checkpoints",.arr (entries "C" 300 task.checkpoints [])),
    ("progress",.obj [
      ("percent",.num 0),
      ("current_checkpoint",.null),
      ("completed_checkpoints",.arr []),
      ("coding_session_id",.null),
      ("updates",.arr [])])]

structure TaskDecision where
  text : String
  rationale : Option String := none

inductive CriterionStatus where
  | pending
  | passed
  | failed
  deriving Repr, DecidableEq

def CriterionStatus.value : CriterionStatus → String
  | .pending => "pending"
  | .passed => "passed"
  | .failed => "failed"

structure TaskAcceptanceUpdate where
  id : String
  status : CriterionStatus
  evidenceRefs : List String := []

inductive DeltaStatus where
  | active
  | complete
  deriving Repr, DecidableEq

/-- What a model proposes to change about a task. -/
structure TaskStateDelta where
  objective : Option String := none
  constraints : Option (List String) := none
  decisions : Option (List TaskDecision) := none
  findings : Option (List String) := none
  openQuestions : Option (List String) := none
  nextStep : Option String := none
  progress : Option ℕ := none
  currentCheckpoint : Option String := none
  completedCheckpoints : Option (List String) := none
  acceptanceUpdates : Option (List TaskAcceptanceUpdate) := none
  codingSessionId : Option String := none
  status : Option DeltaStatus := none
  replace : Bool := false

def managed (state : Dict) : Bool := Dict.text state "mode" == some "managed"

/-- The semantic fields that a delta names. -/
def mergeSemantic (semantic : Dict) (delta : TaskStateDelta) : Dict :=
  let semantic := putSome semantic "objective" (delta.objective.map fun o => .str (clip o 800))
  let semantic := putSome semantic "constraints"
    (delta.constraints.map fun l => texts (boundedStrings l maxList))
  let semantic := putSome semantic "findings"
    (delta.findings.map fun l => texts (boundedStrings l maxList))
  let semantic := putSome semantic "open_questions"
    (delta.openQuestions.map fun l => texts (boundedStrings l maxList))
  let semantic := putSome semantic "decisions" (delta.decisions.map fun l =>
    .arr ((l.take maxList).map fun d => .obj (putSome [("text",.str (clip d.text 400))]
      "rationale" ((d.rationale.bind orNone).map fun r => .str (clip r 400)))))
  putSome semantic "next_step" (delta.nextStep.map fun n => .str (clip n 500))

section

variable [ActionRuntime]

/-- `str(item.get(key))` of an entry that is an object. -/
def entryText (item : Json) (key : String) : Option String :=
  match item with
  | .obj _ => some (ActionRuntime.str ((item.field key).getD .null))
  | _ => none

/-- `_known_evidence_ids`. -/
def knownEvidenceIds (state : Dict) : List String :=
  (listed (part state "runtime") "recent_events").filterMap fun item =>
    if (item.field "evidence_id").any Json.truthy then entryText item "evidence_id" else none

/-- The position of the last entry with an id. -/
def lastEntry (entries : List Json) (id : String) : Option ℕ :=
  (List.range entries.length).reverse.find? fun i =>
    (entries[i]?).any fun item => entryText item "id" == some id

def Json.mapFields (f : Dict → Dict) : Json → Json
  | .obj fields => .obj (f fields)
  | value => value

/-- One round of `_apply_acceptance_updates`. -/
def applyAcceptanceUpdate (known : List String) (criteria : List Json)
    (update : TaskAcceptanceUpdate) : List Json :=
  match lastEntry criteria update.id with
  | none => criteria
  | some i =>
      let evidence := update.evidenceRefs.filter (known.contains ·)
      if update.status = .passed ∧ evidence = [] then criteria
      else criteria.modify i (Json.mapFields fun fields =>
        Dict.put (Dict.put fields "status" (.str update.status.value))
          "evidence_refs" (texts evidence))

/-- `_apply_acceptance_updates`. -/
def applyAcceptanceUpdates (state : Dict) (updates : List TaskAcceptanceUpdate) : Dict :=
  match Dict.get state "acceptance_criteria" with
  | some (.arr criteria) => Dict.put state "acceptance_criteria"
      (.arr (updates.foldl (applyAcceptanceUpdate (knownEvidenceIds state)) criteria))
  | _ => state

/-- `_all_acceptance_passed`. -/
def allAcceptancePassed (state : Dict) : Bool :=
  match Dict.get state "acceptance_criteria" with
  | some (.arr criteria) => !criteria.isEmpty && criteria.all fun item =>
      item.textAt "status" == some "passed" && (item.field "evidence_refs").any Json.truthy
  | _ => false

/-- The checkpoints after a delta that names the completed ones. -/
def markCheckpoints (completed : List String) (checkpoints : List Json) : List Json :=
  checkpoints.map (Json.mapFields fun fields => Dict.put fields "status"
    (if (Dict.text fields "id").any (completed.contains ·) then .str "complete"
    else (Dict.get fields "status").getD (.str "pending")))

/-- The part of `merge_semantic_delta` for managed tasks. -/
def mergeManaged (state : Dict) (delta : TaskStateDelta) : Dict :=
  let progress := putSome (part state "progress") "percent" (delta.progress.map fun n => .num n)
  let progress := putSome progress "current_checkpoint"
    (delta.currentCheckpoint.map fun c => .str (clip c 120))
  let completed := delta.completedCheckpoints.map (boundedStrings · 32)
  let progress := putSome progress "completed_checkpoints" (completed.map texts)
  let progress := putSome progress "coding_session_id"
    (delta.codingSessionId.map fun c => .str (clip c 120))
  let state := Dict.put state "progress" (.obj progress)
  let state := match completed,Dict.get state "checkpoints" with
    | some completed,some (.arr checkpoints) => Dict.put state "checkpoints"
        (.arr (markCheckpoints completed checkpoints))
    | _,_ => state
  let state := match delta.acceptanceUpdates with
    | none => state
    | some updates => applyAcceptanceUpdates state updates
  Dict.put state "runtime" (.obj (Dict.put (part state "runtime") "managed_turns"
    (.num (number (part state "runtime") "managed_turns" + 1))))

def putIn (state : Dict) (key field : String) (value : Json) : Dict :=
  Dict.put state key (.obj (Dict.put (part state key) field value))

/-- The part of `merge_semantic_delta` for a status that the delta names. -/
def concludeDelta (state : Dict) (status : DeltaStatus) : Dict :=
  if status = .complete ∧ managed state then
    if listed (part state "runtime") "pending_actions" ≠ [] ∨ ¬allAcceptancePassed state then
      let state := putIn (Dict.put state "status" (.str "active")) "runtime" "completion_rejected"
        (.str ("Completion requires every acceptance criterion to be passed with known runtime " ++
          "evidence and no pending actions."))
      if (Dict.get (part state "semantic") "next_step").any Json.truthy then state
      else putIn state "semantic" "next_step"
        (.str "Verify the remaining acceptance criteria and continue the task.")
    else
      putIn (putIn (putIn (Dict.put state "status" (.str "complete"))
        "runtime" "completion_rejected" .null)
        "semantic" "next_step" .null)
        "progress" "percent" (.num 100)
  else
    match status with
    | .active => Dict.put state "status" (.str "active")
    | .complete => putIn (Dict.put state "status" (.str "complete")) "semantic" "next_step" .null

/-- `merge_semantic_delta`. -/
def mergeSemanticDelta (fresh : String) (state : Dict) (delta : TaskStateDelta) : Dict :=
  let state := if state.isEmpty then newTaskState fresh "" else state
  let state := if delta.replace then Dict.put state "semantic" (.obj emptySemantic) else state
  let state := Dict.put state "semantic" (.obj (mergeSemantic (part state "semantic") delta))
  let state := if managed state then mergeManaged state delta else state
  match delta.status with
  | none => state
  | some status => concludeDelta state status

/-- `remove_resolved_pending_actions`. -/
def removeResolvedPendingActions (fresh : String) (state : Dict) (resolved : List String) : Dict :=
  let state := if state.isEmpty then newTaskState fresh "" else state
  if resolved = [] then state
  else putIn state "runtime" "pending_actions"
    (.arr ((listed (part state "runtime") "pending_actions").filter fun item =>
      !resolved.contains (match (item.field "action_id").filter Json.truthy with
        | none => ""
        | some id => ActionRuntime.str id)))

/-- The texts of the safe keys of one object. -/
def safeFields (value found : Dict) : Dict :=
  safeKeys.foldl (fun found key =>
    if 6 ≤ found.length then found
    else match Dict.get value key with
      | some (.str s) =>
          if strip s ≠ "" ∧ (Dict.get found key).isNone then
            Dict.put found key (.str (clip s 160))
          else found
      | some (.num n) =>
          if (Dict.get found key).isNone then
            Dict.put found key (.str (if n = 0 then "" else clip (ActionRuntime.str (.num n)) 160))
          else found
      | some (.bool b) =>
          if (Dict.get found key).isNone then
            Dict.put found key (.str (if b then clip (ActionRuntime.str (.bool b)) 160 else ""))
          else found
      | _ => found) found

/-- `inspect`, down to a depth. -/
def inspectTargets : ℕ → Dict → Dict → Dict
  | 0,_,found => found
  | fuel + 1,value,found => ["output","resource","result"].foldl (fun found key =>
      match Dict.get value key with
      | some (.obj nested) => inspectTargets fuel nested found
      | _ => found) (safeFields value found)

/-- `_safe_targets`. -/
def safeTargets (arguments detail : Dict) : Dict :=
  inspectTargets (depth (.obj detail)) detail
    (inspectTargets (depth (.obj arguments)) arguments [])

/-- An event of the runtime as the task document records it. -/
structure RuntimeEvent where
  operation : String
  phase : String
  evidenceId : String
  arguments : Dict := []
  detail : Dict := []
  actionId : Option String := none

def lastItems (n : ℕ) (l : List Json) : List Json := l.drop (l.length - n)

/-- The pending actions of a task after an event. -/
def pendingAfter (pending : List Json) (event : RuntimeEvent) (targets : Dict) : List Json :=
  match event.actionId.bind orNone with
  | none => pending
  | some actionId =>
      let others := pending.filter fun item => item.textAt "action_id" != some actionId
      let item : Dict := [
        ("action_id",.str actionId),
        ("operation",.str event.operation),
        ("phase",.str event.phase),
        ("evidence_id",.str event.evidenceId)]
      if event.phase ∈ ["prepared","approval_required","executing"] then
        others ++ [.obj (item ++ [("targets",.obj targets)])]
      else if event.phase = "uncertain" then others ++ [.obj item]
      else if event.phase ∈ ["succeeded","failed","cancelled","rejected"] then others
      else pending

/-- `record_runtime_event`. -/
def recordRuntimeEvent (fresh : String) (state : Dict) (event : RuntimeEvent) : Dict :=
  let state := if state.isEmpty then newTaskState fresh "" else state
  let runtime := part state "runtime"
  let targets := safeTargets event.arguments event.detail
  let entry : Dict := [
    ("operation",.str event.operation),
    ("phase",.str event.phase),
    ("evidence_id",.str event.evidenceId),
    ("targets",.obj targets)]
  let entry := putSome entry "action_id" ((event.actionId.bind orNone).map .str)
  let runtime := Dict.put runtime "recent_events"
    (.arr (lastItems maxEvents (listed runtime "recent_events" ++ [Json.obj entry])))
  let runtime :=
    if managed state then Dict.put runtime "last_event_evidence_id" (.str event.evidenceId)
    else runtime
  let runtime :=
    if targets.isEmpty then runtime
    else
      let item : Dict := Dict.put (("operation",.str event.operation) :: targets)
        "evidence_id" (.str event.evidenceId)
      let key (item : Json) : String := PyRuntime.dumps true (Json.mapFields
        (fun fields => fields.filter fun p => p.1 != "evidence_id") item)
      Dict.put runtime "working_set" (.arr (lastItems maxWorkingSet
        (((listed runtime "working_set").filter fun other => key other != key (.obj item)) ++
          [Json.obj item])))
  let runtime := Dict.put runtime "pending_actions"
    (.arr (pendingAfter (listed runtime "pending_actions") event targets))
  let runtime :=
    if event.phase ∈ ["failed","uncertain","unavailable","forbidden"] then
      Dict.put runtime "errors" (.arr (lastItems maxErrors (listed runtime "errors" ++ [Json.obj [
        ("operation",.str event.operation),
        ("phase",.str event.phase),
        ("evidence_id",.str event.evidenceId),
        ("message",.str (match Dict.text event.detail "message" with
          | none => ""
          | some message => clip message 500))]])))
    else runtime
  Dict.put state "runtime" (.obj runtime)

end

/-- `_set_controller_state`: the transform of the task document. -/
def controllerState (state : Dict) (controller : String) (nextWakeAt : Option String)
    (retryCount transientRetryCount : Option ℕ) (runId finishedAt : Option String) : Dict :=
  let runtime := Dict.put (Dict.put (part state "runtime")
    "controller_state" (.str controller))
    "next_wake_at" (textOrNull nextWakeAt)
  let runtime := putSome runtime "retry_count" (retryCount.map fun n => .num n)
  let runtime := putSome runtime "transient_retry_count" (transientRetryCount.map fun n => .num n)
  let runtime := putSome runtime "last_worker_run_id" (runId.map .str)
  let runtime := putSome runtime "last_worker_finished_at" (finishedAt.map .str)
  Dict.put state "runtime" (.obj runtime)

/-- The task document that `cancel_task` writes. -/
def cancelledState (state : Dict) (cancelledAt reason : String) : Dict :=
  let state := putIn (Dict.put state "status" (.str "cancelled")) "semantic" "next_step" .null
  Dict.put state "runtime" (.obj (Dict.put (Dict.put (Dict.put (Dict.put (Dict.put
    (part state "runtime")
    "controller_state" (.str "cancelled"))
    "next_wake_at" .null)
    "pending_actions" (.arr []))
    "cancelled_at" (.str cancelledAt))
    "cancel_reason" (.str reason)))

/-- The task document that `resume_task` writes. -/
def resumedState (state : Dict) (wakeAt : String) : Dict :=
  let runtime := part state "runtime"
  Dict.put state "runtime" (.obj (Dict.put (Dict.put (Dict.put (Dict.put (Dict.put runtime
    "controller_state" (.str "ready"))
    "retry_count" (.num 0))
    "transient_retry_count" (.num 0))
    "next_wake_at" (.str wakeAt))
    "completion_rejected" ((Dict.get runtime "completion_rejected").getD .null)))

/-- The settings of the worker that bound its retries. -/
structure RetryLimits where
  pollSeconds : ℕ := 15
  maxNoProgress : ℕ := 3
  maxTransientFailures : ℕ := 48

/-- How an iteration of the worker ended. -/
structure IterationOutcome where
  runId : ℕ
  now : Instant
  initialProgressSignature : String
  succeeded : Bool
  transient : Bool := false

/-- `_transient_retry_delay`. -/
def transientRetryDelay (limits : RetryLimits) (retries : ℕ) : ℕ :=
  min 900 (max 15 limits.pollSeconds * 2 ^ min (retries - 1) 6)

section

variable [ActionRuntime]

/-- `_progress_signature`. -/
def progressSignature (state : Dict) : String :=
  let orEmpty (key : String) (empty : Json) : Json :=
    ((Dict.get state key).filter Json.truthy).getD empty
  PyRuntime.dumps true (.obj [
    ("semantic",orEmpty "semantic" (.obj [])),
    ("acceptance_criteria",orEmpty "acceptance_criteria" (.arr [])),
    ("checkpoints",orEmpty "checkpoints" (.arr [])),
    ("progress",orEmpty "progress" (.obj [])),
    ("pending_actions",.arr (listed (part state "runtime") "pending_actions")),
    ("completion_rejected",(Dict.get (part state "runtime") "completion_rejected").getD .null)])

/-- `_record_iteration_outcome`: the task document. -/
def iterationOutcome (limits : RetryLimits) (outcome : IterationOutcome) (state : Dict) : Dict :=
  let runtime := part state "runtime"
  let conclude (controller : String) (delay : Option ℕ) (retryCount transientCount : ℕ) : Dict :=
    controllerState state controller
      (delay.map fun n => PyRuntime.isoformat (outcome.now + seconds n))
      (some retryCount) (some transientCount) (some (toString outcome.runId))
      (some (PyRuntime.isoformat outcome.now))
  if Dict.text state "status" ≠ some "active" then
    conclude (match (Dict.get state "status").filter Json.truthy with
      | some status => ActionRuntime.str status
      | none => "complete") none 0 0
  else if listed runtime "pending_actions" ≠ [] then conclude "waiting_for_owner" none 0 0
  else
    let retryCount := (number runtime "retry_count").toNat
    if outcome.succeeded = false ∧ outcome.transient then
      let transientCount := (number runtime "transient_retry_count").toNat + 1
      if limits.maxTransientFailures ≤ transientCount then
        conclude "stalled" none retryCount transientCount
      else conclude "retrying" (some (transientRetryDelay limits transientCount)) retryCount
        transientCount
    else
      let progressed := progressSignature state != outcome.initialProgressSignature
      let retryCount := if progressed && outcome.succeeded then 0 else retryCount + 1
      if limits.maxNoProgress ≤ retryCount then conclude "stalled" none retryCount 0
      else if progressed && outcome.succeeded then
        conclude "ready" (some limits.pollSeconds) retryCount 0
      else conclude "ready" (some (min 120 (limits.pollSeconds * 2 ^ (retryCount - 1)))) retryCount 0

end

/-- `update_active_task_state` at the revision it expects. -/
def storeTask (fresh : String) (row : TranscriptRow) (state : Dict) : TranscriptRow :=
  let state := if (Dict.get state "task_id").isSome then state
    else Dict.put state "task_id" (.str fresh)
  {row with
    activeTaskState := Dict.put state "revision" (.num (row.activeTaskRevision + 1))
    activeTaskRevision := row.activeTaskRevision + 1}

/-- `mutate_active_task_state`: a transform that changes nothing is not stored. -/
def mutateTask (fresh : String) (row : TranscriptRow) (transform : Dict → Dict) : TranscriptRow :=
  let updated := transform row.activeTaskState
  if sameFields updated row.activeTaskState then row else storeTask fresh row updated

end Runtime
end Atlas
