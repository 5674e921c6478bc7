import Atlas.Actions.Recovery
import Atlas.Capabilities.Registry
import Atlas.Lib.Forum

/-! The tool handler of a run, the decision on a proposal and the call of a capability under both.
Each is a program: a request is one transaction, one read of the owner's current policy, one
question to a resolver or one invocation of an executor, and others may act between two of them. -/
namespace Atlas
namespace Actions

/-- The class of the exception that a refusal is. -/
def RefusalKind.name : RefusalKind → String
  | .proposalIntegrity => "ProposalIntegrityError"
  | .foregroundBusy => "ForegroundBusy"
  | .runInterrupted => "RunInterrupted"
  | .lookupError => "LookupError"
  | .valueError => "ValueError"
  | .multipleResults => "MultipleResultsFound"
  | .integrityError => "IntegrityError"
  | .overflowError => "OverflowError"

end Actions

namespace Capabilities

open Actions Dialogue
open Memory (strip)

/-- What an executor that did not raise came to; a `CapabilityFailure` names its phase. -/
inductive Outcome where
  | returned (output : Json)
  | failed (phase message : String) (output : Dict)

inductive Request where
  | requireLiveRun (runId : ℕ)
  | enabledCapabilities
  | operationAuthorities
  | resolver (operationId : String) (arguments : Dict)
  | taskState (transcriptId : ℕ)
  | newSessionId
  | prepareProposal (runId : ℕ) (operation : String) (arguments : Dict)
      (title capabilityId : String)
  | beginAutomaticExecution (runId : ℕ) (operation : String) (arguments : Dict)
      (summary capabilityId : String)
  | recordExecution (runId : ℕ) (operation : String) (arguments : Dict) (status summary : String)
  | finishAction (runId actionId : ℕ) (result : CapabilityCallResult)
  | executor (operationId : String) (arguments : Dict)
  | action (actionId : ℕ)
  | run (runId : ℕ)
  | now
  | cancel (actionId : ℕ)
  | beginExecution (actionId : ℕ) (reviewedTargetHash : Option String)
  | complete (actionId : ℕ) (result : CapabilityCallResult)

/-- What a request is answered, unless it raises. -/
@[reducible] def Request.Answer : Request → Type
  | .requireLiveRun _ => Unit
  | .enabledCapabilities => List String
  | .operationAuthorities => List (String × String)
  | .resolver .. => String
  | .taskState _ => Dict
  | .newSessionId => String
  | .prepareProposal .. => ℕ
  | .beginAutomaticExecution .. => ℕ
  | .recordExecution .. => ℕ
  | .finishAction .. => ActionStatus
  | .executor .. => Outcome
  | .action _ => Option ActionRow
  | .run _ => Option RunRow
  | .now => Instant
  | .cancel _ => Unit
  | .beginExecution .. => Dict
  | .complete .. => Unit

abbrev Request.Reply (q : Request) : Type := Except Refusal q.Answer

abbrev Program (α : Type) := Prog Request Request.Reply Refusal α

/-- A request whose exception is the program's own. -/
def put (q : Request) : Program q.Answer := .ask q .done

/-- The descriptor under which the owner's decision on an operation is looked up. -/
def overrideOf (raw : List (String × String)) (operationId : String) : Option AuthorityMode :=
  ((raw.filterMap fun p => (AuthorityMode.ofValue p.2).map (p.1,·)).find?
    (·.1 == operationId)).map (·.2)

/-- `authority_overrides`, looked up for one operation. -/
def authorityOverride (operationId : String) : Program (Option AuthorityMode) := do
  let raw ← put .operationAuthorities
  return overrideOf raw operationId

def keyError (operationId : String) : Refusal := ⟨.lookupError,operationId⟩

namespace CapabilityRuntime

/-- `resolve_authority`. -/
def resolveAuthority (rt : CapabilityRuntime) (operationId : String) (arguments : Dict) :
    Program AuthorityMode :=
  match rt.descriptor operationId with
  | none => .raise (keyError operationId)
  | some d => do
      let override ← authorityOverride operationId
      match override with
      | some mode => pure mode
      | none =>
          if operationId ∉ rt.authorityResolvers ∨ d.authority = .forbidden then
            pure d.authority
          else
            let value ← put (.resolver operationId arguments)
            match AuthorityMode.ofValue value with
            | none => .raise ⟨.valueError,value ++ " is not a valid AuthorityMode"⟩
            | some mode => pure mode

/-- `apply_task_grant`. -/
def applyTaskGrant (rt : CapabilityRuntime) (operationId : String) (resolved : AuthorityMode) :
    Program AuthorityMode :=
  if operationId ∈ nonDelegableManagedOperations ∨ resolved ≠ .approvalRequired then
    pure resolved
  else
    match rt.descriptor operationId with
    | none => pure resolved
    | some d => do
        let override ← authorityOverride operationId
        if override = some .forbidden ∨ (override = none ∧ d.authority = .forbidden) then
          pure .forbidden
        else pure .auto

/-- The verdict of `preflight_authority_grants` on the grants that are left, after those taken. -/
def preflightGrants (rt : CapabilityRuntime) (enabled : List String)
    (raw : List (String × String)) : List String → List String → List String →
      List String × List String
  | [], taken, problems => (taken,problems)
  | grant :: grants, taken, problems =>
      let operationId := strip grant
      if operationId = "" ∨ operationId ∈ taken then
        rt.preflightGrants enabled raw grants taken problems
      else if operationId ∈ nonDelegableManagedOperations then
        rt.preflightGrants enabled raw grants taken (problems ++
          [operationId ++ ": managed-task lifecycle authority cannot be delegated"])
      else
        match rt.descriptor operationId with
        | none => rt.preflightGrants enabled raw grants taken (problems ++
            [operationId ++ ": operation is not registered"])
        | some d =>
            let override := overrideOf raw operationId
            if d.capabilityId ∉ enabled then
              rt.preflightGrants enabled raw grants taken (problems ++
                [operationId ++ ": capability " ++ d.capabilityId ++ " is disabled"])
            else if override = some .forbidden ∨ (override = none ∧ d.authority = .forbidden) then
              rt.preflightGrants enabled raw grants taken (problems ++
                [operationId ++ ": denied by current Atlas Control policy"])
            else rt.preflightGrants enabled raw grants (taken ++ [operationId]) problems

/-- `preflight_authority_grants`. -/
def preflightAuthorityGrants (rt : CapabilityRuntime) (grants : List String) :
    Program (List String) := do
  let enabled ← put .enabledCapabilities
  let raw ← put .operationAuthorities
  match rt.preflightGrants enabled raw (grants.take 64) [] [] with
  | (taken,[]) => pure taken
  | (_,problems) => .raise ⟨.valueError,
      "Managed-task authority preflight failed: " ++ "; ".intercalate problems⟩

end CapabilityRuntime

/-- A result that nothing was dispatched for. -/
def refused (status operationId message : String) (output : Json := .null) :
    CapabilityCallResult where
  status := status
  operationId := operationId
  output := output
  message := some message

def failurePhase (phase : String) : Json := .obj [("failure_phase",.str phase)]

def outsideAuthority (operationId : String) : CapabilityCallResult :=
  refused "forbidden" operationId "Operation is outside current Atlas authority."

/-- The result of an invocation of the executor. -/
def callResult (operationId : String) : Except Refusal Outcome → CapabilityCallResult
  | .error e => refused "failed" operationId e.message (failurePhase "ambiguous_dispatch")
  | .ok (.failed phase message output) => refused "failed" operationId message
      (.obj (Dict.put output "failure_phase"
        (.str (if phase ∈ ["completed","before_dispatch"] then phase else "completed"))))
  | .ok (.returned output) => {status := "succeeded",operationId := operationId,output := output}

/-- The last part of `call`, with the authority settled. -/
def dispatch (d : OperationDescriptor) (operationId : String) (arguments : Dict)
    (proposalSink : Option (OperationDescriptor → Dict → Program ℕ)) (approvalGranted : Bool)
    (authority : AuthorityMode) : Program CapabilityCallResult :=
  if authority = .forbidden then pure (outsideAuthority operationId)
  else if authority = .approvalRequired ∧ approvalGranted = false then
    match proposalSink with
    | none => pure (refused "approval_required" operationId
        "Owner approval is required before execution.")
    | some sink => do
        let proposalId ← sink d arguments
        pure {refused "approval_required" operationId
          "Action prepared and waiting for owner approval." with proposalId := some proposalId}
  else
    (put (.executor operationId arguments)).attempt >>= fun outcome =>
      pure (callResult operationId outcome)

/-- Whether an operation that is forbidden by default was left so by the owner. -/
def forbiddenByDefault (d : OperationDescriptor) (authority : Option AuthorityMode) :
    Program Bool :=
  if d.authority = .forbidden ∧ authority = none then do
    let override ← authorityOverride d.id
    pure (override == none)
  else pure false

section

variable [ActionRuntime]

/-- The part of `call` that follows the checks of the policy. -/
def CapabilityRuntime.callChecked (rt : CapabilityRuntime) (d : OperationDescriptor)
    (operationId : String) (arguments : Dict)
    (proposalSink : Option (OperationDescriptor → Dict → Program ℕ)) (approvalGranted : Bool)
    (authority : Option AuthorityMode) : Program CapabilityCallResult :=
  match rt.validateArguments operationId arguments with
  | .error e => .raise e
  | .ok (some error) =>
      pure (refused "failed" operationId error (failurePhase "before_dispatch"))
  | .ok none =>
      match authority with
      | some mode => dispatch d operationId arguments proposalSink approvalGranted mode
      | none =>
          (rt.resolveAuthority operationId arguments).attempt >>= fun
            | .error e => pure (refused "failed" operationId
                ("Authority could not be resolved: " ++ e.message)
                (failurePhase "before_dispatch"))
            | .ok mode => dispatch d operationId arguments proposalSink approvalGranted mode

/-- `call`. -/
def CapabilityRuntime.call (rt : CapabilityRuntime) (operationId : String) (arguments : Dict)
    (proposalSink : Option (OperationDescriptor → Dict → Program ℕ)) (approvalGranted : Bool)
    (authority : Option AuthorityMode) : Program CapabilityCallResult :=
  match rt.descriptor operationId with
  | none => pure (refused "unavailable" operationId "Operation is not registered or enabled.")
  | some d =>
      if operationId ∉ rt.executors then
        pure (refused "unavailable" operationId "Operation is not registered or enabled.")
      else
        put .enabledCapabilities >>= fun enabled =>
          if d.capabilityId ∉ enabled then
            pure (refused "forbidden" operationId ("The owner has not enabled this " ++
              "capability, or its current permission could not be verified.")
              (failurePhase "before_dispatch"))
          else
            forbiddenByDefault d authority >>= fun denied =>
              if denied then pure (outsideAuthority operationId)
              else rt.callChecked d operationId arguments proposalSink approvalGranted authority

/-- The exact operations granted to the managed task of a conversation while it is active. -/
def managedTaskGrants (state : Dict) : List String :=
  if Dict.text state "mode" ≠ some "managed" ∨ Dict.text state "status" ≠ some "active" then []
  else match Dict.get state "authority_grants" with
    | some (.arr items) =>
        (items.map fun item => strip (ActionRuntime.str item)).filter (· ≠ "")
    | _ => []

/-- What the handler learns of the authority of a call before it commits anything: the authority
and whether a grant of the task raised it. -/
def CapabilityRuntime.handlerAuthority (rt : CapabilityRuntime) (transcriptId : ℕ)
    (operation : String) (arguments : Dict) : Program (AuthorityMode × Bool) := do
  let authority ← rt.resolveAuthority operation arguments
  let state ← put (.taskState transcriptId)
  if operation ∈ managedTaskGrants state then
    let granted ← rt.applyTaskGrant operation authority
    pure (granted,authority == .approvalRequired && granted == .auto)
  else pure (authority,false)

/-- `_prepare_managed_task_create`. -/
def CapabilityRuntime.prepareManagedTaskCreate (rt : CapabilityRuntime) (transcriptId : ℕ)
    (arguments : Dict) : Program Dict := do
  let grants := match Dict.get arguments "authority_grants" with
    | some (.arr items) => items.map fun item => strip (ActionRuntime.str item)
    | _ => []
  let granted ← rt.preflightAuthorityGrants grants
  let prepared := Dict.put arguments "authority_grants" (.arr (granted.map .str))
  pure <| match Dict.get prepared "source_chat_id" with
    | some _ => prepared
    | none => Dict.put prepared "source_chat_id" (.str (toString transcriptId))

/-- The arguments of a call as they are dispatched, or what the preflight of a task refuses. -/
def CapabilityRuntime.preparedArguments (rt : CapabilityRuntime) (transcriptId : ℕ)
    (operation : String) (arguments : Dict) : Program (Except String Dict) :=
  if operation = "workspace.tasks.create" then
    (rt.prepareManagedTaskCreate transcriptId arguments).attempt >>= fun
      | .ok prepared => pure (.ok prepared)
      | .error e => if e.kind = .valueError then pure (.error e.message) else .raise e
  else if operation = "coding.agent.start_session" ∧
      ((Dict.get arguments "session_id").filter Json.truthy).all
        (fun id => strip (ActionRuntime.str id) = "") then
    put .newSessionId >>= fun id => pure (.ok (Dict.put arguments "session_id" (.str id)))
  else pure (.ok arguments)

/-- What the result of a created task is given besides. -/
def withPreflight (operation : String) (arguments : Dict) (result : CapabilityCallResult) :
    CapabilityCallResult :=
  match result.output with
  | .obj output =>
      if operation = "workspace.tasks.create" ∧ result.status = "succeeded" then
        {result with output := .obj (Dict.put output "authority_preflight" (.obj [
          ("verified",.bool true),
          ("operations",match Dict.get arguments "authority_grants" with
            | some (.arr items) => .arr items
            | _ => .arr [])]))}
      else result
  | _ => result

/-- The proposal sink that the handler passes to `call`. -/
def propose (runId : ℕ) (operation : String) (d : OperationDescriptor) (arguments : Dict) :
    Program ℕ :=
  put (.prepareProposal runId operation arguments ("Atlas proposes: " ++ d.description)
    d.capabilityId)

/-- What the handler returns for a call, with the status of its action. -/
structure CallAnswer where
  result : CapabilityCallResult
  actionStatus : Option ActionStatus := none

/-- The last part of the handler: what a call came to is recorded. -/
def recordResult (rt : CapabilityRuntime) (runId : ℕ) (operation : String) (arguments : Dict)
    (actionId : Option ℕ) (result : CapabilityCallResult) : Program CallAnswer :=
  -- A proposal was recorded when it was prepared.
  if result.proposalId.isSome then pure {result := result}
  else match actionId with
    | some actionId =>
        put (.finishAction runId actionId result) >>= fun status =>
          pure {result := result,actionStatus := some status}
    | none =>
        put (.recordExecution runId operation arguments result.status
            (((rt.descriptor operation).map (·.description)).getD operation)) >>= fun _ =>
          pure {result := result}

/-- The committed intent of a call that is to run by itself; a read leaves none. -/
def beginAutomatic (rt : CapabilityRuntime) (runId : ℕ) (operation : String) (arguments : Dict)
    (authority : Option AuthorityMode) : Program (Option ℕ) :=
  match rt.descriptor operation with
  | none => pure none
  | some d =>
      if d.effect ≠ .read ∧ authority = some .auto then
        put (.beginAutomaticExecution runId operation arguments d.description d.capabilityId) >>=
          fun actionId => pure (some actionId)
      else pure none

/-- The authority that the handler passes on to `call`, which resolves it again where an exception
was swallowed. -/
def passedOn : Except Refusal (AuthorityMode × Bool) → Option AuthorityMode
  | .ok (mode,_) => some mode
  | .error _ => none

/-- The part of the handler between the check of the arguments and the record of the result. -/
def callValidated (rt : CapabilityRuntime) (runId transcriptId : ℕ) (operation : String)
    (arguments : Dict) : Program CallAnswer := do
  let resolved ← (rt.handlerAuthority transcriptId operation arguments).attempt
  let actionId ← beginAutomatic rt runId operation arguments (passedOn resolved)
  let result ← rt.call operation arguments (some (propose runId operation)) false
    (passedOn resolved)
  recordResult rt runId operation arguments actionId (withPreflight operation arguments result)

/-- The handling of `atlas_capability_call`, with arguments that are an object. -/
def callTool (rt : CapabilityRuntime) (runId transcriptId : ℕ) (operation : String)
    (arguments : Dict) : Program CallAnswer := do
  let prepared ← rt.preparedArguments transcriptId operation arguments
  match prepared with
  | .error problem =>
      recordResult rt runId operation arguments none
        (refused "failed" operation problem (failurePhase "before_dispatch"))
  | .ok arguments =>
      match rt.validateArguments operation arguments with
      | .error e => .raise e
      | .ok (some _) => do
          let result ← rt.call operation arguments (some (propose runId operation)) false none
          recordResult rt runId operation arguments none (withPreflight operation arguments result)
      | .ok none => callValidated rt runId transcriptId operation arguments

/-- An operation as a search shows it: the authority it would be called with for all that is known
before its arguments are, and whether a grant of the task raised it. -/
structure Card where
  operation : OperationDescriptor
  authority : AuthorityMode
  granted : Bool := false

/-- The card of an operation under the owner's decisions and the grants of a task. -/
def cardOf (raw : List (String × String)) (grants : List String) (d : OperationDescriptor) : Card :=
  let authority := (overrideOf raw d.id).getD d.authority
  if d.id ∈ grants ∧ authority = .approvalRequired then
    {operation := d,authority := .auto,granted := true}
  else {operation := d,authority := authority}

/-- The handling of `atlas_capability_search`. -/
def searchTool (rt : CapabilityRuntime) (transcriptId : ℕ) (query : String) (limit : ℤ) :
    Program (List Card) := do
  let enabled ← put .enabledCapabilities
  let raw ← put .operationAuthorities
  let state ← put (.taskState transcriptId)
  pure ((rt.search query limit enabled).map (cardOf raw (managedTaskGrants state)))

/-- A call of a tool by the model. -/
inductive ToolCall where
  | search (query : String) (limit : ℤ)
  | call (operation : String) (arguments : Dict)
  | other (name : String)

inductive ToolAnswer where
  | operations (cards : List Card)
  | call (answer : CallAnswer)
  | unknown

/-- `tool_handler`. -/
def toolHandler (rt : CapabilityRuntime) (runId transcriptId : ℕ) (tool : ToolCall) :
    Program ToolAnswer := do
  put (.requireLiveRun runId)
  match tool with
  | .search query limit => do
      let cards ← searchTool rt transcriptId query limit
      pure (.operations cards)
  | .call operation arguments => do
      let answer ← callTool rt runId transcriptId operation arguments
      pure (.call answer)
  | .other _ => pure .unknown

/-- What an approved call came to; one that raised is left in doubt. -/
def approvedResult (operation : String) : Except Refusal CapabilityCallResult → CapabilityCallResult
  | .ok result => result
  | .error e => refused "failed" operation ("Dispatch interrupted (" ++ e.kind.name ++ ")")
      (failurePhase "ambiguous_dispatch")

/-- The part of the decision that follows the commit of the execution. -/
def dispatchApproved (rt : CapabilityRuntime) (actionId : ℕ) (action : ActionRow)
    (arguments : Dict) (transcriptId : Option ℕ) : Program ActionStatus := do
  let outcome ← (rt.call action.operation arguments none true none).attempt
  let result := approvedResult action.operation outcome
  match transcriptId with
  | some _ => put (.finishAction action.runId actionId result)
  | none => do
      put (.complete actionId result)
      pure (actionStatusForResult result)

def capabilityGone : Refusal :=
  ⟨.valueError,"Approved capability identity is no longer available"⟩

/-- `descriptor_current` of a registered operation: whether its capability is enabled. -/
def descriptorCurrent (d : OperationDescriptor) : Program Bool := do
  let enabled ← put .enabledCapabilities
  if d.capabilityId ∉ enabled then pure false
  else
    let _ ← put .operationAuthorities
    pure true

/-- The approval of a proposal that the owner has reviewed. -/
def approveAction (rt : CapabilityRuntime) (actionId : ℕ) (action : ActionRow) (reviewed : String) :
    Program ActionStatus := do
  let now ← put .now
  match verifyProposal action now with
  | .error e => .raise e
  | .ok proposal =>
      let arguments := match Dict.get proposal "arguments" with
        | some (.obj arguments) => arguments
        | _ => []
      match rt.descriptor action.operation with
      | none => .raise capabilityGone
      | some d => do
          let current ← descriptorCurrent d
          if current = false ∨ Dict.text proposal "capability_id" ≠ some d.capabilityId then
            .raise capabilityGone
          else
            match rt.validateArguments action.operation arguments with
            | .error e => .raise e
            | .ok (some error) => .raise ⟨.valueError,error⟩
            | .ok none => do
                let run ← put (.run action.runId)
                let _ ← put (.beginExecution actionId (some reviewed))
                dispatchApproved rt actionId action arguments (run.bind (·.transcriptId))

/-- `decide_action`. -/
def decideAction (rt : CapabilityRuntime) (actionId : ℕ) (approve : Bool)
    (reviewedTargetHash : Option String) : Program ActionStatus := do
  let found ← put (.action actionId)
  match found with
  | none => .raise Ledger.actionNotFound
  | some action =>
      if action.status ≠ .prepared then
        .raise ⟨.valueError,"Action proposal is no longer pending"⟩
      else if approve = false then do
        put (.cancel actionId)
        pure .cancelled
      else
        match reviewedTargetHash.bind orNone with
        | none => .raise ⟨.valueError,"Reload and review the exact proposal before approval"⟩
        | some reviewed => approveAction rt actionId action reviewed

end

end Capabilities
end Atlas
