import Atlas.Actions.Dispatch
import Atlas.Capabilities.Calls

/-! The host that tool handlers and decisions share: the store of runs and actions, the owner's
current policy, the resolvers and the executors. Between two requests of a program the others and
the owner may change it at will; only the begin and the report of an execution are the programs'
own. -/
namespace Atlas

namespace Actions

/-- The operations that only the handler of a call and the decision on a proposal perform. -/
def Op.dispatching : Op → Bool
  | .beginExecution .. | .beginAutomaticExecution .. | .complete .. | .finishAction .. => true
  | _ => false

theorem Op.closes_of_dispatching {op : Op} (h : op.dispatching = false) : op.closes = false := by
  cases op <;> first | rfl | cases h

end Actions

namespace Capabilities

open Actions Dialogue

structure Host where
  ledger : Ledger := {}
  clock : Instant := 0
  policy : Except Refusal (List String) := .ok []
  authorities : Except Refusal (List (String × String)) := .ok []
  resolve : String → Dict → Except Refusal String
  execute : String → Dict → Except Refusal Outcome
  uuid : String := ""
  fault : Option Refusal := none

/-- What happens to the host between the requests of the programs. -/
inductive Change where
  | transaction (op : Op)
  | tick (now : Instant)
  | policy (enabled : Except Refusal (List String))
  | authorities (raw : Except Refusal (List (String × String)))
  | resolve (f : String → Dict → Except Refusal String)
  | execute (f : String → Dict → Except Refusal Outcome)
  | uuid (text : String)
  | fault (e : Option Refusal)

namespace Host

variable [ActionRuntime]

def stir (h : Host) : Change → Host
  | .transaction op =>
      if op.dispatching then h else {h with ledger := h.ledger.step (op,h.clock)}
  | .tick now => {h with clock := now}
  | .policy enabled => {h with policy := enabled}
  | .authorities raw => {h with authorities := raw}
  | .resolve f => {h with resolve := f}
  | .execute f => {h with execute := f}
  | .uuid text => {h with uuid := text}
  | .fault e => {h with fault := e}

omit [ActionRuntime] in
/-- A transaction of a program; a database that is out of reach refuses it. -/
def commit {α : Type} (h : Host) (x : Except Refusal (Ledger × α)) : Except Refusal α × Host :=
  match h.fault with
  | some e => (.error e,h)
  | none =>
      match x with
      | .error e => (.error e,h)
      | .ok (ledger,a) => (.ok a,{h with ledger := ledger})

/-- The transaction of `propose`. -/
def proposed (s : Ledger) (runId : ℕ) (operation : String) (arguments : Dict)
    (title capabilityId : String) (now : Instant) : Except Refusal (Ledger × ℕ) := do
  let _ ← s.requireLiveRun runId
  s.prepareProposal runId operation arguments title capabilityId now

/-- The transaction that commits the intent of an automatic execution. -/
def intended (s : Ledger) (runId : ℕ) (operation : String) (arguments : Dict)
    (summary capabilityId : String) (now : Instant) : Except Refusal (Ledger × ℕ) := do
  let _ ← s.requireLiveRun runId
  s.beginAutomaticExecution runId operation arguments summary capabilityId now

/-- The status of an action. -/
def statusOf (s : Ledger) (actionId : ℕ) : ActionStatus :=
  ((s.actions[actionId]?).map (·.status)).getD .executing

def answer (h : Host) : (q : Request) → q.Reply × Host
  | .requireLiveRun runId =>
      h.commit ((h.ledger.requireLiveRun runId).map fun _ => (h.ledger,()))
  | .enabledCapabilities => (h.policy,h)
  | .operationAuthorities => (h.authorities,h)
  | .resolver operationId arguments => (h.resolve operationId arguments,h)
  | .taskState transcriptId => h.commit (.ok (h.ledger,
      ((h.ledger.transcripts[transcriptId]?).map (·.activeTaskState)).getD []))
  | .newSessionId => (.ok h.uuid,h)
  | .prepareProposal runId operation arguments title capabilityId =>
      h.commit (proposed h.ledger runId operation arguments title capabilityId h.clock)
  | .beginAutomaticExecution runId operation arguments summary capabilityId =>
      h.commit (intended h.ledger runId operation arguments summary capabilityId h.clock)
  | .recordExecution runId operation arguments status summary =>
      h.commit (h.ledger.recordExecution runId operation arguments status summary .null h.clock)
  | .finishAction runId actionId result => h.commit
      ((h.ledger.finishAction runId actionId result h.uuid h.clock).map fun s =>
        (s,statusOf s actionId))
  | .executor operationId arguments => (h.execute operationId arguments,h)
  | .action actionId => h.commit (.ok (h.ledger,h.ledger.actions[actionId]?))
  | .run runId => h.commit (.ok (h.ledger,h.ledger.runs[runId]?))
  | .now => (.ok h.clock,h)
  | .cancel actionId => h.commit ((h.ledger.cancel actionId h.clock).map fun s => (s,()))
  | .beginExecution actionId reviewed =>
      h.commit (h.ledger.beginExecution actionId reviewed h.clock)
  | .complete actionId result => h.commit ((h.ledger.complete actionId
      (actionStatusForResult result) [("status",.str result.status)] none h.clock).map
        fun s => (s,()))

def world : World Host Change Request Request.Reply := ⟨stir,answer⟩

/-- The host as the service finds it, whatever the owner has decided by then. -/
def Initial (h : Host) : Prop := h.ledger = {}

end Host

/-- What is asked of the service: a call of a tool in a run or the decision on a proposal. -/
inductive Job where
  | tool (runId transcriptId : ℕ) (tool : ToolCall)
  | decide (actionId : ℕ) (approve : Bool) (reviewedTargetHash : Option String)

variable [ActionRuntime]

def program (rt : CapabilityRuntime) : Job → Program (ToolAnswer ⊕ ActionStatus)
  | .tool runId transcriptId tool =>
      toolHandler rt runId transcriptId tool >>= fun answer => pure (.inl answer)
  | .decide actionId approve reviewed =>
      decideAction rt actionId approve reviewed >>= fun status => pure (.inr status)

/-- The service under any interleaving of its jobs with the changes around them. -/
abbrev Service := Forum Host Job Request Request.Reply Refusal (ToolAnswer ⊕ ActionStatus)

def Service.Reachable (rt : CapabilityRuntime) (m : Service) : Prop :=
  Forum.Reachable Host.world (program rt) Host.Initial m

end Capabilities
end Atlas
