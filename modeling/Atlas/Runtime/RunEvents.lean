import Atlas.Actions.Inference
import Atlas.Lib.Pages

/-! The event ledger of the runs and the stream that follows one of them. A writer takes the ids
of its events when it flushes them and commits them later, with what it does to the runs. The
stream reads the events above its cursor and then, in a statement of its own, its run. -/
namespace Atlas
namespace Runtime

open Actions

structure RunEventRow where
  id : ℕ
  runId : ℕ
  eventType : String
  payload : Dict := []

/-- The events with which the inference of a run ends. -/
def RunEventRow.isTerminal (e : RunEventRow) : Bool :=
  e.eventType == "completed" || e.eventType == "interrupted"

/-- `run_events_after`. -/
def runEventsAfter (events : List RunEventRow) (runId afterId : ℕ) (limit : ℕ := 250) :
    List RunEventRow :=
  Pages.page RunEventRow.id (max 1 (min limit 1000)) (events.filter (·.runId == runId)) afterId

/-- What a transaction does besides the events that it writes. -/
inductive Work where
  | events
  | store (op : Op)
  | complete (runId : ℕ)
  | interrupt (runId : ℕ) (reason : String)
  | finish (runId : ℕ)

namespace Work

/-- The event without which a transaction that ends an inference does not commit. -/
def event : Work → Option (ℕ × String)
  | .complete runId => some (runId,"completed")
  | .interrupt runId _ => some (runId,"interrupted")
  | _ => none

/-- The run whose inference a transaction ends. -/
def ends : Work → Option ℕ
  | .complete runId => some runId
  | .interrupt runId _ => some runId
  | .finish runId => some runId
  | _ => none

/-- Whether a transaction with these events gets to its commit. -/
def commits (s : Ledger) (written : List RunEventRow) : Work → Bool
  | .store op => !op.endsInference
  | .complete runId => written.any fun e => e.runId == runId && e.eventType == "completed"
  | .interrupt runId _ =>
      (s.runs[runId]?).any (fun run => run.inferenceStatus == .running ||
        run.inferenceStatus == .queued) &&
      written.any fun e => e.runId == runId && e.eventType == "interrupted"
  | _ => true

variable [ActionRuntime]

def apply (s : Ledger) (now : Instant) : Work → Except Refusal Ledger
  | .events => .ok s
  | .store op => s.apply op now
  | .complete runId => s.finishRun runId true now
  | .interrupt runId reason => s.interruptRun runId reason now
  | .finish runId => s.finishRun runId true now

end Work

/-- An event stream of a run, from a cursor on. -/
structure Stream where
  runId : ℕ
  start : ℕ
  cursor : ℕ
  fetched : Option (List RunEventRow) := none
  delivered : List RunEventRow := []
  ended : Bool := false

namespace Stream

/-- The rows that a stream has read and not delivered. -/
def rows (r : Stream) : List RunEventRow := r.fetched.getD []

/-- The id up to which a stream has read. -/
def reached (r : Stream) : ℕ := Pages.reached RunEventRow.id r.cursor r.rows

/-- `terminal`. -/
def terminal (run : RunRow) : Bool :=
  !run.inferenceActive && run.inferenceStatus != .running && run.inferenceStatus != .queued

/-- The first read of a pass. -/
def readEvents (r : Stream) (events : List RunEventRow) : Stream :=
  if r.ended ∨ r.fetched.isSome then r
  else {r with fetched := some (runEventsAfter events r.runId r.cursor)}

/-- The second read of a pass, the delivery and the decision to end. -/
def readRun (r : Stream) (run : Option RunRow) : Stream :=
  match r.fetched with
  | none => r
  | some rows => {r with
      cursor := r.reached
      fetched := none
      delivered := r.delivered ++ rows
      ended := match run with
        | none => true
        | some run => terminal run && rows.isEmpty}

end Stream

/-- The ledger of runs with the events, committed and in flight, and a stream. -/
structure EventLog where
  ledger : Ledger := {}
  events : List RunEventRow := []
  pending : List (ℕ × RunEventRow) := []
  sequence : ℕ := 0
  stream : Option Stream := none

inductive EventStep where
  | append (writer runId : ℕ) (eventType : String) (payload : Dict)
  | commit (writer : ℕ) (work : Work) (now : Instant)
  | rollback (writer : ℕ)
  | connect (runId after : ℕ)
  | readEvents
  | readRun
  | disconnect

namespace EventLog

/-- The events in flight of a writer. -/
def written (m : EventLog) (writer : ℕ) : List RunEventRow :=
  (m.pending.filter (·.1 == writer)).map (·.2)

/-- The end of a writer's transaction. -/
def close (m : EventLog) (writer : ℕ) : EventLog :=
  {m with pending := m.pending.filter (·.1 != writer)}

variable [ActionRuntime]

def act (m : EventLog) : EventStep → EventLog
  | .append writer runId eventType payload => {m with
      sequence := m.sequence + 1
      pending := m.pending ++ [(writer,⟨m.sequence + 1,runId,eventType,payload⟩)]}
  | .commit writer work now =>
      if work.commits m.ledger (m.written writer) = false then m.close writer
      else match work.apply m.ledger now with
        | .error _ => m.close writer
        | .ok s =>
            if (m.written writer).any fun e => s.runs.length ≤ e.runId then m.close writer
            else {m with ledger := s, events := m.events ++ m.written writer}.close writer
  | .rollback writer => m.close writer
  | .connect runId after =>
      if m.stream.isSome ∨ m.ledger.runs.length ≤ runId then m
      else {m with stream := some {runId := runId,start := after,cursor := after}}
  | .readEvents => {m with stream := m.stream.map (·.readEvents m.events)}
  | .readRun => {m with stream := m.stream.map fun r => r.readRun m.ledger.runs[r.runId]?}
  | .disconnect => {m with stream := none}

/-- Events of the stream's run commit while the stream has neither read past them nor ended, none
of them between the reads of a pass that found nothing and finds its run ended, and no inference
of that run ends without its event. -/
def Orderly (m : EventLog) : EventStep → Prop
  | .commit writer work _ => ∀ r, m.stream = some r →
      (∀ e ∈ m.written writer, e.runId = r.runId → r.start < e.id →
        r.ended = false ∧ r.reached < e.id) ∧
      (work.ends = some r.runId → work.event.isSome)
  | .connect runId _ => (m.ledger.runs[runId]?).any Stream.terminal →
      ∃ e ∈ m.events, e.runId = runId ∧ e.isTerminal
  | .readRun => ∀ r, m.stream = some r → r.fetched = some [] →
      (m.ledger.runs[r.runId]?).any Stream.terminal →
      runEventsAfter m.events r.runId r.cursor = []
  | _ => True

/-- What the service reaches from an empty log, whatever steps it takes in which order. -/
def Reachable (m : EventLog) : Prop := Trace.Reach act (fun _ _ => True) (· = {}) m

end EventLog

end Runtime
end Atlas
