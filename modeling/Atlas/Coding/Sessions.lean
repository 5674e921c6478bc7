import Atlas.Coding.Server

/-! The calls of the coding bridge on one session and the bridge that serves them one at a time. -/
namespace Atlas
namespace Coding

open Actions Dialogue Memory

/-- `_public`. -/
structure PublicView where
  sessionId : String
  codexThreadId : Option String
  repo : Option String
  label : String
  mode : String
  status : CodingStatus
  turn : ℕ
  pid : Option ℕ
  startedAt : Option Instant
  finishedAt : Option Instant
  lastEventType : Option String
  result : Option String
  updatedAt : Instant
  deriving Repr, DecidableEq

def publicView (record : Session) : PublicView :=
  let latest := record.runs.getLast?
  {sessionId := record.sessionId
   codexThreadId := record.codexThreadId
   repo := record.repo
   label := record.label
   mode := record.mode
   status := record.status
   turn := (latest.map (·.turn)).getD 0
   pid := latest.map (·.pid)
   startedAt := latest.map (·.startedAt)
   finishedAt := latest.bind (·.finishedAt)
   lastEventType := latest.bind (·.lastEventType)
   result := latest.bind (·.result)
   updatedAt := record.updatedAt}

/-- What a call returns; only `get_result` says more than the public view. -/
structure Reply where
  view : PublicView
  terminal : Option Bool := none
  lastEvents : List CodexEvent := []
  deriving Repr, DecidableEq

def reply (record : Session) : Reply := {view := publicView record}

structure StartArguments where
  repo : Option String
  prompt : Option String
  label : Option String := none
  mode : Option String := none

inductive Call where
  | start (arguments : StartArguments)
  | send (prompt : String)
  | resume (prompt : String)
  | getStatus
  | getResult
  | cancel

def resumePrompt : String :=
  "Resume the current task from the repository state as it exists now. " ++
    "First reconcile what is already complete, then continue only the unfinished work."

def textOr (text : Option String) (default : String) : String := (truthy text).getD default

section

variable [CodingRuntime]

/-- The record of a session that starts. -/
def createdRecord (sessionId repo : String) (arguments : StartArguments)
    (createdAt updatedAt : Instant) : Session where
  sessionId := sessionId
  repo := some repo
  label := clipText 200 (textOr arguments.label "Coding task")
  mode := clipText 40 (textOr arguments.mode "implement")
  status := .created
  createdAt := createdAt
  updatedAt := updatedAt

/-- `_public(_launch(…))`. -/
def launchTurn (record : Session) (prompt : String) (resume : Bool) (patience : Patience) :
    Tool Reply := do
  let record ← launch record prompt resume patience
  return reply record

/-- `start_session`. -/
def startSession (sessionId : String) (arguments : StartArguments) (patience : Patience) :
    Tool Reply := do
  let repo ← ofExcept (validateRepo arguments.repo)
  sessionPath sessionId
  match ← Prog.request Request.load with
  | some existing =>
      if existing.status = .cancelled ∧ existing.cancelledBeforeStart = true then
        Prog.raise (valueError "Coding session was cancelled before launch")
      else Prog.raise (valueError ("Coding session already exists: " ++ sessionId))
  | none =>
      let createdAt ← Prog.request Request.now
      let updatedAt ← Prog.request Request.now
      let record := createdRecord sessionId repo arguments createdAt updatedAt
      Prog.request (Request.save record)
      launchTurn record (orEmpty arguments.prompt) false patience

/-- `send_turn`. -/
def sendTurn (sessionId prompt : String) (patience : Patience) : Tool Reply := do
  sessionPath sessionId
  let record ← load sessionId
  let record ← refresh record
  if record.status = .running ∨ record.status = .starting then
    Prog.raise (valueError "The coding session already has an active Codex turn")
  else launchTurn record prompt true patience

/-- `resume_session`. -/
def resumeSession (sessionId prompt : String) (patience : Patience) : Tool Reply :=
  let prompt := strip prompt
  sendTurn sessionId (if prompt = "" then resumePrompt else prompt) patience

end

/-- `get_status`. -/
def getStatus (sessionId : String) : Tool Reply := do
  sessionPath sessionId
  let record ← load sessionId
  let record ← refresh record
  Prog.request (Request.save record)
  return reply record

def terminalStatuses : List CodingStatus := [.completed,.failed,.interrupted,.cancelled]

/-- `get_result`. -/
def getResult (sessionId : String) : Tool Reply := do
  sessionPath sessionId
  let record ← load sessionId
  let record ← refresh record
  Prog.request (Request.save record)
  let events ←
    match record.runs.getLast? with
    | some latest => Prog.request (Request.events latest.logPath)
    | none => pure []
  let view := {publicView record with result := lastAgentText events}
  return {
    view := view
    terminal := some (terminalStatuses.contains record.status)
    lastEvents := events.drop (events.length - 20)}

/-- The tombstone of a session that is cancelled before it starts. -/
def tombstone (sessionId : String) (now : Instant) : Session where
  sessionId := sessionId
  repo := none
  label := "Coding task"
  mode := "implement"
  status := .cancelled
  createdAt := now
  updatedAt := now
  cancelledBeforeStart := true

def cancellable : List CodingStatus := [.running,.starting,.created,.interrupted]

def stopRun (run : RunRecord) (patience : Patience) : Tool Unit :=
  if run.pid ≠ 0 ∧ run.group ≠ 0 then
    terminateProcessGroup run.pid run.group run.procStartTime patience
  else return ()

/-- `latest.get("finished_at") or _now()`. -/
def finishTime (run : RunRecord) : Tool (Option Instant) :=
  if run.finishedAt.isNone then some <$> Prog.request Request.now else return run.finishedAt

/-- The record with its latest run cancelled. -/
def Session.cancelled (record : Session) (latest : RunRecord) (finishedAt : Option Instant) :
    Session :=
  {record.amend {latest with status := .cancelled, finishedAt := finishedAt} with
    status := .cancelled}

/-- The worker of a session that is cancelled is stopped. -/
def stopLatest (record : Session) (patience : Patience) : Tool Session :=
  match record.runs.getLast? with
  | none => return {record with status := .cancelled}
  | some latest => do
      stopRun latest patience
      let finishedAt ← finishTime latest
      return record.cancelled latest finishedAt

def settle (record : Session) (patience : Patience) : Tool Session :=
  if cancellable.contains record.status then stopLatest record patience else return record

/-- `cancel_session`. -/
def cancelSession (sessionId : String) (patience : Patience) : Tool Reply := do
  sessionPath sessionId
  match ← Prog.request Request.load with
  | none =>
      let now ← Prog.request Request.now
      let record := tombstone sessionId now
      Prog.request (Request.save record)
      return reply record
  | some record =>
      let record ← refresh record
      let record ← settle record patience
      let updatedAt ← Prog.request Request.now
      let record := {record with updatedAt := updatedAt}
      Prog.request (Request.save record)
      return reply record

variable [CodingRuntime]

/-- What the bridge does for a call, with the number of times its waits look again. -/
def serve (sessionId : String) (call : Call × Patience) : Tool Reply :=
  match call.1 with
  | .start arguments => startSession sessionId arguments call.2
  | .send prompt => sendTurn sessionId prompt call.2
  | .resume prompt => resumeSession sessionId prompt call.2
  | .getStatus => getStatus sessionId
  | .getResult => getResult sessionId
  | .cancel => cancelSession sessionId call.2

/-- The bridge and its host. -/
abbrev Bridge :=
  Served Host (Call × Patience) Request Request.Answer Failure Reply

abbrev BridgeStep := Turn Happening (Call × Patience)

/-- A step of the bridge for one session. -/
def step (sessionId : String) (m : Bridge) (a : BridgeStep) : Bridge :=
  m.step world (serve sessionId) a

end Coding
end Atlas
