import Atlas.Coding.Host
import Atlas.Memory.Intake

/-! The tools of the coding bridge: each call holds the lock of the session while it looks at the
worker's processes and log, and launches or stops a worker. -/
namespace Atlas
namespace Coding

open Actions Dialogue Memory

/-- The part of the operating system that the theorems leave open. -/
class CodingRuntime where
  resolve : String → String
  isDir : String → Bool
  isRelativeTo : String → String → Bool
  allowedRoots : List String
  codexBin : String
  executable : String → Bool

def runtimeError (message : String) : Failure := ⟨.runtimeError,message⟩

/-- How often a wait looks again before its time is over. -/
structure Patience where
  start : ℕ
  term : ℕ
  kill : ℕ

def ofExcept {α : Type} : Except Failure α → Tool α := Prog.done

def uuidLike (sessionId : String) : Bool :=
  sessionId != "" && sessionId.toList.all fun c => "0123456789abcdef-".toList.contains c.toLower

/-- `_session_path`. -/
def sessionPath (sessionId : String) : Tool Unit :=
  if uuidLike sessionId then return ()
  else Prog.raise (valueError "session_id must be a UUID-like identifier")

/-- `_load`. -/
def load (sessionId : String) : Tool Session := do
  match ← Prog.request Request.load with
  | some record => return record
  | none => Prog.raise (valueError ("Unknown coding session: " ++ sessionId))

/-- `_process_identity`. -/
def processIdentity (pid : ℕ) : Tool (Option (Bool × ℕ)) :=
  if pid = 0 then return none else Prog.request (Request.identity pid)

/-- `_process_group_alive`. A live leader with the wrong birth time is a reused number; when the
leader is gone, the other processes of its group still count. -/
def processGroupAlive (pid group : ℕ) (expected : Option ℕ) : Tool Bool := do
  match ← processIdentity pid with
  | some (false,startTime) => return expected.isNone || expected == some startTime
  | _ =>
      let members ← Prog.request (Request.members group)
      return !members.isEmpty

/-- Whether the group was seen to be gone before the time was over. -/
def seenGone (pid group : ℕ) (expected : Option ℕ) : ℕ → Tool Bool
  | 0 => return false
  | polls + 1 => do
      if ← processGroupAlive pid group expected then seenGone pid group expected polls
      else return true

/-- `_terminate_process_group` from `SIGKILL` on. -/
def killProcessGroup (pid group : ℕ) (expected : Option ℕ) (patience : Patience) : Tool Unit := do
  if ← processGroupAlive pid group expected then
    if ← Prog.request (Request.killpg group .kill) then
      if ← seenGone pid group expected patience.kill then return ()
      else if ← processGroupAlive pid group expected then
        Prog.raise (runtimeError "Codex process group remained alive after SIGKILL")
      else return ()
    else return ()
  else return ()

/-- `_terminate_process_group`. -/
def terminateProcessGroup (pid group : ℕ) (expected : Option ℕ) (patience : Patience) :
    Tool Unit := do
  if ← processGroupAlive pid group expected then
    if ← Prog.request (Request.killpg group .term) then
      if ← seenGone pid group expected patience.term then return ()
      else killProcessGroup pid group expected patience
    else return ()
  else return ()

def truthy (text : Option String) : Option String := text.filter (· != "")

/-- `_thread_id`. -/
def threadId (events : List CodexEvent) : Option String :=
  events.findSome? fun event =>
    if event.type == some "thread.started" then event.threadId else none

def EventItem.agentText (item : EventItem) : Option String :=
  if item.type == some "agent_message" then item.text else none

/-- `_last_agent_text`. -/
def lastAgentText (events : List CodexEvent) : Option String :=
  events.reverse.findSome? fun event =>
    if event.type == some "item.completed" then event.item.bind EventItem.agentText else none

def CodexEvent.outcome (event : CodexEvent) : Option CodingStatus :=
  if event.type == some "turn.completed" then some .completed
  else if event.type == some "turn.failed" || event.type == some "error" then some .failed
  else none

/-- How the last turn that a log reports ended. -/
def outcome (events : List CodexEvent) : Option CodingStatus :=
  events.reverse.findSome? CodexEvent.outcome

/-- `_event_status`. -/
def eventStatus (events : List CodexEvent) (running : Bool) : CodingStatus :=
  if running then .running else (outcome events).getD .interrupted

def RunRecord.group (run : RunRecord) : ℕ :=
  if run.processGroup = 0 then run.pid else run.processGroup

/-- The record with its latest run replaced. -/
def Session.amend (record : Session) (run : RunRecord) : Session :=
  {record with runs := record.runs.dropLast ++ [run]}

def runAlive (run : RunRecord) : Tool Bool :=
  if run.pid ≠ 0 ∧ run.group ≠ 0 then processGroupAlive run.pid run.group run.procStartTime
  else return false

def RunRecord.observe (run : RunRecord) (events : List CodexEvent) (status : CodingStatus)
    (finishedAt : Option Instant) : RunRecord :=
  {run with
    status := status
    finishedAt := finishedAt
    lastEventType := match events.getLast? with
      | some event => some ((truthy event.type).getD "unknown")
      | none => run.lastEventType
    result := (lastAgentText events).or run.result}

/-- The record with what a look at the worker and its log has shown. -/
def Session.observed (record : Session) (run : RunRecord) (running : Bool)
    (events : List CodexEvent) (finishedAt : Option Instant) (updatedAt : Instant) : Session :=
  {record.amend (run.observe events (eventStatus events running) finishedAt) with
    codexThreadId := (truthy (threadId events)).or record.codexThreadId
    status := eventStatus events running
    updatedAt := updatedAt}

/-- `_refresh`. -/
def refresh (record : Session) : Tool Session := do
  match record.runs.getLast? with
  | none => return record
  | some run =>
      let running ← runAlive run
      let events ← Prog.request (Request.events run.logPath)
      let finishedAt ←
        if !running && run.finishedAt.isNone then some <$> Prog.request Request.now
        else pure run.finishedAt
      let updatedAt ← Prog.request Request.now
      return record.observed run running events finishedAt updatedAt

variable [CodingRuntime]

/-- `_validate_repo`. -/
def validateRepo (value : Option String) : Except Failure String :=
  let raw := strip (orEmpty value)
  if raw = "" then .error (valueError "repo is required")
  else
    let repo := CodingRuntime.resolve raw
    let roots := CodingRuntime.allowedRoots
    if !CodingRuntime.isDir repo then
      .error (valueError ("Repository/work directory does not exist: " ++ repo))
    else if roots.isEmpty then
      .error (valueError "ATLAS_CODING_ROOTS must contain at least one approved root")
    else if roots.any fun root => repo == root || CodingRuntime.isRelativeTo repo root then
      .ok repo
    else
      .error (valueError ("Repository/work directory is outside approved coding roots: " ++
        repo ++ " (allowed: " ++ ", ".intercalate roots ++ ")"))

/-- `_codex_binary`. -/
def codexBinary : Except Failure String :=
  if CodingRuntime.executable CodingRuntime.codexBin then .ok CodingRuntime.codexBin
  else .error (valueError ("Codex CLI is unavailable or not executable: " ++
    CodingRuntime.codexBin))

/-- The thread a turn has to go on with, for a session that is resumed. -/
def expectedThread (record : Session) (resume : Bool) : Except Failure (Option String) :=
  if resume then
    let expected := strip (orEmpty record.codexThreadId)
    if expected = "" then
      .error (valueError
        "Codex thread id is not available yet; wait for the current turn to start")
    else .ok (some expected)
  else .ok none

/-- The command line of a turn and the directory it works in. -/
def command (record : Session) (prompt : String) (resume : Bool) :
    Except Failure (List String × String × Option String) := do
  if strip prompt = "" then throw (valueError "prompt is required")
  let repo ← validateRepo record.repo
  let binary ← codexBinary
  let expected ← expectedThread record resume
  let thread := match expected with
    | some thread => ["resume",thread]
    | none => []
  return ([binary,"--ask-for-approval","never","--sandbox","danger-full-access","exec","--json",
    "-C",repo] ++ thread ++ [prompt],repo,expected)

omit [CodingRuntime] in
/-- The end of a resumed turn whose log names another thread. -/
def refuseThread (record : Session) (run : RunRecord) (expected observed : String)
    (patience : Patience) : Tool Session := do
  terminateProcessGroup run.pid run.pid run.procStartTime patience
  let finishedAt ← Prog.request Request.now
  let updatedAt ← Prog.request Request.now
  let run := {run with
    status := .failed
    finishedAt := some finishedAt
    lastEventType := some "thread.started"
    resumeThreadMismatch := some (expected,observed)}
  Prog.request (Request.save {record.amend run with status := .failed, updatedAt := updatedAt})
  Prog.raise (runtimeError
    "Codex resume returned a different thread id; refusing an implicit new session")

/-- The bounded wait for the first event of a turn that was launched. -/
def awaitThread (record : Session) (run : RunRecord) (expected : Option String)
    (patience : Patience) : ℕ → Tool Session
  | 0 => return record
  | polls + 1 => do
      let events ← Prog.request (Request.events run.logPath)
      match truthy (threadId events),expected with
      | some thread,some other =>
          if thread ≠ other then refuseThread record run other thread patience
          else noteThread record run events thread
      | some thread,none => noteThread record run events thread
      | none,_ =>
          if ← processGroupAlive run.pid run.pid run.procStartTime then
            awaitThread record run expected patience polls
          else return record
where
  noteThread (record : Session) (run : RunRecord) (events : List CodexEvent)
      (thread : String) : Tool Session := do
    let alive ← processGroupAlive run.pid run.pid run.procStartTime
    let record := {record with
      codexThreadId := some thread
      status := if alive then .running else eventStatus events false}
    Prog.request (Request.save record)
    return record

/-- `_launch`. -/
def launch (record : Session) (prompt : String) (resume : Bool) (patience : Patience) :
    Tool Session := do
  let (line,repo,expected) ← ofExcept (command record prompt resume)
  let turn := record.runs.length + 1
  match ← Prog.request (Request.popen turn line repo) with
  | none => Prog.raise ⟨.osError,"Resource temporarily unavailable"⟩
  | some pid =>
      let identity ← processIdentity pid
      let startedAt ← Prog.request Request.now
      let updatedAt ← Prog.request Request.now
      let run : RunRecord := {
        turn := turn
        pid := pid
        processGroup := pid
        procStartTime := identity.map (·.2)
        status := .starting
        prompt := prompt
        logPath := turn
        startedAt := startedAt}
      let record := {record with
        runs := record.runs ++ [run]
        status := .starting
        updatedAt := updatedAt}
      Prog.request (Request.save record)
      let record ← awaitThread record run expected patience patience.start
      refresh record

end Coding
end Atlas
