import Atlas.Lib.Dialogue
import Atlas.Actions.Rows

/-! The host of the coding bridge: the file of one session, the process table of the kernel and
the logs that the worker processes write. -/
namespace Atlas
namespace Coding

open Actions

inductive CodingStatus where
  | created
  | starting
  | running
  | completed
  | failed
  | interrupted
  | cancelled
  deriving Repr, DecidableEq

structure EventItem where
  type : Option String := none
  text : Option String := none
  deriving Repr, DecidableEq

/-- A line of the log that Codex writes, as far as the bridge looks at it. -/
structure CodexEvent where
  type : Option String := none
  threadId : Option String := none
  item : Option EventItem := none
  deriving Repr, DecidableEq

structure RunRecord where
  turn : ℕ
  pid : ℕ
  processGroup : ℕ
  procStartTime : Option ℕ
  status : CodingStatus
  prompt : String
  logPath : ℕ
  startedAt : Instant
  finishedAt : Option Instant := none
  lastEventType : Option String := none
  result : Option String := none
  resumeThreadMismatch : Option (String × String) := none
  deriving Repr, DecidableEq

structure Session where
  sessionId : String
  codexThreadId : Option String := none
  repo : Option String
  label : String
  mode : String
  status : CodingStatus
  createdAt : Instant
  updatedAt : Instant
  runs : List RunRecord := []
  cancelledBeforeStart : Bool := false
  deriving Repr, DecidableEq

/-- A process of the host; `turn` says for which turn of the session it or its parent was
launched. -/
structure Process where
  pid : ℕ
  group : ℕ
  startTime : ℕ
  zombie : Bool := false
  turn : Option ℕ := none
  deriving Repr, DecidableEq

/-- What the next process that is spawned gets from the kernel. -/
structure Offer where
  pid : ℕ
  startTime : ℕ

structure Host where
  file : Option Session := none
  table : List Process := []
  logs : ℕ → List CodexEvent := fun _ => []
  clock : Instant := 0
  offer : Option Offer := none
  launched : ℕ := 0

inductive Signal where
  | term
  | kill

/-- What the bridge asks of the host. -/
inductive Request where
  | load
  | save (record : Session)
  | now
  | identity (pid : ℕ)
  | members (group : ℕ)
  | events (logPath : ℕ)
  | killpg (group : ℕ) (signal : Signal)
  | popen (turn : ℕ) (command : List String) (cwd : String)

@[reducible] def Request.Answer : Request → Type
  | .load => Option Session
  | .save _ => Unit
  | .now => Instant
  | .identity _ => Option (Bool × ℕ)
  | .members _ => List (ℕ × ℕ)
  | .events _ => List CodexEvent
  | .killpg _ _ => Bool
  | .popen _ _ _ => Option ℕ

/-- What happens on the host by itself. -/
inductive Happening where
  | exit (pid : ℕ)
  | reap (pid : ℕ)
  | fork (parent child startTime : ℕ)
  | arrive (pid startTime : ℕ)
  | output (turn : ℕ) (event : CodexEvent)
  | tick (clock : Instant)
  | offer (pid startTime : ℕ)

namespace Host

/-- Whether no process has the number, nor a group that still has processes. -/
def free (h : Host) (pid : ℕ) : Bool :=
  pid != 0 && h.table.all fun p => p.pid != pid && p.group != pid

/-- Whether a process works on a turn of the session. -/
def works (p : Process) (turn : ℕ) : Bool := !p.zombie && p.turn == some turn

def stir (h : Host) : Happening → Host
  | .exit pid => {h with
      table := h.table.map fun p => if p.pid = pid then {p with zombie := true} else p}
  | .reap pid => {h with table := h.table.filter fun p => !(p.pid == pid && p.zombie)}
  | .fork parent child startTime =>
      match h.table.find? fun p => p.pid == parent && !p.zombie with
      | some p =>
          if h.free child then
            {h with table := h.table ++ [{
              pid := child
              group := p.group
              startTime := startTime
              turn := p.turn}]}
          else h
      | none => h
  | .arrive pid startTime =>
      if h.free pid then
        {h with table := h.table ++ [{pid := pid, group := pid, startTime := startTime}]}
      else h
  | .output turn event =>
      if h.table.any (works · turn) then
        {h with logs := Function.update h.logs turn (h.logs turn ++ [event])}
      else h
  | .tick clock => {h with clock := max h.clock clock}
  | .offer pid startTime => {h with offer := some ⟨pid,startTime⟩}

/-- The host once a process is launched for a turn; it leads a group of its own. -/
def spawned (h : Host) (turn : ℕ) (offer : Offer) : Host :=
  {h with
    table := h.table ++ [{
      pid := offer.pid
      group := offer.pid
      startTime := offer.startTime
      turn := some turn}]
    offer := none
    launched := h.launched + 1}

def spawn (h : Host) (turn : ℕ) : Option ℕ × Host :=
  match h.offer with
  | none => (none,h)
  | some offer => if h.free offer.pid then (some offer.pid,h.spawned turn offer) else (none,h)

def answer (h : Host) : (q : Request) → q.Answer × Host
  | .load => (h.file,h)
  | .save record => ((),{h with file := some record})
  | .now => (h.clock,h)
  | .identity pid => ((h.table.find? (·.pid == pid)).map fun p => (p.zombie,p.startTime),h)
  | .members group =>
      ((h.table.filter fun p => p.group == group && !p.zombie).map fun p =>
        (p.pid,p.startTime),h)
  | .events logPath => (h.logs logPath,h)
  | .killpg group _ => (h.table.any (·.group == group),h)
  | .popen turn _ _ => h.spawn turn

end Host

def world : Dialogue.World Host Happening Request Request.Answer where
  stir := Host.stir
  answer := Host.answer

/-- Programs of the bridge. -/
abbrev Tool (α : Type) := Dialogue.Prog Request Request.Answer Failure α

end Coding
end Atlas
