import Atlas.Schedules.Runner
import Atlas.Actions.Occurrences
import Atlas.Lib.Trace

/-! The scheduler among the other transactions of the service. Every step is taken later than the
one before. A poll for events locks its schedules when it starts and commits what it queues and
claims in a step of its own; a request that a lock holds up is taken again later. -/
namespace Atlas
namespace Schedules

open Actions Notifications RowTable

/-- An open poll for events. -/
structure Poll where
  started : Instant
  tasks : List (ℕ × ScheduledTaskRow)

structure Watch where
  ledger : Ledger := {}
  notifications : List NotificationRow := []
  clock : Instant := 0
  held : List ℕ := []
  polls : List (Option Poll) := []

/-- What happens to a notification apart from its wake. -/
inductive Amendment where
  | read
  | supersede
  | resolve

def Amendment.apply (now : Instant) (row : NotificationRow) : Amendment → NotificationRow
  | .read => {row with readAt := some now}
  | .supersede => row.supersede
  | .resolve => row.resolve now

inductive WatchStep where
  | work (op : Op)
  | create (arguments : Dict)
  | lock (taskId : ℕ)
  | unlock (taskId : ℕ)
  | update (arguments : Dict)
  | delete (arguments : Dict)
  | announce (row : NotificationRow)
  | amend (id : ℕ) (change : Amendment)
  | claimDue (skipped : List ℕ)
  | select
  | wake (poll : ℕ) (skipped : List ℕ)
  | rollback (poll : ℕ)

namespace Watch

/-- Whether an open poll holds the lock of a schedule. -/
def polled (m : Watch) (taskId : ℕ) : Bool :=
  m.polls.any fun poll => poll.any fun p => p.tasks.any fun entry => entry.1 == taskId

/-- Whether the lock of a schedule is held. -/
def locked (m : Watch) (taskId : ℕ) : Bool := m.held.contains taskId || m.polled taskId

/-- The schedules that a poll for what is due does not look at. -/
def passedBy (m : Watch) (skipped : List ℕ) (taskId : ℕ) : Bool :=
  m.locked taskId || skipped.contains taskId

variable [ScheduleRuntime]

/-- Whether a request is about a schedule that a poll holds. -/
def waits (m : Watch) (arguments : Dict) : Bool :=
  match getTask m.ledger arguments with
  | .ok (taskId,_) => m.polled taskId
  | .error _ => false

/-- What a request about a schedule commits, the lock of its row released. -/
def request (m : Watch) (arguments : Dict) (result : Except Refusal Ledger) : Watch :=
  if m.waits arguments then m
  else match result with
    | .error _ => m
    | .ok s => {m with
        ledger := s
        held := match getTask m.ledger arguments with
          | .ok (taskId,_) => m.held.filter (· != taskId)
          | .error _ => m.held}

/-- One transaction, or a part of a poll, at an instant. -/
def act (ownerTimezone : String) (m : Watch) (now : Instant) : WatchStep → Watch
  | .work op =>
      if op.queues then m else {m with ledger := m.ledger.step (op,now)}
  | .create arguments =>
      match create m.ledger ownerTimezone arguments now with
      | .error _ => m
      | .ok s => {m with ledger := s}
  | .lock taskId => if m.locked taskId then m else {m with held := taskId :: m.held}
  | .unlock taskId => {m with held := m.held.filter (· != taskId)}
  | .update arguments => m.request arguments (update m.ledger arguments now)
  | .delete arguments => m.request arguments (delete m.ledger arguments)
  | .announce row =>
      if row.createdAt ≤ now ∧ row.wakeClaimedAt = none then
        {m with notifications := m.notifications ++ [row]}
      else m
  | .amend id change =>
      {m with notifications := m.notifications.modify id fun row => change.apply now row}
  | .claimDue skipped =>
      match claimDue m.ledger (m.passedBy skipped) now with
      | .error _ => m
      | .ok s => {m with ledger := s}
  | .select => {m with
      polls := m.polls ++ [some {started := now, tasks := eventTasks m.ledger m.locked}]}
  | .wake poll skipped =>
      match m.polls[poll]?.join with
      | none => m
      | some p =>
          let closed := {m with polls := m.polls.modify poll fun _ => none}
          match claimEvents (waiters p.tasks) skipped.contains p.started now m.ledger
            m.notifications with
          | .error _ => closed
          | .ok (s,rows) => {closed with ledger := s, notifications := rows}
  | .rollback poll => {m with polls := m.polls.modify poll fun _ => none}

/-- A step, some time after the one before. -/
def step (ownerTimezone : String) (m : Watch) (e : WatchStep × ℕ) : Watch :=
  let now := m.clock + e.2 + 1
  {m.act ownerTimezone now e.1 with clock := now}

end Watch

end Schedules
end Atlas
