import Atlas.Runtime.TaskState

/-! The awareness ledger: its events, its rows and what an event makes of its thread. -/
namespace Atlas
namespace Notifications

open Actions
open Memory (strip)

inductive Severity where
  | info
  | warning
  | actionRequired
  | critical
  | resolved
  deriving Repr, DecidableEq

/-- The status of a row; the first one is `open`. -/
inductive Status where
  | opened
  | superseded
  | resolved
  deriving Repr, DecidableEq

inductive PushStatus where
  | none
  | pending
  | sent
  | failed
  | skipped
  deriving Repr, DecidableEq

structure NotificationEvent where
  source : String
  kind : String
  severity : Severity
  title : String
  body : String := ""
  detail : Dict := []
  sensitiveFields : List String := []
  threadKey : Option String := none
  runId : Option ℕ := none

/-- `__post_init__`; the severities are those of the type. -/
def NotificationEvent.check (event : NotificationEvent) : Except Refusal Unit :=
  require (strip event.title ≠ "") ⟨.valueError,"Notification title is required"⟩

structure NotificationRow where
  source : String
  kind : String
  severity : Severity
  title : String
  body : String := ""
  detail : Dict := []
  sensitiveFields : List String := []
  threadKey : Option String := none
  status : Status := .opened
  readAt : Option Instant := none
  createdAt : Instant := 0
  resolvedAt : Option Instant := none
  runId : Option ℕ := none
  pushStatus : PushStatus := .none
  pushQuiet : Bool := false
  pushAttemptedAt : Option Instant := none
  wakeClaimedAt : Option Instant := none

/-- Whether a row is open on a thread. -/
def NotificationRow.isOpen (row : NotificationRow) (key : String) : Bool :=
  row.status == .opened && row.threadKey == some key

def NotificationRow.supersede (row : NotificationRow) : NotificationRow :=
  {row with status := .superseded}

def NotificationRow.resolve (row : NotificationRow) (now : Instant) : NotificationRow :=
  {row with status := .resolved, resolvedAt := some now}

@[simp] theorem isOpen_supersede (row : NotificationRow) (key : String) :
    row.supersede.isOpen key = false := rfl

@[simp] theorem isOpen_resolve (row : NotificationRow) (now : Instant) (key : String) :
    (row.resolve now).isOpen key = false := rfl

theorem isOpen_unique {row : NotificationRow} {key key' : String} (h : row.isOpen key = true)
    (h' : row.isOpen key' = true) : key = key' := by
  simp only [NotificationRow.isOpen,Bool.and_eq_true,beq_iff_eq] at h h'
  exact Option.some.inj (h.2.symm.trans h'.2)

structure PushDecision where
  status : PushStatus
  quiet : Bool := false

/-- `decide_push`. -/
def decidePush (severity : Severity) (threadPushedBefore : Bool) (lastPushAt : Option Instant)
    (now : Instant) (repeatMinutes : ℕ) : PushDecision :=
  match severity with
  | .info => {status := .none}
  | .resolved => {status := if threadPushedBefore then .pending else .none}
  | _ => {
      status := .pending
      quiet := lastPushAt.any fun last => now < last + seconds (60 * repeatMinutes)}

/-- `_thread_push_history`. -/
def threadPushHistory (rows : List NotificationRow) (key : String) : Bool × Option Instant :=
  let thread := rows.filter fun row => row.threadKey == some key
  (thread.any fun row => row.pushStatus == .pending || row.pushStatus == .sent,
    ((thread.filter fun row => row.pushStatus == .sent).filterMap
      NotificationRow.pushAttemptedAt).max?)

/-- Equality of dictionaries. -/
def sameDict (a b : Dict) : Bool :=
  a.length == b.length && a.all fun p => (Dict.get b p.1).any (Runtime.sameJson p.2)

/-- Whether an open row says what an event says. -/
def NotificationRow.repeats (row : NotificationRow) (event : NotificationEvent) : Bool :=
  row.kind == event.kind && row.title == event.title && row.body == event.body &&
    sameDict row.detail event.detail

/-- What an event makes of its thread. -/
inductive Emission where
  | nothing
  | duplicate
  | written (close : NotificationRow → NotificationRow) (row : NotificationRow)

/-- `emit_sync` with the open rows and the push history of its thread. -/
def emission (openRows : List NotificationRow) (history : Bool × Option Instant)
    (event : NotificationEvent) (now : Instant) (repeatMinutes : ℕ) : Emission :=
  let decision := decidePush event.severity history.1 history.2 now repeatMinutes
  let row : NotificationRow := {
    source := event.source
    kind := event.kind
    severity := event.severity
    title := event.title
    body := event.body
    detail := event.detail
    sensitiveFields := event.sensitiveFields
    threadKey := event.threadKey
    createdAt := now
    runId := event.runId
    pushStatus := decision.status
    pushQuiet := decision.quiet}
  if event.severity = .resolved then
    if openRows.isEmpty then .nothing else .written (·.resolve now) (row.resolve now)
  else if openRows.any (·.repeats event) then .duplicate
  else .written (·.supersede) row

/-- The thread whose open rows an event looks up; an empty key counts as none. -/
def NotificationEvent.thread (event : NotificationEvent) : Option String :=
  event.threadKey.filter fun key => !key.isEmpty

end Notifications
end Atlas
