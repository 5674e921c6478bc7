import Atlas.Schedules.Service
import Atlas.Actions.Machine

/-! The polls of the scheduler: what is due is queued and advanced, and notifications wake the
event schedules that they match. -/
namespace Atlas
namespace Schedules

open Actions Notifications RowTable

/-- `OUTSTANDING`. -/
def outstandingStatuses : List RunStatus := [.queued,.running,.waitingForOwner,.uncertain]

/-- `_outstanding`. -/
def outstanding (s : Ledger) (taskId : ℕ) : Bool :=
  s.runs.any fun r => r.scheduleId == some taskId && outstandingStatuses.contains r.status

/-- Whether a schedule has a run for a time. -/
def taken (s : Ledger) (taskId : ℕ) (t : Instant) : Bool :=
  s.runs.any fun r => r.scheduleId == some taskId && r.scheduledFor == some t

/-- The times that a schedule has runs for. -/
def takenTimes (s : Ledger) (taskId : ℕ) : List Instant :=
  s.runs.filterMap fun r => if r.scheduleId = some taskId then r.scheduledFor else none

/-- The first time from the given one on that is not taken, among the next few. -/
def firstFree : ℕ → List Instant → Instant → Instant
  | 0,_,t => t
  | n + 1,times,t => if t ∈ times then firstFree n times (t + 1) else t

/-- `_queue_run`, with the constraint that a schedule has one run for a time. -/
def queueOccurrence (s : Ledger) (taskId : ℕ) (task : ScheduledTaskRow) (snapshot : Dict)
    (scheduledFor now : Instant) : Except Refusal Ledger := do
  let transcripts := s.transcripts ++ [{kind := "scheduled", createdAt := now, updatedAt := now}]
  require (taken s taskId scheduledFor = false) ⟨.integrityError,"uq_schedule_occurrence"⟩
  let (s,_) ← {s with transcripts := transcripts}.queueRun (some s.transcripts.length) task.prompt
    taskId scheduledFor snapshot now
  return s

section

variable [ScheduleRuntime]

/-- `advance_before_run` on the row of a schedule, whose last run is then queued. -/
def advanceTask (s : Ledger) (taskId : ℕ) (task : ScheduledTaskRow) (now : Instant) :
    Except Refusal Ledger :=
  (advanceBeforeRun task now).map fun row =>
    s.setSchedule taskId fun _ => {row with lastStatus := some .queued}

/-- `due`: the schedules of a poll, the first due first. -/
def dueTasks (s : Ledger) (locked : ℕ → Bool) (now : Instant) : List ℕ :=
  (((ids (fun t => t.enabled && !t.deleted && decide (t.nextRunAt ≤ now)) s.schedules).filter
    fun id => !locked id).insertionSort fun a b =>
      (s.schedules[a]?).elim 0 (·.nextRunAt) ≤ (s.schedules[b]?).elim 0 (·.nextRunAt)).take 10

/-- The snapshot of an occurrence that is due. -/
def dueSnapshot (taskId : ℕ) (task : ScheduledTaskRow) : Dict := [
  ("task_id",.str (toString taskId)),
  ("title",.str task.title),
  ("prompt",.str task.prompt),
  ("timezone",.str task.timezone),
  ("scheduled_for",.str (PyRuntime.isoformat task.nextRunAt))]

/-- One schedule of `claim_due`. -/
def claimTask (now : Instant) (s : Ledger) (taskId : ℕ) : Except Refusal Ledger :=
  match s.schedules[taskId]? with
  | none => .ok s
  | some task =>
      if outstanding s taskId then .ok s
      else do
        let s ← queueOccurrence s taskId task (dueSnapshot taskId task) task.nextRunAt now
        advanceTask s taskId task now

/-- `claim_due`. -/
def claimDue (s : Ledger) (locked : ℕ → Bool) (now : Instant) : Except Refusal Ledger :=
  (dueTasks s locked now).foldlM (claimTask now) s

/-- The event schedules that a poll locks, as it reads them. -/
def eventTasks (s : Ledger) (locked : ℕ → Bool) : List (ℕ × ScheduledTaskRow) :=
  ((ids (fun t => t.enabled && !t.deleted && t.scheduleKind == "event") s.schedules).filter
    fun id => !locked id).filterMap fun id => (s.schedules[id]?).map (id,·)

/-- An event schedule with its filter. -/
structure Waiter where
  taskId : ℕ
  task : ScheduledTaskRow
  filter : EventFilter

/-- The schedules whose filters are valid. -/
def waiters (tasks : List (ℕ × ScheduledTaskRow)) : List Waiter :=
  tasks.filterMap fun entry =>
    match parseEventFilter entry.2.scheduleValue with
    | .ok filter => some ⟨entry.1,entry.2,filter⟩
    | .error _ => none

/-- Whether a notification comes from a run of a schedule. -/
def ownEvent (s : Ledger) (taskId : ℕ) (row : NotificationRow) : Bool :=
  (row.runId.bind (s.runs[·]?)).any fun origin => origin.scheduleId == some taskId

/-- Whether a notification is to wake a schedule. -/
def Waiter.wakes (w : Waiter) (s : Ledger) (id : ℕ) (row : NotificationRow) : Bool :=
  w.filter.matches (projectNotification id row) && row.status != .superseded &&
    !decide (row.createdAt < w.task.createdAt) && !ownEvent s w.taskId row

/-- The snapshot of an occurrence that an event wakes. -/
def eventSnapshot (w : Waiter) (id : ℕ) (row : NotificationRow) (scheduledFor : Instant) : Dict :=
  let event := projectNotification id row
  [("task_id",.str (toString w.taskId)),
    ("title",.str w.task.title),
    ("trigger",.str "event"),
    ("task_prompt",.str w.task.prompt),
    ("prompt",.str (composeEventPrompt w.task.prompt event)),
    ("timezone",.str w.task.timezone),
    ("scheduled_for",.str (PyRuntime.isoformat scheduledFor)),
    ("notification_id",.str (toString id)),
    ("event",.obj event)]

/-- One schedule of the inner loop of `claim_events`, and whether the notification is deferred. -/
def wakeTask (now : Instant) (id : ℕ) (row : NotificationRow) (st : Ledger × Bool) (w : Waiter) :
    Except Refusal (Ledger × Bool) :=
  if w.wakes st.1 id row = false then .ok st
  else if outstanding st.1 w.taskId then .ok (st.1,true)
  else do
    let times := takenTimes st.1 w.taskId
    let scheduledFor := firstFree times.length times row.createdAt
    let s ← queueOccurrence st.1 w.taskId w.task (eventSnapshot w id row scheduledFor)
      scheduledFor now
    let s ← advanceTask s w.taskId w.task now
    return (s,st.2)

/-- A notification that a poll has claimed. -/
def claimWake (started : Instant) (row : NotificationRow) : NotificationRow :=
  {row with wakeClaimedAt := some started}

/-- One notification of `claim_events`. -/
def wakeNotification (ws : List Waiter) (started now : Instant)
    (st : Ledger × List NotificationRow) (id : ℕ) :
    Except Refusal (Ledger × List NotificationRow) :=
  match st.2[id]? with
  | none => .ok st
  | some row => do
      let (s,deferred) ← ws.foldlM (wakeTask now id row) (st.1,false)
      if deferred then return (s,st.2)
      else return (s,st.2.modify id (claimWake started))

/-- The update of the notifications that are too old to wake anything. -/
def expireWakes (started : Instant) (rows : List NotificationRow) : List NotificationRow :=
  rows.map fun r =>
    if r.wakeClaimedAt.isNone && decide (r.createdAt < started - eventWakeMaxAge) then
      claimWake started r
    else r

/-- The notifications that a poll looks at, the oldest first. -/
def pendingWakes (rows : List NotificationRow) (locked : ℕ → Bool) (started : Instant) : List ℕ :=
  (((ids (fun r => r.wakeClaimedAt.isNone && decide (started - eventWakeMaxAge ≤ r.createdAt))
    rows).filter fun id => !locked id).insertionSort fun a b =>
      (rows[a]?).elim 0 (·.createdAt) ≤ (rows[b]?).elim 0 (·.createdAt)).take 20

/-- `claim_events` from its schedules on. -/
def claimEvents (ws : List Waiter) (locked : ℕ → Bool) (started now : Instant) (s : Ledger)
    (rows : List NotificationRow) : Except Refusal (Ledger × List NotificationRow) :=
  let rows := expireWakes started rows
  if ws.isEmpty then .ok (s,rows)
  else (pendingWakes rows locked started).foldlM (wakeNotification ws started now) (s,rows)

end

end Schedules
end Atlas
