import Atlas.Schedules.Filters

/-! The schedules of the owner: when they are due, and how they are made, changed, removed and
advanced. -/
namespace Atlas
namespace Schedules

open Actions RowTable
open Memory (strip)

/-- The last day that a `datetime` can name. -/
def lastDay : ℕ := 3652058

/-- `EVENT_SENTINEL`. -/
def eventSentinel : Instant := seconds (lastDay * 86400)

/-- The first instant after `datetime.max`. -/
def datetimeEnd : Instant := seconds ((lastDay + 1) * 86400)

/-- `EVENT_WAKE_MAX_AGE`. -/
def eventWakeMaxAge : ℕ := hours 6

section

variable [ScheduleRuntime]

/-- `next_run`. -/
def nextRun (kind value timezone : String) (now : Instant) : Except Refusal Instant := do
  require (ScheduleRuntime.zone timezone = true)
    ⟨.lookupError,"No time zone found with key " ++ timezone⟩
  if kind = "once" then
    match ActionRuntime.fromisoformat value with
    | none => throw ⟨.valueError,"Invalid isoformat string: " ++ value⟩
    | some (.aware t) => return t
    | some (.naive t) => return ScheduleRuntime.fromLocal timezone t
  else if kind = "interval" then
    match ScheduleRuntime.int value with
    | none => throw ⟨.valueError,"invalid literal for int(): " ++ value⟩
    | some n =>
        let due := now + seconds ((max 1 n).toNat * 60)
        require (due < datetimeEnd) ⟨.overflowError,"date value out of range"⟩
        return due
  else if kind = "cron" then
    match ScheduleRuntime.getNext value timezone now with
    | none => throw ⟨.valueError,"croniter finds no next date for " ++ value⟩
    | some due => return due
  else if kind = "event" then
    let _ ← parseEventFilter value
    return eventSentinel
  else throw ⟨.valueError,"schedule_kind must be once, interval, cron, or event"⟩

/-- `str(arguments.get(key) or default).strip()`. -/
def argument (arguments : Dict) (key default : String) : String :=
  match (Dict.get arguments key).filter Json.truthy with
  | some value => strip (ActionRuntime.str value)
  | none => strip default

/-- `str.lower()` for the kinds of schedules. -/
def lower (s : String) : String := String.ofList (s.toList.map Char.toLower)

/-- `ScheduleService.create`: the row of a new schedule. -/
def createdTask (ownerTimezone : String) (arguments : Dict) (now : Instant) :
    Except Refusal ScheduledTaskRow := do
  let kind := lower (argument arguments "schedule_kind" "once")
  let prompt := argument arguments "prompt" ""
  let value := argument arguments "schedule_value" ""
  let timezone := argument arguments "timezone" ownerTimezone
  require (prompt ≠ "" ∧ value ≠ "") ⟨.valueError,"prompt and schedule_value are required"⟩
  let due ← nextRun kind value timezone now
  require (kind = "once" → now < due) ⟨.valueError,"One-time schedules must be in the future"⟩
  return {
    title := argument arguments "title" "Scheduled task"
    prompt := prompt
    scheduleKind := kind
    scheduleValue := value
    timezone := timezone
    nextRunAt := due
    createdAt := now}

/-- An argument that is given, as the attribute it sets. -/
def given (arguments : Dict) (key old : String) : String :=
  match Dict.get arguments key with
  | none => old
  | some .null => old
  | some value => strip (ActionRuntime.str value)

/-- The row that `ScheduleService.update` makes of a row. -/
def updatedTask (arguments : Dict) (row : ScheduledTaskRow) (now : Instant) :
    Except Refusal ScheduledTaskRow := do
  let row := {row with
    title := given arguments "title" row.title
    prompt := given arguments "prompt" row.prompt
    scheduleKind := given arguments "schedule_kind" row.scheduleKind
    scheduleValue := given arguments "schedule_value" row.scheduleValue
    timezone := given arguments "timezone" row.timezone
    enabled := match Dict.get arguments "enabled" with
      | none => row.enabled
      | some value => value.truthy}
  let due ← nextRun row.scheduleKind row.scheduleValue row.timezone now
  return {row with nextRunAt := due}

/-- `_get`: the row that a request names. -/
def getTask (s : Ledger) (arguments : Dict) : Except Refusal (ℕ × ScheduledTaskRow) :=
  let text := match (Dict.get arguments "task_id").filter Json.truthy with
    | some value => ActionRuntime.str value
    | none => ""
  match ActionRuntime.uuid text with
  | none => .error ⟨.valueError,"Invalid scheduled task ID"⟩
  | some id =>
      match s.schedules[id]? with
      | none => .error ⟨.valueError,"Scheduled task not found"⟩
      | some row =>
          if row.deleted then .error ⟨.valueError,"Scheduled task not found"⟩ else .ok (id,row)

/-- `ScheduleService.create`. -/
def create (s : Ledger) (ownerTimezone : String) (arguments : Dict) (now : Instant) :
    Except Refusal Ledger := do
  let row ← createdTask ownerTimezone arguments now
  return {s with schedules := s.schedules ++ [row]}

/-- `ScheduleService.update`. -/
def update (s : Ledger) (arguments : Dict) (now : Instant) : Except Refusal Ledger := do
  let (id,row) ← getTask s arguments
  let row ← updatedTask arguments row now
  return s.setSchedule id fun _ => row

/-- `ScheduleService.delete`. -/
def delete (s : Ledger) (arguments : Dict) : Except Refusal Ledger := do
  let (id,_) ← getTask s arguments
  return s.setSchedule id fun row => {row with deleted := true}

/-- `advance_before_run`. -/
def advanceBeforeRun (row : ScheduledTaskRow) (now : Instant) : Except Refusal ScheduledTaskRow :=
  let row := {row with lastRunAt := some now, lastStatus := some .running, lastResult := none}
  if row.scheduleKind = "once" then .ok {row with enabled := false}
  else if row.scheduleKind = "event" then .ok {row with nextRunAt := eventSentinel}
  else (nextRun row.scheduleKind row.scheduleValue row.timezone now).map fun due =>
    {row with nextRunAt := due}

end

end Schedules
end Atlas
