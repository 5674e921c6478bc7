import Atlas.Notifications.Emission

/-! The unit health monitor: what a pass over the statuses of the listed units announces and
remembers. -/
namespace Atlas
namespace Monitors

open Actions Notifications

def unitsSource : String := "runtime.units"

def healthyStates : List String := ["active","activating","reloading"]

structure UnitStatus where
  unit : String
  loadState : String := "unknown"
  activeState : String := "unknown"
  subState : String := "unknown"
  result : String := ""
  restarts : ℤ := 0
  startedAt : String := ""
  observed : Bool := false

def UnitStatus.healthy (status : UnitStatus) : Bool :=
  status.observed && healthyStates.contains status.activeState

/-- What is remembered of a unit. -/
structure Seen where
  healthy : Bool
  observed : Bool
  activeState : String
  subState : String
  restarts : ℤ
  startedAt : String
  seenAt : Instant

structure UnitsState where
  units : String → Option Seen := fun _ => none

/-- `_thread`. -/
def unitThread (unit : String) : String := "host.unit:" ++ unit

def restartThread (unit : String) : String := "host.restart:" ++ unit

def UnitStatus.detail (status : UnitStatus) : Dict := [
  ("unit",.str status.unit),("active_state",.str status.activeState),
  ("sub_state",.str status.subState),("result",.str status.result),
  ("restarts",.num status.restarts),("started_at",.str status.startedAt),("open_url",.str "/")]

def UnitStatus.seen (status : UnitStatus) (now : Instant) : Seen where
  healthy := if status.observed then status.healthy else false
  observed := status.observed
  activeState := status.activeState
  subState := status.subState
  restarts := status.restarts
  startedAt := status.startedAt
  seenAt := now

def UnitStatus.unobservable (status : UnitStatus) : NotificationEvent where
  source := unitsSource
  kind := "unit_unobservable"
  severity := .warning
  title := status.unit ++ " could not be observed"
  body := "systemctl show returned nothing for this unit; it may not exist on this host."
  detail := status.detail
  threadKey := some (unitThread status.unit)

def UnitStatus.restored (status : UnitStatus) : NotificationEvent where
  source := unitsSource
  kind := "unit_restored"
  severity := .resolved
  title := status.unit ++ " is active again"
  body := status.unit ++ " is " ++ status.activeState ++ " (" ++ status.subState ++ ")."
  detail := status.detail
  threadKey := some (unitThread status.unit)

def UnitStatus.restarted (status : UnitStatus) : NotificationEvent where
  source := unitsSource
  kind := "unit_restarted"
  severity := .info
  title := status.unit ++ " restarted"
  body := "Restart count is now " ++ toString status.restarts ++ "."
  detail := status.detail
  threadKey := some (restartThread status.unit)

def UnitStatus.unhealthy (status : UnitStatus) : NotificationEvent where
  source := unitsSource
  kind := "unit_unhealthy"
  severity := .warning
  title := status.unit ++ " is " ++ status.activeState
  body := status.unit ++ " is " ++ status.activeState ++ " (" ++ status.subState ++ ")" ++
    (if status.result ≠ "" ∧ status.result ≠ "success" then ", result " ++ status.result else "") ++
    ". Atlas does not restart it by itself."
  detail := status.detail
  threadKey := some (unitThread status.unit)

/-- The event of one status, by what is remembered of its unit. -/
def statusEvent (previous : Option Seen) (status : UnitStatus) : Option NotificationEvent :=
  let wasHealthy := previous.map (·.healthy)
  if status.observed = false then
    if wasHealthy ≠ some false then some status.unobservable else none
  else if status.healthy then
    if wasHealthy = some false then some status.restored
    else if wasHealthy = some true ∧ status.restarts > previous.elim 0 (·.restarts) then
      some status.restarted
    else none
  else if wasHealthy ≠ some false then some status.unhealthy
  else none

/-- The statuses one after the other. -/
def observe (now : Instant) : (String → Option Seen) → List UnitStatus →
    (String → Option Seen) × List NotificationEvent
  | units, [] => (units,[])
  | units, status :: rest =>
      let (last,events) := observe now
        (Function.update units status.unit (some (status.seen now))) rest
      (last,(statusEvent (units status.unit) status).toList ++ events)

/-- `apply_statuses`; the units that have no status are forgotten. -/
def applyStatuses (state : UnitsState) (statuses : List UnitStatus) (now : Instant) :
    UnitsState × List NotificationEvent :=
  let (units,events) := observe now state.units statuses
  ({units := fun unit =>
    if (statuses.map (·.unit)).contains unit then units unit else none},events)

/-- What a pass reports. -/
structure UnitsPass where
  units : ℕ
  events : ℕ
  emitted : ℕ
  unhealthy : Option (List String) := none

/-- `units_monitor_once`, with what the reader returns for the watch list. -/
def unitsMonitorOnce (repeatMinutes : ℕ) (now : Instant) (units : List String)
    (statuses : List UnitStatus) (state : UnitsState) (rows : List NotificationRow) :
    UnitsPass × UnitsState × List NotificationRow :=
  if units = [] then ({units := 0, events := 0, emitted := 0},state,rows)
  else
    let (state,events) := applyStatuses state statuses now
    let (emitted,rows) := emitAll repeatMinutes now rows events
    ({units := units.length
      events := events.length
      emitted := emitted
      unhealthy := some ((statuses.filter fun status => !status.healthy).map (·.unit))},state,rows)

section

variable {previous : Option Seen} {status : UnitStatus} {event : NotificationEvent}

theorem seen_healthy (status : UnitStatus) (now : Instant) :
    (status.seen now).healthy = status.healthy := by
  by_cases ho : status.observed = true
  · simp [UnitStatus.seen,ho]
  · simp [UnitStatus.seen,UnitStatus.healthy,ho]

theorem unitThread_ne_empty (unit : String) : unitThread unit ≠ "" := by
  intro h
  have hlist := congrArg String.toList h
  simp [unitThread] at hlist

theorem restartThread_ne_empty (unit : String) : restartThread unit ≠ "" := by
  intro h
  have hlist := congrArg String.toList h
  simp [restartThread] at hlist

theorem unitThread_injective {a b : String} (h : unitThread a = unitThread b) : a = b := by
  have hlist := congrArg String.toList h
  simp only [unitThread,String.toList_append,List.append_cancel_left_eq] at hlist
  exact String.toList_inj.mp hlist

theorem unitThread_ne_restartThread (a b : String) : unitThread a ≠ restartThread b := by
  intro h
  have hlist := congrArg String.toList h
  simp [unitThread,restartThread] at hlist

/-- The events of a status: those of the unit's thread change the health that was known. -/
inductive Told (previous : Option Seen) (status : UnitStatus) : Option NotificationEvent → Prop
  | alarmed {event : NotificationEvent} : status.healthy = false →
      previous.map (·.healthy) ≠ some false → event.severity ≠ .resolved →
      event.threadKey = some (unitThread status.unit) → Told previous status (some event)
  | stillUnhealthy : status.healthy = false → previous.map (·.healthy) = some false →
      Told previous status none
  | restored {event : NotificationEvent} : status.healthy = true →
      previous.map (·.healthy) = some false → event.severity = .resolved →
      event.threadKey = some (unitThread status.unit) → Told previous status (some event)
  | restarted {event : NotificationEvent} : status.healthy = true →
      previous.map (·.healthy) = some true → event.severity ≠ .resolved →
      event.threadKey = some (restartThread status.unit) → Told previous status (some event)
  | quiet : status.healthy = true → previous.map (·.healthy) ≠ some false →
      Told previous status none

theorem told_statusEvent (previous : Option Seen) (status : UnitStatus) :
    Told previous status (statusEvent previous status) := by
  have hunobserved : status.observed = false → status.healthy = false := fun h => by
    rw [UnitStatus.healthy,h,Bool.false_and]
  simp only [statusEvent]
  split
  · next ho =>
    split
    · next hw => exact .alarmed (hunobserved ho) hw (by simp [UnitStatus.unobservable]) rfl
    · next hw => exact .stillUnhealthy (hunobserved ho) (not_not.mp hw)
  · split
    · next hh =>
      split
      · next hw => exact .restored hh hw rfl rfl
      · next hw =>
        split
        · next hr => exact .restarted hh hr.1 (by simp [UnitStatus.restarted]) rfl
        · exact .quiet hh hw
    · next hh =>
      have hh : status.healthy = false := Bool.eq_false_iff.mpr hh
      split
      · next hw => exact .alarmed hh hw (by simp [UnitStatus.unhealthy]) rfl
      · next hw => exact .stillUnhealthy hh (not_not.mp hw)

/-- Every title says something, so the check of an event refuses none. -/
theorem statusEvent_check (h : statusEvent previous status = some event) :
    event.check = .ok () := by
  simp only [statusEvent] at h
  split_ifs at h <;> obtain rfl := Option.some.inj h
  · exact check_of_mem (c := 'b') (by simp [UnitStatus.unobservable]) (by decide)
  · exact check_of_mem (c := 'i') (by simp [UnitStatus.restored]) (by decide)
  · exact check_of_mem (c := 'r') (by simp [UnitStatus.restarted]) (by decide)
  · exact check_of_mem (c := 'i') (by simp [UnitStatus.unhealthy]) (by decide)

end

end Monitors
end Atlas
