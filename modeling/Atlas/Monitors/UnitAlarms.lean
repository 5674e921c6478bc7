import Atlas.Monitors.Units
import Atlas.Lib.Trace

/-! Which unit alarms are open after any passes of the monitor over changing watch lists. -/
namespace Atlas
namespace Monitors

open Actions Notifications Trace

/-- The monitor and the ledger, with what was last observed of each unit and whose alarms the
owner has closed. -/
structure UnitsWatch where
  state : UnitsState := {}
  rows : List NotificationRow := []
  latest : String → Option Bool := fun _ => none
  dismissed : String → Bool := fun _ => false

inductive UnitsStep where
  | pass (repeatMinutes : ℕ) (now : Instant) (units : List String) (statuses : List UnitStatus)
  | resolve (id : ℕ) (now : Instant)

/-- The last observations after some statuses. -/
def lastObserved (latest : String → Option Bool) (statuses : List UnitStatus) :
    String → Option Bool :=
  statuses.foldl (fun latest status => Function.update latest status.unit (some status.healthy))
    latest

/-- Whether one of the events is on the thread of a unit. -/
def speaks (events : List NotificationEvent) (unit : String) : Bool :=
  events.any fun event => event.threadKey == some (unitThread unit)

/-- Whether a unit is found unhealthy or unobservable. -/
def Ailing (unit : String) (statuses : List UnitStatus) : Prop :=
  ∃ status ∈ statuses, status.unit = unit ∧ status.healthy = false

namespace UnitsWatch

def start (rows : List NotificationRow) : UnitsWatch := {rows := rows}

/-- Whether a notification is open on the thread of a unit. -/
def alarm (w : UnitsWatch) (unit : String) : Bool := openOn w.rows (unitThread unit)

/-- The statuses that a pass looks at: none for an empty watch list. -/
def read (units : List String) (statuses : List UnitStatus) : List UnitStatus :=
  if units = [] then [] else statuses

def step (w : UnitsWatch) : UnitsStep → UnitsWatch
  | .pass repeatMinutes now units statuses =>
      let (_,state,rows) := unitsMonitorOnce repeatMinutes now units statuses w.state w.rows
      let events := (applyStatuses w.state (read units statuses) now).2
      {state := state
       rows := rows
       latest := lastObserved w.latest (read units statuses)
       dismissed := fun unit => w.dismissed unit && !speaks events unit}
  | .resolve id now =>
      match resolveNotification w.rows id now with
      | .error _ => w
      | .ok rows => {w with
          rows := rows
          dismissed := fun unit => w.dismissed unit ||
            (w.rows[id]?.bind (·.threadKey)) == some (unitThread unit)}

/-- A unit that is not remembered and whose alarm is open is not found healthy throughout. -/
def Recalls (w : UnitsWatch) : UnitsStep → Prop
  | .pass _ _ units statuses => units ≠ [] → ∀ status ∈ statuses,
      w.state.units status.unit = none → w.alarm status.unit = true → Ailing status.unit statuses
  | .resolve _ _ => True

/-- The alarms tell what was last observed. -/
structure Sound (w : UnitsWatch) : Prop where
  closed : ∀ unit, w.latest unit = some true → w.alarm unit = false
  raised : ∀ unit, w.latest unit = some false → w.alarm unit = true ∨ w.dismissed unit = true

/-- A ledger without alarms. -/
def Quiet (rows : List NotificationRow) : Prop := ∀ unit, openOn rows (unitThread unit) = false

end UnitsWatch

/-- What holds of a unit while the statuses of a pass are left: what is remembered of it, whether
its alarm is open or was dismissed, and what was last observed of it. -/
structure Kept (unit : String) (rest : List UnitStatus) (seen : Option Seen)
    (opened dismissed : Bool) (latest : Option Bool) : Prop where
  agrees : ∀ s, seen = some s → latest = some s.healthy
  raised : latest = some false → opened = true ∨ dismissed = true
  closed : latest = some true → opened = true → Ailing unit rest
  recalled : seen = none → opened = true → (∃ status ∈ rest, status.unit = unit) →
    Ailing unit rest

section

variable {unit : String} {status : UnitStatus} {rest statuses : List UnitStatus}
  {seen : Option Seen} {opened dismissed : Bool} {latest : Option Bool} {now : Instant}
  {repeatMinutes : ℕ} {rows : List NotificationRow} {event : Option NotificationEvent}

theorem Ailing.tail (h : Ailing unit (status :: rest))
    (hne : status.unit = unit → status.healthy = true) : Ailing unit rest := by
  obtain ⟨s,hs,hunit,hhealthy⟩ := h
  rcases List.mem_cons.mp hs with rfl | hs
  · rw [hne hunit] at hhealthy
    cases hhealthy
  · exact ⟨s,hs,hunit,hhealthy⟩

/-- The status of another unit. -/
theorem Kept.other (h : Kept unit (status :: rest) seen opened dismissed latest)
    (hne : status.unit ≠ unit) : Kept unit rest seen opened dismissed latest where
  agrees := h.agrees
  raised := h.raised
  closed := fun hl ho => (h.closed hl ho).tail fun he => absurd he hne
  recalled := fun hs ho ⟨s,hmem,hunit⟩ =>
    (h.recalled hs ho ⟨s,List.mem_cons_of_mem _ hmem,hunit⟩).tail fun he => absurd he hne

/-- A healthy unit whose alarm is open is due to ail in what is left. -/
theorem Kept.due (h : Kept unit (status :: rest) seen opened dismissed latest)
    (hunit : status.unit = unit) (hh : status.healthy = true)
    (hseen : seen.map (·.healthy) ≠ some false) (ho : opened = true) : Ailing unit rest := by
  refine Ailing.tail ?_ fun _ => hh
  cases hs : seen with
  | none => exact h.recalled hs ho ⟨status,List.mem_cons_self,hunit⟩
  | some s =>
    refine h.closed ?_ ho
    rw [hs,Option.map_some] at hseen
    rw [h.agrees s hs]
    cases hsh : s.healthy with
    | false => exact absurd (by rw [hsh]) hseen
    | true => rfl

theorem speaks_own (event : NotificationEvent) (hunit : status.unit = unit)
    (hkey : event.threadKey = some (unitThread status.unit)) : speaks [event] unit = true := by
  simp [speaks,hkey,hunit]

/-- What a status of the unit itself leaves, by the event that it gives rise to. -/
theorem Kept.own (h : Kept unit (status :: rest) seen opened dismissed latest)
    (hunit : status.unit = unit) (he : Told seen status event) :
    Kept unit rest (some (status.seen now))
      (if status.healthy then opened && seen.map (·.healthy) != some false
        else opened || seen.map (·.healthy) != some false)
      (dismissed && !speaks event.toList unit) (some status.healthy) := by
  have hagrees : ∀ s, some (status.seen now) = some s → some status.healthy = some s.healthy := by
    intro s hs
    rw [← Option.some.inj hs,seen_healthy]
  have hrecalled : ∀ P : Prop, some (status.seen now) = none → P := fun P hs => by cases hs
  cases he with
  | alarmed hh hseen _ _ =>
    rw [hh,if_neg Bool.false_ne_true]
    have htrue : (seen.map (·.healthy) != some false) = true := bne_iff_ne.mpr hseen
    refine ⟨hh ▸ hagrees,fun _ => Or.inl ?_,fun hl => ?_,fun hs => hrecalled _ hs⟩
    · rw [htrue,Bool.or_true]
    · cases hl
  | stillUnhealthy hh hseen =>
    rw [hh,if_neg Bool.false_ne_true,hseen,bne_self_eq_false,Bool.or_false]
    refine ⟨hh ▸ hagrees,fun _ => ?_,fun hl => ?_,fun hs => hrecalled _ hs⟩
    · obtain ⟨s,hs,hsh⟩ := Option.map_eq_some_iff.mp hseen
      have hl := h.agrees s hs
      rw [hsh] at hl
      simpa [speaks] using h.raised hl
    · cases hl
  | restored hh hseen _ _ =>
    rw [hh,if_pos rfl,hseen,bne_self_eq_false,Bool.and_false]
    refine ⟨hh ▸ hagrees,fun hl => ?_,fun _ ho => ?_,fun hs => hrecalled _ hs⟩
    · cases hl
    · cases ho
  | restarted hh hseen _ _ =>
    have hne : seen.map (·.healthy) ≠ some false := by
      rw [hseen]
      decide
    rw [hh,if_pos rfl]
    refine ⟨hh ▸ hagrees,fun hl => ?_,fun _ ho => ?_,fun hs => hrecalled _ hs⟩
    · cases hl
    · rw [Bool.and_eq_true] at ho
      exact h.due hunit hh hne ho.1
  | quiet hh hne =>
    rw [hh,if_pos rfl]
    refine ⟨hh ▸ hagrees,fun hl => ?_,fun _ ho => ?_,fun hs => hrecalled _ hs⟩
    · cases hl
    · rw [Bool.and_eq_true] at ho
      exact h.due hunit hh hne ho.1

/-- What the event of a status leaves open on the thread of a unit. -/
theorem openOn_told (he : Told seen status event) (unit : String) :
    openOn (emitAll repeatMinutes now rows event.toList).2 (unitThread unit) =
      if status.unit = unit then
        if status.healthy then
          openOn rows (unitThread unit) && seen.map (·.healthy) != some false
        else openOn rows (unitThread unit) || seen.map (·.healthy) != some false
      else openOn rows (unitThread unit) := by
  have hthread : status.unit ≠ unit → (unitThread unit == unitThread status.unit) = false :=
    fun hne => beq_eq_false_iff_ne.mpr fun h => hne (unitThread_injective h).symm
  cases he with
  | @alarmed event hh hseen hs hkey =>
    have hopen : openOn (emitSync repeatMinutes now rows event).2 (unitThread unit) =
        (openOn rows (unitThread unit) || unitThread unit == unitThread status.unit) :=
      openOn_announced hs hkey (unitThread_ne_empty status.unit) (unitThread unit)
    simp only [Option.toList_some,emitAll]
    rw [hopen,hh,if_neg Bool.false_ne_true]
    by_cases hunit : status.unit = unit
    · rw [if_pos hunit,hunit,beq_self_eq_true,bne_iff_ne.mpr hseen]
    · rw [if_neg hunit,hthread hunit,Bool.or_false]
  | stillUnhealthy hh hseen =>
    simp [emitAll,hh,hseen]
  | @restored event hh hseen hs hkey =>
    have hopen : openOn (emitSync repeatMinutes now rows event).2 (unitThread unit) =
        (openOn rows (unitThread unit) && unitThread unit != unitThread status.unit) :=
      openOn_resolved hs hkey (unitThread_ne_empty status.unit) (unitThread unit)
    simp only [Option.toList_some,emitAll]
    rw [hopen,hh,if_pos rfl,hseen]
    by_cases hunit : status.unit = unit
    · rw [if_pos hunit,hunit,bne_self_eq_false,bne_self_eq_false]
    · rw [if_neg hunit,bne,hthread hunit,Bool.not_false,Bool.and_true]
  | @restarted event hh hseen hs hkey =>
    have hopen : openOn (emitSync repeatMinutes now rows event).2 (unitThread unit) =
        (openOn rows (unitThread unit) || unitThread unit == restartThread status.unit) :=
      openOn_announced hs hkey (restartThread_ne_empty status.unit) (unitThread unit)
    have hbeq : (unitThread unit == restartThread status.unit) = false :=
      beq_eq_false_iff_ne.mpr (unitThread_ne_restartThread unit status.unit)
    simp only [Option.toList_some,emitAll]
    rw [hopen,hbeq,hh,hseen]
    simp
  | quiet hh hseen =>
    have hbne : (seen.map (·.healthy) != some false) = true := bne_iff_ne.mpr hseen
    simp [emitAll,hh,hbne]

theorem speaks_other (he : Told seen status event) (hunit : status.unit ≠ unit) :
    speaks event.toList unit = false := by
  have hthread : ∀ {e : NotificationEvent}, e.threadKey = some (unitThread status.unit) →
      speaks [e] unit = false := by
    intro e hkey
    have hne : unitThread status.unit ≠ unitThread unit := fun h => hunit (unitThread_injective h)
    simp [speaks,hkey,hne]
  cases he with
  | alarmed _ _ _ hkey => exact hthread hkey
  | stillUnhealthy => rfl
  | restored _ _ _ hkey => exact hthread hkey
  | restarted _ _ _ hkey =>
    have hne := (unitThread_ne_restartThread unit status.unit).symm
    simp [speaks,hkey,hne]
  | quiet => rfl

/-- The statuses of a pass, one after the other. -/
theorem observe_kept (statuses : List UnitStatus) : ∀ {units : String → Option Seen}
    {rows : List NotificationRow} {dismissed : Bool} {latest : String → Option Bool},
    Kept unit statuses (units unit) (openOn rows (unitThread unit)) dismissed (latest unit) →
    Kept unit [] ((observe now units statuses).1 unit)
      (openOn (emitAll repeatMinutes now rows (observe now units statuses).2).2 (unitThread unit))
      (dismissed && !speaks (observe now units statuses).2 unit)
      (lastObserved latest statuses unit) := by
  induction statuses with
  | nil =>
    intro units rows dismissed latest h
    simpa [observe,emitAll,speaks,lastObserved] using h
  | cons status statuses ih =>
    intro units rows dismissed latest h
    have he := told_statusEvent (units status.unit) status
    have hnext : Kept unit statuses (Function.update units status.unit (some (status.seen now)) unit)
        (openOn (emitAll repeatMinutes now rows
          (statusEvent (units status.unit) status).toList).2 (unitThread unit))
        (dismissed && !speaks (statusEvent (units status.unit) status).toList unit)
        (Function.update latest status.unit (some status.healthy) unit) := by
      rw [openOn_told he]
      by_cases hunit : status.unit = unit
      · rw [if_pos hunit,hunit,Function.update_self,Function.update_self]
        rw [hunit] at he
        exact h.own hunit he
      · rw [if_neg hunit,Function.update_of_ne (Ne.symm hunit),
          Function.update_of_ne (Ne.symm hunit),speaks_other he hunit,Bool.not_false,Bool.and_true]
        exact h.other hunit
    have hlast := ih hnext
    have hspeaks : ∀ events events', speaks (events ++ events') unit =
        (speaks events unit || speaks events' unit) := fun _ _ => List.any_append
    simp only [observe]
    rw [emitAll_append,hspeaks,Bool.not_or,← Bool.and_assoc]
    exact hlast

end

namespace UnitsWatch

variable {w : UnitsWatch}

/-- What holds of the monitor between two steps. -/
structure Inv (w : UnitsWatch) : Prop extends Sound w where
  agrees : ∀ unit seen, w.state.units unit = some seen → w.latest unit = some seen.healthy

theorem inv_pass (h : w.Inv) {m : ℕ} {now : Instant} {units : List String}
    {statuses : List UnitStatus} (hok : w.Recalls (.pass m now units statuses)) :
    (w.step (.pass m now units statuses)).Inv := by
  by_cases hunits : units = []
  · have hread : read units statuses = [] := if_pos hunits
    simp only [step,unitsMonitorOnce,if_pos hunits,hread]
    refine ⟨⟨h.closed,fun unit hl => ?_⟩,h.agrees⟩
    simpa [applyStatuses,observe,speaks,alarm] using h.raised unit hl
  · have hread : read units statuses = statuses := if_neg hunits
    have hkept : ∀ unit, Kept unit [] ((observe now w.state.units statuses).1 unit)
        (openOn (emitAll m now w.rows (observe now w.state.units statuses).2).2 (unitThread unit))
        (w.dismissed unit && !speaks (observe now w.state.units statuses).2 unit)
        (lastObserved w.latest statuses unit) := by
      intro unit
      refine observe_kept statuses ⟨h.agrees unit,h.raised unit,fun hl ho => ?_,fun hs ho hin => ?_⟩
      · have hshut : openOn w.rows (unitThread unit) = false := h.closed unit hl
        rw [hshut] at ho
        cases ho
      · obtain ⟨status,hmem,hunit⟩ := hin
        have hailing := hok hunits status hmem
        rw [hunit] at hailing
        exact hailing hs ho
    simp only [step,unitsMonitorOnce,if_neg hunits,hread,applyStatuses]
    refine ⟨⟨fun unit hl => ?_,fun unit => (hkept unit).raised⟩,fun unit seen hs => ?_⟩
    · by_contra ho
      obtain ⟨_,hmem,_⟩ := (hkept unit).closed hl (Bool.not_eq_false _ |>.mp ho)
      exact absurd hmem List.not_mem_nil
    · simp only at hs
      split at hs
      · exact (hkept unit).agrees seen hs
      · cases hs

theorem inv_resolve (h : w.Inv) (id : ℕ) (now : Instant) : (w.step (.resolve id now)).Inv := by
  simp only [step]
  cases hrows : resolveNotification w.rows id now with
  | error _ => exact h
  | ok rows =>
    have hopen : ∀ unit, openOn rows (unitThread unit) = (w.alarm unit &&
        (w.rows[id]?.bind (·.threadKey)) != some (unitThread unit)) :=
      fun unit => resolveNotification_ok hrows (unitThread_ne_empty unit)
    refine ⟨⟨fun unit hl => ?_,fun unit hl => ?_⟩,h.agrees⟩
    · rw [alarm,hopen,h.closed unit hl,Bool.false_and]
    · rw [alarm,hopen]
      by_cases hthread : (w.rows[id]?.bind (·.threadKey)) = some (unitThread unit)
      · simp [hthread]
      · simpa [hthread,bne] using h.raised unit hl

theorem inv_step (h : w.Inv) (a : UnitsStep) (hok : w.Recalls a) : (w.step a).Inv := by
  cases a with
  | pass m now units statuses => exact inv_pass h hok
  | resolve id now => exact inv_resolve h id now

theorem inv_start {rows : List NotificationRow} (h : Quiet rows) : (start rows).Inv :=
  ⟨⟨fun unit _ => h unit,fun _ hl => by cases hl⟩,fun _ _ hs => by cases hs⟩

/-- In a run whose passes forget no open alarm, every alarm tells what was last observed. -/
theorem unit_alarms (h : Reach step Recalls (fun w => ∃ rows, Quiet rows ∧ w = start rows) w) :
    w.Sound := by
  have hinv : w.Inv := by
    refine h.invariant (fun s hs => ?_) fun s a hs hok => inv_step hs a hok
    obtain ⟨rows,hquiet,rfl⟩ := hs
    exact inv_start hquiet
  exact hinv.toSound

/-- A unit that fails, and then works. -/
theorem unit_alarms_restored :
    (((start []).step (.pass 60 0 ["a"] [⟨"a","loaded","failed","failed","exit-code",0,"",true⟩])).step
      (.pass 60 1 ["a"] [⟨"a","loaded","active","running","success",0,"",true⟩])).Sound := by
  refine unit_alarms (.next (.next (.start ⟨[],fun _ => rfl,rfl⟩) ?_) ?_)
  · intro _ status _ _ halarm
    cases halarm
  · intro _ status hmem hnone
    rw [List.mem_singleton.mp hmem] at hnone
    exact absurd (congrArg Option.isSome hnone) (by decide +kernel)

/-- A unit that fails, leaves the watch list and is back, working: its alarm stays open. -/
theorem unit_alarm_left_open : ¬∀ as : List UnitsStep, (as.foldl step (start [])).Sound := by
  intro h
  have hsound := h [
    .pass 60 0 ["a"] [⟨"a","loaded","failed","failed","exit-code",0,"",true⟩],
    .pass 60 1 ["b"] [⟨"b","loaded","active","running","success",0,"",true⟩],
    .pass 60 2 ["a"] [⟨"a","loaded","active","running","success",0,"",true⟩]]
  have hopen := hsound.closed "a" (by decide +kernel)
  exact absurd hopen (by decide +kernel)

end UnitsWatch

end Monitors
end Atlas
