import Atlas.Schedules.RunnerSteps
import Atlas.Lib.Numerals

/-! How many runs a schedule gets for a notification. -/
namespace Atlas
namespace Schedules

open Actions Notifications RowTable Numerals

/-- Whether an occurrence is a run of a schedule for a notification. -/
def isFor (taskId id : ℕ) (x : Occurrence) : Bool :=
  x.schedule == some taskId && Dict.text x.trigger "notification_id" == some (toString id)

/-- The number of runs of a schedule for a notification. -/
def runsFor (s : Ledger) (taskId id : ℕ) : ℕ := s.occurrences.countP (isFor taskId id)

section

variable {s s' : Ledger} {row : RunRow} {taskId : ℕ}

theorem occurrences_append (h : s'.runs = s.runs ++ [row]) :
    s'.occurrences = s.occurrences ++ [row.occurrence] := by
  rw [Ledger.occurrences,h,List.map_append]
  rfl

theorem runsFor_append (h : s'.runs = s.runs ++ [row]) (taskId id : ℕ) :
    runsFor s' taskId id =
      runsFor s taskId id + if isFor taskId id row.occurrence then 1 else 0 := by
  rw [runsFor,occurrences_append h,List.countP_append,List.countP_singleton,runsFor]

theorem outstanding_append (h : s'.runs = s.runs ++ [row]) (taskId : ℕ) :
    outstanding s' taskId = (outstanding s taskId ||
      row.scheduleId == some taskId && outstandingStatuses.contains row.status) := by
  rw [outstanding,h,List.any_append,outstanding]
  simp

theorem runsFor_aside (h : Ledger.Aside s s') (i n : ℕ) : runsFor s' i n = runsFor s i n := by
  rw [runsFor,runsFor]
  rcases h.occurrences with he | he
  · rw [he]
  · rw [he,List.countP_append]
    simp [isFor]

theorem runsFor_of_runs (h : s'.runs = s.runs) (i n : ℕ) : runsFor s' i n = runsFor s i n := by
  rw [runsFor,Ledger.occurrences_of_runs h,runsFor]

end

section

variable [ScheduleRuntime] {s s' : Ledger} {ws : List Waiter} {started now : Instant}

theorem text_eventSnapshot (w : Waiter) (id : ℕ) (row : NotificationRow) (t : Instant) :
    Dict.text (eventSnapshot w id row t) "notification_id" = some (toString id) := by
  simp [eventSnapshot,Dict.text,Dict.get]

theorem text_dueSnapshot (taskId : ℕ) (task : ScheduledTaskRow) :
    Dict.text (dueSnapshot taskId task) "notification_id" = none := by
  simp [dueSnapshot,Dict.text,Dict.get]

/-- A notification that wakes a schedule now would have woken it before the last runs were made. -/
theorem Waiter.wakes_mono {w : Waiter} {rows : List RunRow} (h : s'.runs = s.runs ++ rows) {id : ℕ}
    {row : NotificationRow} (hwakes : w.wakes s' id row = true) : w.wakes s id row = true := by
  simp only [Waiter.wakes,Bool.and_eq_true,Bool.not_eq_true'] at hwakes ⊢
  refine ⟨hwakes.1,?_⟩
  have hown := hwakes.2
  simp only [ownEvent,Bool.eq_false_iff] at hown ⊢
  intro hold
  apply hown
  obtain ⟨origin,horigin,hid⟩ := (Option.any_eq_true _ _).mp hold
  obtain ⟨runId,hrun,hrow⟩ := Option.bind_eq_some_iff.mp horigin
  have hrow' : s'.runs[runId]? = some origin := by
    rw [h,List.getElem?_append_left (List.getElem?_eq_some_iff.mp hrow).1]
    exact hrow
  simp [hrun,hrow',hid]

/-- What has become of the runs since a poll began to queue. -/
structure Woken (s₀ s : Ledger) : Prop where
  grows : ∃ rows, s.runs = s₀.runs ++ rows
  idle : ∀ i, outstanding s i = false →
    outstanding s₀ i = false ∧ ∀ n, runsFor s i n = runsFor s₀ i n
  once : ∀ i n, runsFor s i n ≤ 1

/-- A schedule that a poll finds idle has no run yet for a notification that is to wake it. -/
def Fresh (s : Ledger) (w : Waiter) (id : ℕ) (row : NotificationRow) : Prop :=
  w.wakes s id row = true → runsFor s w.taskId id ≠ 0 → outstanding s w.taskId = true

theorem Woken.task {s₀ : Ledger} (h : Woken s₀ s) {id : ℕ} {row : NotificationRow} {w : Waiter}
    {d d' : Bool} (hfresh : Fresh s₀ w id row)
    (hc : wakeTask now id row (s,d) w = .ok (s',d')) : Woken s₀ s' := by
  rcases wakeTask_ok hc with ⟨_,rfl,_⟩ | ⟨_,_,rfl,_⟩ | ⟨hwakes,hidle,_,t,_,_,hfired⟩
  · exact h
  · exact h
  · obtain ⟨rows,hrows⟩ := h.grows
    obtain ⟨run,hruns,hrun,hstatus⟩ := hfired.runs
    have hschedule : run.scheduleId = some w.taskId := congrArg Occurrence.schedule hrun
    have hat : ∀ i n, runsFor s' i n =
        runsFor s i n + if i = w.taskId ∧ n = id then 1 else 0 := by
      intro i n
      rw [runsFor_append hruns,hrun]
      simp only [isFor,text_eventSnapshot,Bool.and_eq_true,beq_iff_eq,Option.some.injEq]
      congr 2
      exact propext ⟨fun ⟨hi,hn⟩ => ⟨hi.symm,(toString_injective hn).symm⟩,
        fun ⟨hi,hn⟩ => ⟨hi.symm,by rw [hn]⟩⟩
    obtain ⟨hidle₀,hsame⟩ := h.idle w.taskId hidle
    have hzero : runsFor s₀ w.taskId id = 0 := by
      by_contra hne
      rw [hfresh (Waiter.wakes_mono hrows hwakes) hne] at hidle₀
      cases hidle₀
    refine ⟨⟨rows ++ [run],by rw [hruns,hrows,List.append_assoc]⟩,fun i hi => ?_,fun i n => ?_⟩
    · rw [outstanding_append hruns,Bool.or_eq_false_iff,hschedule,hstatus] at hi
      have hne : i ≠ w.taskId := by
        rintro rfl
        simp [outstandingStatuses] at hi
      obtain ⟨hfirst,hkeep⟩ := h.idle i hi.1
      refine ⟨hfirst,fun n => ?_⟩
      rw [hat,hkeep]
      simp [hne]
    · rw [hat]
      split
      · next hin =>
        rw [hin.1,hin.2,hsame,hzero]
      · exact h.once i n

theorem Woken.tasks {s₀ : Ledger} {id : ℕ} {row : NotificationRow} (ws : List Waiter) :
    ∀ {s s' : Ledger} {d d' : Bool}, Woken s₀ s → (∀ w ∈ ws, Fresh s₀ w id row) →
    ws.foldlM (wakeTask now id row) (s,d) = .ok (s',d') → Woken s₀ s' := by
  induction ws with
  | nil =>
    intro s s' d d' h _ hc
    obtain ⟨rfl,rfl⟩ := Prod.mk.inj (Except.ok.inj hc)
    exact h
  | cons w ws ih =>
    intro s s' d d' h hfresh hc
    rw [List.foldlM_cons] at hc
    obtain ⟨⟨u,e⟩,hu,hc⟩ := accepted hc
    exact ih (h.task (hfresh w List.mem_cons_self) hu)
      (fun x hx => hfresh x (List.mem_cons_of_mem _ hx)) hc

/-- The rows that a round does not look at are as before it. -/
theorem wakeNotification_others {rows rows' : List NotificationRow} {id i : ℕ}
    (h : wakeNotification ws started now (s,rows) id = .ok (s',rows')) (hi : i ≠ id) :
    rows'[i]? = rows[i]? := by
  rcases wakeNotification_ok h with ⟨_,_,rfl⟩ | ⟨_,_,_,_,⟨_,rfl⟩ | ⟨_,rfl⟩⟩
  · rfl
  · rfl
  · exact getElem?_modify_ne _ _ (Ne.symm hi)

theorem Woken.notifications {s₀ : Ledger} (l : List ℕ) : ∀ {s s' : Ledger}
    {rows rows' : List NotificationRow}, l.Nodup → Woken s₀ s →
    (∀ id ∈ l, ∀ row, rows[id]? = some row → ∀ w ∈ ws, Fresh s₀ w id row) →
    l.foldlM (wakeNotification ws started now) (s,rows) = .ok (s',rows') → Woken s₀ s' := by
  induction l with
  | nil =>
    intro s s' rows rows' _ h _ hc
    obtain ⟨rfl,rfl⟩ := Prod.mk.inj (Except.ok.inj hc)
    exact h
  | cons id l ih =>
    intro s s' rows rows' hnodup h hfresh hc
    rw [List.nodup_cons] at hnodup
    rw [List.foldlM_cons] at hc
    obtain ⟨⟨u,next⟩,hu,hc⟩ := accepted hc
    have hnext : Woken s₀ u := by
      rcases wakeNotification_ok hu with ⟨_,rfl,_⟩ | ⟨row,d,hrow,hfold,_⟩
      · exact h
      · exact Woken.tasks ws h (hfresh id List.mem_cons_self row hrow) hfold
    refine ih hnodup.2 hnext (fun i hi row hrow => ?_) hc
    have hne : i ≠ id := by
      rintro rfl
      exact hnodup.1 hi
    rw [wakeNotification_others hu hne] at hrow
    exact hfresh i (List.mem_cons_of_mem _ hi) row hrow

/-- A poll for events that finds no run of an idle schedule for a notification to wake it. -/
theorem claimEvents_once {locked : ℕ → Bool} {rows rows' : List NotificationRow}
    (h : ∀ i n, runsFor s i n ≤ 1)
    (hfresh : ∀ w ∈ ws, ∀ id row, rows[id]? = some row → row.wakeClaimedAt = none →
      Fresh s w id row)
    (hc : claimEvents ws locked started now s rows = .ok (s',rows')) (i n : ℕ) :
    runsFor s' i n ≤ 1 := by
  have hstart : Woken s s := ⟨⟨[],by rw [List.append_nil]⟩,fun i hi => ⟨hi,fun n => rfl⟩,h⟩
  simp only [claimEvents] at hc
  split at hc
  · obtain ⟨rfl,_⟩ := Prod.mk.inj (Except.ok.inj hc)
    exact h i n
  · refine (Woken.notifications _ (nodup_pendingWakes _ _ _) hstart ?_ hc).once i n
    intro id hid row hrow w hw
    obtain ⟨old,hold,hkept,hnone⟩ := mem_pendingWakes hid
    obtain rfl := Option.some.inj (hkept.symm.trans hrow)
    exact hfresh w hw id old hold hnone

/-- What a poll for what is due makes of the runs for notifications. -/
theorem claimDue_runsFor {locked : ℕ → Bool} (hc : claimDue s locked now = .ok s') (i n : ℕ) :
    runsFor s' i n = runsFor s i n := by
  have hfold : ∀ (l : List ℕ) {s s' : Ledger}, l.foldlM (claimTask now) s = .ok s' →
      runsFor s' i n = runsFor s i n := by
    intro l
    induction l with
    | nil =>
      intro s s' h
      rw [Except.ok.inj h]
    | cons id l ih =>
      intro s s' h
      rw [List.foldlM_cons] at h
      obtain ⟨u,hu,h⟩ := accepted h
      rw [ih h]
      rcases claimTask_ok hu with ⟨rfl,_⟩ | ⟨task,_,_,hfired⟩
      · rfl
      · obtain ⟨run,hruns,hrun,_⟩ := hfired.runs
        rw [runsFor_append hruns,hrun]
        simp [isFor,text_dueSnapshot]
  exact hfold _ hc

namespace Watch

/-- A poll that finds a notification unclaimed finds every schedule that has a run for it and that
it is to wake busy. -/
def StillBusy (m : Watch) (e : WatchStep × ℕ) : Prop :=
  match e.1 with
  | .wake poll _ => ∀ p, m.polls[poll]?.join = some p → ∀ w ∈ waiters p.tasks, ∀ id row,
      m.notifications[id]? = some row → row.wakeClaimedAt = none → Fresh m.ledger w id row
  | _ => True

theorem request_runs {m : Watch} {arguments : Dict} {result : Except Refusal Ledger}
    (h : ∀ s, result = .ok s → s.runs = m.ledger.runs) :
    (m.request arguments result).ledger.runs = m.ledger.runs := by
  simp only [request]
  split
  · rfl
  · split
    · rfl
    · next s => exact h s rfl

theorem runsFor_step {ownerTimezone : String} {m : Watch} (h : ∀ i n, runsFor m.ledger i n ≤ 1)
    (e : WatchStep × ℕ) (hok : m.StillBusy e) (i n : ℕ) :
    runsFor (m.step ownerTimezone e).ledger i n ≤ 1 := by
  obtain ⟨a,later⟩ := e
  have hkept : ∀ {s : Ledger}, s.runs = m.ledger.runs → runsFor s i n ≤ 1 := by
    intro s hs
    rw [runsFor_of_runs hs]
    exact h i n
  simp only [step]
  cases a with
  | work op =>
    simp only [act]
    split
    · exact h i n
    · next hop =>
      simp only [Ledger.step]
      split
      · next s hs =>
        rw [runsFor_aside (Ledger.apply_aside (by simpa using hop) hs)]
        exact h i n
      · exact h i n
  | create arguments =>
    simp only [act]
    split
    · exact h i n
    · next s hs => exact hkept (create_runs hs)
  | lock taskId =>
    simp only [act]
    split
    · exact h i n
    · exact h i n
  | unlock taskId => exact h i n
  | update arguments => exact hkept (request_runs fun s hs => update_runs hs)
  | delete arguments => exact hkept (request_runs fun s hs => delete_runs hs)
  | announce row =>
    simp only [act]
    split
    · exact h i n
    · exact h i n
  | amend id change => exact h i n
  | claimDue skipped =>
    simp only [act]
    split
    · exact h i n
    · next s hs =>
      rw [claimDue_runsFor hs]
      exact h i n
  | select => exact h i n
  | wake poll skipped =>
    simp only [act]
    split
    · exact h i n
    · next p hp =>
      split
      · exact h i n
      · next s rows hs => exact claimEvents_once h (hok p hp) hs i n
  | rollback poll => exact h i n

end Watch

/-- Where every poll finds the schedules that have a run for an unclaimed notification still busy,
each schedule has at most one run for each notification. -/
theorem one_wake_per_event {ownerTimezone : String} {m : Watch}
    (h : Trace.Reach (Watch.step ownerTimezone) Watch.StillBusy (· = {}) m) (taskId id : ℕ) :
    runsFor m.ledger taskId id ≤ 1 := by
  have hall : ∀ i n, runsFor m.ledger i n ≤ 1 := by
    refine h.invariant (fun m hm i n => ?_) fun m e hm he => Watch.runsFor_step hm e he
    subst hm
    exact Nat.zero_le 1
  exact hall taskId id

end

/-- A runtime to evaluate the scheduler with: one filter that it can read, one time zone, and a
cron rule for every minute. -/
@[reducible] def plainSchedules : ScheduleRuntime where
  toActionRuntime := plainActions
  loads s := if s = "\x7b\"source\": \"runtime.units\"\x7d" then
    some (.obj [("source",.str "runtime.units")]) else none
  int s := some (Nat.ofDigitChars 10 s.toList 0)
  zone name := name == "UTC"
  fromLocal _ t := t
  getNext _ _ now := some ((now / seconds 60 + 1) * seconds 60)
  getNext_lt h := by
    rw [← Option.some.inj h]
    exact Nat.lt_mul_of_div_lt (Nat.lt_succ_self _) (by decide)

/-- The request for a schedule that units wake. -/
def unitsTask (title : String) : Dict := [
  ("title",.str title),
  ("prompt",.str "Look into it."),
  ("schedule_kind",.str "event"),
  ("schedule_value",.str "\x7b\"source\": \"runtime.units\"\x7d")]

/-- What the monitor tells of a unit. -/
def unitDown (createdAt : Instant) : NotificationRow where
  source := "runtime.units"
  kind := "unit.failed"
  severity := .warning
  title := "A unit is down"
  createdAt := createdAt

/-- A notification that wakes the only schedule it matches. -/
def singleWake : List (WatchStep × ℕ) := [
  (.create (unitsTask "Quick"),0),
  (.announce (unitDown 2),0),
  (.select,0),
  (.wake 0 [],0)]

theorem one_wake_per_event_single : letI := plainSchedules
    runsFor (singleWake.foldl (Watch.step "UTC") {}).ledger 0 0 = 1 := by
  let := plainSchedules
  have hnone : ((singleWake.take 3).foldl (Watch.step "UTC") {}).ledger.runs.isEmpty = true := by
    decide +kernel
  have hzero : ∀ i n, runsFor ((singleWake.take 3).foldl (Watch.step "UTC") {}).ledger i n = 0 := by
    intro i n
    rw [runsFor,Ledger.occurrences,List.isEmpty_iff.mp hnone]
    rfl
  have hall : Trace.Allowed (Watch.step "UTC") Watch.StillBusy {} singleWake :=
    ⟨trivial,trivial,trivial,fun _ _ w _ id _ _ _ _ hne => absurd (hzero w.taskId id) hne,trivial⟩
  have hinit : Trace.Reach (Watch.step "UTC") Watch.StillBusy (· = {}) {} := .start rfl
  have hle := one_wake_per_event (hinit.run hall) 0 0
  have hpos : 0 < runsFor (singleWake.foldl (Watch.step "UTC") {}).ledger 0 0 := by decide +kernel
  exact Nat.le_antisymm hle hpos

/-- A notification that matches two schedules, one of which is busy. The other has run for it by
the time of the next poll. -/
def deferredWake : List (WatchStep × ℕ) := [
  (.create (unitsTask "Slow"),0),
  (.announce (unitDown 2),0),
  (.select,0),
  (.wake 0 [],0),
  (.create (unitsTask "Quick"),0),
  (.announce (unitDown 6),0),
  (.select,0),
  (.wake 1 [],0),
  (.work (.startRun 1),0),
  (.work (.finishRun 1 true),0),
  (.select,0),
  (.wake 2 [],0)]

/-- It is then woken a second time. -/
theorem woken_twice : letI := plainSchedules
    ∃ m : Watch, Trace.Reach (Watch.step "UTC") (fun _ _ => True) (· = {}) m ∧
      runsFor m.ledger 1 1 = 2 := by
  let := plainSchedules
  have hinit : Trace.Reach (Watch.step "UTC") (fun _ _ => True) (· = {}) {} := .start rfl
  exact ⟨_,hinit.steps deferredWake,by decide +kernel⟩

end Schedules
end Atlas
