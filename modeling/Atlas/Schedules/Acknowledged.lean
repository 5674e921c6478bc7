import Atlas.Schedules.Starvation
import Atlas.Actions.Doubts

/-! Whether a schedule goes on once the owner has acknowledged what its runs left in doubt. -/
namespace Atlas
namespace Schedules

open Actions Notifications RowTable

section

variable {s s' u : Ledger} {taskId : ℕ} {now : Instant}

/-- Whether an action belongs to a run of a schedule. -/
def ofSchedule (s : Ledger) (taskId : ℕ) (a : ActionRow) : Bool :=
  (s.runs[a.runId]?).any fun run => run.scheduleId == some taskId

/-- A schedule whose doubts the owner has acknowledged, with no run that waits or works. -/
structure AtRest (s : Ledger) (taskId : ℕ) : Prop where
  acknowledged : ∀ a ∈ s.actions, a.status = .uncertain → ofSchedule s taskId a = true →
    Dict.holds a.evidence "owner_acknowledged_at" = true
  idle : ∀ run ∈ s.runs, run.scheduleId = some taskId →
    run.status ∉ [RunStatus.queued,.running,.waitingForOwner]

/-- An action of a run of a schedule is in doubt. -/
def Unsure (s : Ledger) (taskId : ℕ) : Prop :=
  ∃ a ∈ s.actions, a.status = .uncertain ∧ ofSchedule s taskId a = true

/-- Runs put into the queue, and nothing done to an action. -/
structure Queueing (s s' : Ledger) : Prop where
  actions : s'.actions = s.actions
  runs : ∃ rows : List RunRow, s'.runs = s.runs ++ rows ∧ ∀ row ∈ rows, row.status = .queued

theorem Queueing.refl (s : Ledger) : Queueing s s :=
  ⟨rfl,[],(List.append_nil _).symm,fun _ hrow => absurd hrow List.not_mem_nil⟩

theorem Queueing.trans (h : Queueing s u) (h' : Queueing u s') : Queueing s s' := by
  obtain ⟨rows,hrows,hqueued⟩ := h.runs
  obtain ⟨rows',hrows',hqueued'⟩ := h'.runs
  refine ⟨h'.actions.trans h.actions,rows ++ rows',?_,fun row hrow => ?_⟩
  · rw [hrows',hrows,List.append_assoc]
  · rcases List.mem_append.mp hrow with hrow | hrow
    · exact hqueued row hrow
    · exact hqueued' row hrow

/-- What the runs of a ledger keep of the doubts about their actions. -/
structure Sound (s : Ledger) : Prop where
  doubts : ∀ i, s.InDoubt i
  linked : s.Linked

theorem Sound.queueing (h : Sound s) (hq : Queueing s s') : Sound s' := by
  obtain ⟨rows,hrows,hqueued⟩ := hq.runs
  refine ⟨Ledger.addRuns_inDoubt h.doubts h.linked (fun row hrow => ?_) hrows hq.actions,?_⟩
  · rw [hqueued row hrow]
    decide
  · intro a ha
    rw [hq.actions] at ha
    rw [hrows,List.length_append]
    exact Nat.lt_of_lt_of_le (h.linked a ha) (Nat.le_add_right _ _)

theorem Sound.same (h : Sound s) (hruns : s'.runs = s.runs) (hactions : s'.actions = s.actions) :
    Sound s' :=
  h.queueing ⟨hactions,[],by rw [hruns,List.append_nil],fun _ hrow => absurd hrow List.not_mem_nil⟩

/-- A schedule at rest counts as outstanding exactly if an action of its runs is in doubt. -/
theorem outstanding_iff_unsure (h : Sound s) (hrest : AtRest s taskId) :
    outstanding s taskId = true ↔ Unsure s taskId := by
  rw [outstanding,List.any_eq_true]
  constructor
  · rintro ⟨run,hrun,hbusy⟩
    simp only [Bool.and_eq_true,beq_iff_eq,outstandingStatuses,List.contains_eq_mem,
      decide_eq_true_eq] at hbusy
    obtain ⟨i,hi⟩ := List.mem_iff_getElem?.mp hrun
    have hidle := hrest.idle run hrun hbusy.1
    have hstatus : run.status = .uncertain := by
      simp only [List.mem_cons,List.not_mem_nil,or_false,not_or] at hbusy hidle
      tauto
    obtain ⟨j,a,hj,hrunId,hu⟩ := Ledger.doubtful_iff.mp ((h.doubts i run hi).1 hstatus)
    refine ⟨a,List.mem_of_getElem? hj,hu,?_⟩
    rw [ofSchedule,hrunId,hi]
    simp [hbusy.1]
  · rintro ⟨a,ha,hu,hof⟩
    obtain ⟨run,hrun,hschedule⟩ := (Option.any_eq_true _ _).mp hof
    rw [beq_iff_eq] at hschedule
    obtain ⟨j,hj⟩ := List.mem_iff_getElem?.mp ha
    have hdoubt : s.Doubtful a.runId := Ledger.doubtful_iff.mpr ⟨j,a,hj,rfl,hu⟩
    have hmem := List.mem_of_getElem? hrun
    have hidle := hrest.idle run hmem hschedule
    refine ⟨run,hmem,?_⟩
    rcases (h.doubts _ run hrun).2 hdoubt with hs | hs
    · simp [hschedule,hs,outstandingStatuses]
    · rw [hs] at hidle
      exact absurd (by simp) hidle

variable [ScheduleRuntime]

theorem fired_queueing {task : ScheduledTaskRow} {snapshot : Dict} {t : Instant}
    (hqueue : queueOccurrence s taskId task snapshot t now = .ok u)
    (hadvance : advanceTask u taskId task now = .ok s') : Queueing s s' := by
  obtain ⟨row,hruns,_,hstatus⟩ := (queueOccurrence_ok hqueue).runs
  obtain ⟨_,_,rfl⟩ := map_accepted hadvance
  obtain ⟨_,_,h⟩ := accepted hqueue
  obtain ⟨⟨v,id⟩,hv,h⟩ := accepted h
  obtain rfl := Except.ok.inj h
  obtain ⟨_,_,_,_,_,_,_,_,_,_,rfl,_⟩ := Ledger.queueRun_ok hv
  exact ⟨rfl,[row],hruns,fun r hr => by rw [List.mem_singleton.mp hr]; exact hstatus⟩

theorem claimTask_queueing (h : claimTask now s taskId = .ok s') : Queueing s s' := by
  simp only [claimTask] at h
  split at h
  · obtain rfl := Except.ok.inj h
    exact .refl s
  · split at h
    · obtain rfl := Except.ok.inj h
      exact .refl s
    · obtain ⟨u,hu,h⟩ := accepted h
      exact fired_queueing hu h

theorem claimDue_queueing {locked : ℕ → Bool} (h : claimDue s locked now = .ok s') :
    Queueing s s' := by
  have hfold : ∀ (l : List ℕ) {s s' : Ledger}, l.foldlM (claimTask now) s = .ok s' →
      Queueing s s' := by
    intro l
    induction l with
    | nil =>
      intro s s' h
      obtain rfl := Except.ok.inj h
      exact .refl s
    | cons id l ih =>
      intro s s' h
      rw [List.foldlM_cons] at h
      obtain ⟨u,hu,h⟩ := accepted h
      exact (claimTask_queueing hu).trans (ih h)
  exact hfold _ h

theorem wakeTask_queueing {id : ℕ} {row : NotificationRow} {w : Waiter} {d d' : Bool}
    (h : wakeTask now id row (s,d) w = .ok (s',d')) : Queueing s s' := by
  simp only [wakeTask] at h
  split at h
  · obtain ⟨rfl,_⟩ := Prod.mk.inj (Except.ok.inj h)
    exact .refl s
  · split at h
    · obtain ⟨rfl,_⟩ := Prod.mk.inj (Except.ok.inj h)
      exact .refl s
    · obtain ⟨u,hu,h⟩ := accepted h
      obtain ⟨v,hv,h⟩ := accepted h
      obtain ⟨rfl,_⟩ := Prod.mk.inj (Except.ok.inj h)
      exact fired_queueing hu hv

/-- A notification whose run, if it has one, is of the table. -/
def Rooted (s : Ledger) (row : NotificationRow) : Prop := row.runId.all (· < s.runs.length) = true

omit [ScheduleRuntime] in
theorem Queueing.rooted (h : Queueing s s') {row : NotificationRow} (hr : Rooted s row) :
    Rooted s' row := by
  obtain ⟨rows,hrows,_⟩ := h.runs
  simp only [Rooted,hrows,List.length_append,Option.all_eq_true,decide_eq_true_eq] at hr ⊢
  intro runId hrunId
  have hlt := hr runId hrunId
  omega

omit [ScheduleRuntime] in
theorem Queueing.busy (h : Queueing s s') (hbusy : outstanding s taskId = true) :
    outstanding s' taskId = true := by
  obtain ⟨rows,hrows,_⟩ := h.runs
  exact outstanding_mono hrows hbusy

/-- What wakes a schedule still wakes it when runs have been queued. -/
theorem Queueing.wakes (h : Queueing s s') {w : Waiter} {id : ℕ} {row : NotificationRow}
    (hr : Rooted s row) : w.wakes s' id row = w.wakes s id row := by
  obtain ⟨rows,hrows,_⟩ := h.runs
  have hown : ownEvent s' w.taskId row = ownEvent s w.taskId row := by
    simp only [ownEvent]
    cases hrun : row.runId with
    | none => rfl
    | some runId =>
      rw [Rooted,hrun,Option.all_some,decide_eq_true_eq] at hr
      simp only [Option.bind_some,hrows,List.getElem?_append_left hr]
  rw [Waiter.wakes,Waiter.wakes,hown]

/-- After the schedules of a round each that the notification wakes has an outstanding run. -/
theorem wakeTasks_busy {id : ℕ} {row : NotificationRow} (ws : List Waiter) :
    ∀ {s s' : Ledger} {d d' : Bool}, ws.foldlM (wakeTask now id row) (s,d) = .ok (s',d') →
      Queueing s s' ∧ (Rooted s row → ∀ w ∈ ws, w.wakes s id row = true →
        outstanding s' w.taskId = true) := by
  induction ws with
  | nil =>
    intro s s' d d' h
    obtain ⟨rfl,_⟩ := Prod.mk.inj (Except.ok.inj h)
    exact ⟨.refl s,fun _ w hw => absurd hw List.not_mem_nil⟩
  | cons w ws ih =>
    intro s s' d d' h
    rw [List.foldlM_cons] at h
    obtain ⟨⟨u,e⟩,hu,h⟩ := accepted h
    obtain ⟨hlater,hbusy⟩ := ih h
    have hfirst := wakeTask_queueing hu
    refine ⟨hfirst.trans hlater,fun hr x hx hwakes => ?_⟩
    rcases List.mem_cons.mp hx with rfl | hx
    · refine hlater.busy ?_
      rcases wakeTask_ok hu with ⟨hnot,_⟩ | ⟨_,hheld,rfl,_⟩ | ⟨_,_,_,t,_,_,hfired⟩
      · rw [hnot] at hwakes
        cases hwakes
      · exact hheld
      · obtain ⟨run,hruns,hrun,hstatus⟩ := hfired.runs
        have hschedule : run.scheduleId = some x.taskId := congrArg Occurrence.schedule hrun
        rw [outstanding_append hruns,hschedule,hstatus]
        simp [outstandingStatuses]
    · exact hbusy (hfirst.rooted hr) x hx (by rw [hfirst.wakes hr]; exact hwakes)

/-- After the notifications of a poll each schedule that one of them wakes has an outstanding
run. -/
theorem wakeNotifications_busy {ws : List Waiter} {started : Instant} (l : List ℕ) :
    ∀ {s s' : Ledger} {rows rows' : List NotificationRow}, l.Nodup →
      l.foldlM (wakeNotification ws started now) (s,rows) = .ok (s',rows') →
      Queueing s s' ∧ ∀ id ∈ l, ∀ row, rows[id]? = some row → Rooted s row →
        ∀ w ∈ ws, w.wakes s id row = true → outstanding s' w.taskId = true := by
  induction l with
  | nil =>
    intro s s' rows rows' _ h
    obtain ⟨rfl,_⟩ := Prod.mk.inj (Except.ok.inj h)
    exact ⟨.refl s,fun id hid => absurd hid List.not_mem_nil⟩
  | cons id l ih =>
    intro s s' rows rows' hnodup h
    rw [List.nodup_cons] at hnodup
    rw [List.foldlM_cons] at h
    obtain ⟨⟨u,next⟩,hu,h⟩ := accepted h
    obtain ⟨hlater,hbusy⟩ := ih hnodup.2 h
    have hfirst : Queueing s u := by
      rcases wakeNotification_ok hu with ⟨_,rfl,_⟩ | ⟨row,d,_,hfold,_⟩
      · exact .refl u
      · exact (wakeTasks_busy ws hfold).1
    refine ⟨hfirst.trans hlater,fun i hi row hrow hr w hw hwakes => ?_⟩
    rcases List.mem_cons.mp hi with rfl | hin
    · refine hlater.busy ?_
      rcases wakeNotification_ok hu with ⟨hnone,_⟩ | ⟨row',d,hrow',hfold,_⟩
      · rw [hnone] at hrow
        cases hrow
      · obtain rfl := Option.some.inj (hrow'.symm.trans hrow)
        exact (wakeTasks_busy ws hfold).2 hr w hw hwakes
    · have hne : i ≠ id := by
        rintro rfl
        exact hnodup.1 hin
      refine hbusy i hin row ?_ (hfirst.rooted hr) w hw (by rw [hfirst.wakes hr]; exact hwakes)
      rw [wakeNotification_others hu hne]
      exact hrow

theorem claimEvents_queueing {ws : List Waiter} {locked : ℕ → Bool} {started : Instant}
    {rows rows' : List NotificationRow}
    (h : claimEvents ws locked started now s rows = .ok (s',rows')) : Queueing s s' := by
  simp only [claimEvents] at h
  split at h
  · obtain ⟨rfl,_⟩ := Prod.mk.inj (Except.ok.inj h)
    exact .refl s
  · exact (wakeNotifications_busy _ (nodup_pendingWakes _ _ _) h).1

/-- A schedule that the polls go on with: it has no outstanding run, a poll for what is due that
gets to it queues one for it, and so does a poll for events with a notification that wakes it. -/
structure Released (s : Ledger) (taskId : ℕ) : Prop where
  idle : outstanding s taskId = false
  due : ∀ (locked : ℕ → Bool) (now : Instant) (s' : Ledger), claimDue s locked now = .ok s' →
    taskId ∈ dueTasks s locked now → outstanding s' taskId = true
  event : ∀ (ws : List Waiter) (locked : ℕ → Bool) (started now : Instant)
    (rows : List NotificationRow) (s' : Ledger) (rows' : List NotificationRow),
    claimEvents ws locked started now s rows = .ok (s',rows') →
    ∀ w ∈ ws, w.taskId = taskId →
    ∀ id ∈ pendingWakes (expireWakes started rows) locked started,
    ∀ row, (expireWakes started rows)[id]? = some row → Rooted s row →
      w.wakes s id row = true → outstanding s' taskId = true

theorem released_of_idle (h : outstanding s taskId = false) : Released s taskId where
  idle := h
  due := by
    intro locked now s' hs' hdue
    obtain ⟨task,htask,_⟩ := mem_dueTasks hdue
    obtain ⟨_,_,hbusy⟩ := claimTasks_polled (nodup_dueTasks s locked now) hs'
    exact hbusy taskId hdue (by rw [htask]; rfl)
  event := by
    rintro ws locked started now rows s' rows' hs' w hw rfl id hid row hrow hr hwakes
    simp only [claimEvents] at hs'
    split at hs'
    · next hempty =>
      rw [List.isEmpty_iff.mp hempty] at hw
      cases hw
    · exact (wakeNotifications_busy _ (nodup_pendingWakes _ _ _) hs').2 id hid row hrow hr w hw hwakes

namespace Watch

variable {m : Watch}

theorem request_actions {arguments : Dict} {result : Except Refusal Ledger}
    (h : ∀ s, result = .ok s → s.actions = m.ledger.actions) :
    (m.request arguments result).ledger.actions = m.ledger.actions := by
  simp only [request]
  split
  · rfl
  · split
    · rfl
    · next s => exact h s rfl

theorem sound_step {ownerTimezone : String} (h : Sound m.ledger) (e : WatchStep × ℕ) :
    Sound (m.step ownerTimezone e).ledger := by
  obtain ⟨a,later⟩ := e
  simp only [step]
  cases a with
  | work op =>
    simp only [act]
    split
    · exact h
    · exact ⟨Ledger.step_inDoubt h.doubts h.linked _,h.linked.step _⟩
  | create arguments =>
    simp only [act]
    split
    · exact h
    · next s hs =>
      refine h.same (create_runs hs) ?_
      obtain ⟨row,_,hs⟩ := accepted hs
      rw [← Except.ok.inj hs]
  | lock taskId =>
    simp only [act]
    split
    · exact h
    · exact h
  | unlock taskId => exact h
  | update arguments =>
    refine h.same (request_runs fun s hs => update_runs hs) (request_actions fun s hs => ?_)
    obtain ⟨⟨id,row⟩,_,hs⟩ := accepted hs
    obtain ⟨row',_,hs⟩ := accepted hs
    rw [← Except.ok.inj hs]
    rfl
  | delete arguments =>
    refine h.same (request_runs fun s hs => delete_runs hs) (request_actions fun s hs => ?_)
    obtain ⟨⟨id,row⟩,_,hs⟩ := accepted hs
    rw [← Except.ok.inj hs]
    rfl
  | announce row =>
    simp only [act]
    split
    · exact h
    · exact h
  | amend id change => exact h
  | claimDue skipped =>
    simp only [act]
    split
    · exact h
    · next s hs => exact h.queueing (claimDue_queueing hs)
  | select => exact h
  | wake poll skipped =>
    simp only [act]
    split
    · exact h
    · split
      · exact h
      · next hs => exact h.queueing (claimEvents_queueing hs)
  | rollback poll => exact h

end Watch

/-- Once the owner has acknowledged every doubt that the runs of a schedule left, and none of them
waits or works, the polls go on with the schedule exactly if there was no doubt. -/
theorem released_iff {ownerTimezone : String} {m : Watch}
    (h : Trace.Reach (Watch.step ownerTimezone) (fun _ _ => True) (· = {}) m) {taskId : ℕ}
    (hrest : AtRest m.ledger taskId) :
    Released m.ledger taskId ↔ ¬Unsure m.ledger taskId := by
  have hsound : Sound m.ledger := by
    refine h.invariant (I := fun m => Sound m.ledger) (fun m hm => ?_)
      fun m e hm _ => Watch.sound_step hm e
    subst hm
    exact ⟨fun i run hrun => (by simp at hrun),fun a ha => (by cases ha)⟩
  rw [← outstanding_iff_unsure hsound hrest,Bool.not_eq_true]
  exact ⟨fun hr => hr.idle,released_of_idle⟩

end

/-- A run that succeeds. -/
def quietRun : List (WatchStep × ℕ) := [
  (.create everyMinute,0),
  (.claimDue [],seconds 60),
  (.work (.startRun 0),0),
  (.work (.finishRun 0 true),0)]

/-- A run whose action the owner acknowledges, as its outcome is not known. -/
def acknowledgedRun : List (WatchStep × ℕ) := [
  (.create everyMinute,0),
  (.claimDue [],seconds 60),
  (.work (.startRun 0),0),
  (.work (.beginAutomaticExecution 0 "mail.send" [] "Send a mail" "mail"),0),
  (.work (.complete 0 .uncertain [] none),0),
  (.work (.finishRun 0 true),0),
  (.work (.acknowledgeUncertain 0),0)]

theorem released_quiet : letI := plainSchedules
    Released (quietRun.foldl (Watch.step "UTC") {}).ledger 0 := by
  let := plainSchedules
  have hinit : Trace.Reach (Watch.step "UTC") (fun _ _ => True) (· = {}) {} := .start rfl
  have hrest : AtRest (quietRun.foldl (Watch.step "UTC") {}).ledger 0 :=
    ⟨by decide +kernel,by decide +kernel⟩
  refine (released_iff (hinit.steps quietRun) hrest).mpr ?_
  simp only [Unsure]
  decide +kernel

/-- The owner has acknowledged the only doubt, and the schedule still counts as outstanding. -/
theorem acknowledged_outstanding : letI := plainSchedules
    ∃ m : Watch, Trace.Reach (Watch.step "UTC") (fun _ _ => True) (· = {}) m ∧
      AtRest m.ledger 0 ∧ outstanding m.ledger 0 = true ∧ ¬Released m.ledger 0 := by
  let := plainSchedules
  have hinit : Trace.Reach (Watch.step "UTC") (fun _ _ => True) (· = {}) {} := .start rfl
  have hbusy : outstanding (acknowledgedRun.foldl (Watch.step "UTC") {}).ledger 0 = true := by
    decide +kernel
  refine ⟨_,hinit.steps acknowledgedRun,⟨by decide +kernel,by decide +kernel⟩,hbusy,fun h => ?_⟩
  have hidle := h.idle
  rw [hbusy] at hidle
  cases hidle

end Schedules
end Atlas
