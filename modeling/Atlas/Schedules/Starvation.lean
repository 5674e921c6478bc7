import Atlas.Schedules.DuePoll

/-! Whether a poll for what is due gets to the schedules that it could queue. -/
namespace Atlas
namespace Schedules

open Actions RowTable

section

variable {s s' : Ledger} {taskId : ℕ} {now : Instant}

/-- An enabled schedule that is due and has no outstanding run. -/
def Runnable (s : Ledger) (now : Instant) (taskId : ℕ) : Prop :=
  outstanding s taskId = false ∧ ∃ task, s.schedules[taskId]? = some task ∧ task.enabled = true ∧
    task.deleted = false ∧ task.nextRunAt ≤ now

/-- No outstanding run is taken away by a further one. -/
theorem outstanding_mono {rows : List RunRow} (h : s'.runs = s.runs ++ rows)
    (hbusy : outstanding s taskId = true) : outstanding s' taskId = true := by
  simp only [outstanding,h,List.any_append] at hbusy ⊢
  rw [hbusy,Bool.true_or]

variable [ScheduleRuntime]

/-- A schedule that is idle can be queued for its time and advanced. -/
def Ready (s : Ledger) (now : Instant) (taskId : ℕ) : Prop :=
  outstanding s taskId = false → ∀ task, s.schedules[taskId]? = some task →
    taken s taskId task.nextRunAt = false ∧ (advanceBeforeRun task now).isOk = true

theorem Ready.untouched (hs : Untouched s s' taskId) : Ready s' now taskId ↔ Ready s now taskId := by
  unfold Ready
  rw [hs.busy,hs.schedule]
  simp only [hs.taken]

/-- One schedule of the poll. -/
structure Polled (s s' : Ledger) (taskId : ℕ) : Prop where
  others : ∀ i, i ≠ taskId → Untouched s s' i
  runs : ∃ rows, s'.runs = s.runs ++ rows
  busy : (s.schedules[taskId]?).isSome → outstanding s' taskId = true

theorem claimTask_polled (h : claimTask now s taskId = .ok s') :
    Ready s now taskId ∧ Polled s s' taskId := by
  rcases claimTask_ok h with ⟨rfl,hbusy⟩ | ⟨task,htask,hidle,hfired⟩
  · refine ⟨fun hidle task htask => ?_,fun i _ => Untouched.refl _ i,⟨[],by simp⟩,fun hsome => ?_⟩
    · rw [hbusy task htask] at hidle
      cases hidle
    · obtain ⟨task,htask⟩ := Option.isSome_iff_exists.mp hsome
      exact hbusy task htask
  · obtain ⟨run,hruns,hrun,hstatus⟩ := hfired.runs
    obtain ⟨row,hrow,_⟩ := hfired.schedules
    refine ⟨fun _ x hx => ?_,fun i hi => hfired.untouched hi,⟨[run],hruns⟩,fun _ => ?_⟩
    · obtain rfl := Option.some.inj (htask.symm.trans hx)
      exact ⟨hfired.free,by rw [hrow]; rfl⟩
    · have hschedule : run.scheduleId = some taskId := congrArg Occurrence.schedule hrun
      rw [outstanding_append hruns,hschedule,hstatus]
      simp [outstandingStatuses]

theorem claimTask_ready (h : Ready s now taskId) : ∃ s', claimTask now s taskId = .ok s' := by
  unfold claimTask
  cases htask : s.schedules[taskId]? with
  | none => exact ⟨s,rfl⟩
  | some task =>
    cases hbusy : outstanding s taskId with
    | true => exact ⟨s,rfl⟩
    | false =>
      obtain ⟨hfree,hadvance⟩ := h hbusy task htask
      obtain ⟨u,hu⟩ := queueOccurrence_free task (dueSnapshot taskId task) now hfree
      cases hrow : advanceBeforeRun task now with
      | error e =>
        rw [hrow] at hadvance
        cases hadvance
      | ok row =>
        refine ⟨u.setSchedule taskId fun _ => {row with lastStatus := some .queued},?_⟩
        simp [hu,advanceTask,hrow,bind,Except.bind,Except.map]

/-- The poll goes through its schedules exactly if each of them that is idle can be queued. -/
theorem claimTasks_ready {l : List ℕ} (hl : l.Nodup) :
    (∃ s', l.foldlM (claimTask now) s = .ok s') ↔ ∀ id ∈ l, Ready s now id := by
  induction l generalizing s with
  | nil => exact ⟨fun _ id hid => absurd hid List.not_mem_nil,fun _ => ⟨s,rfl⟩⟩
  | cons id l ih =>
    rw [List.nodup_cons] at hl
    have hrest : ∀ {u}, claimTask now s id = .ok u →
        ((∀ i ∈ l, Ready u now i) ↔ ∀ i ∈ l, Ready s now i) := by
      intro u hu
      refine forall₂_congr fun i hi => Ready.untouched ((claimTask_polled hu).2.others i ?_)
      rintro rfl
      exact hl.1 hi
    constructor
    · rintro ⟨s',hs'⟩
      rw [List.foldlM_cons] at hs'
      obtain ⟨u,hu,hs'⟩ := accepted hs'
      have hready := (hrest hu).mp ((ih hl.2).mp ⟨s',hs'⟩)
      exact List.forall_mem_cons.mpr ⟨(claimTask_polled hu).1,hready⟩
    · intro h
      obtain ⟨hid,hready⟩ := List.forall_mem_cons.mp h
      obtain ⟨u,hu⟩ := claimTask_ready hid
      obtain ⟨s',hs'⟩ := (ih hl.2).mpr ((hrest hu).mpr hready)
      exact ⟨s',by rw [List.foldlM_cons,hu]; exact hs'⟩

/-- After the poll each of its schedules has an outstanding run, and the others are as before. -/
theorem claimTasks_polled {l : List ℕ} (hl : l.Nodup)
    (h : l.foldlM (claimTask now) s = .ok s') :
    (∃ rows, s'.runs = s.runs ++ rows) ∧ (∀ i, i ∉ l → Untouched s s' i) ∧
      ∀ id ∈ l, (s.schedules[id]?).isSome → outstanding s' id = true := by
  induction l generalizing s with
  | nil =>
    obtain rfl := Except.ok.inj h
    exact ⟨⟨[],by simp⟩,fun i _ => Untouched.refl _ i,fun id hid => absurd hid List.not_mem_nil⟩
  | cons id l ih =>
    rw [List.nodup_cons] at hl
    rw [List.foldlM_cons] at h
    obtain ⟨u,hu,h⟩ := accepted h
    obtain ⟨_,hpolled⟩ := claimTask_polled hu
    obtain ⟨⟨later,hlater⟩,hothers,hbusy⟩ := ih hl.2 h
    refine ⟨?_,fun i hi => ?_,fun i hi hsome => ?_⟩
    · obtain ⟨rows,hrows⟩ := hpolled.runs
      exact ⟨rows ++ later,by rw [hlater,hrows,List.append_assoc]⟩
    · rw [List.mem_cons,not_or] at hi
      exact (hpolled.others i hi.1).trans (hothers i hi.2)
    · rcases List.mem_cons.mp hi with rfl | hin
      · exact outstanding_mono hlater (hpolled.busy hsome)
      · refine hbusy i hin ?_
        have hne : i ≠ id := by
          rintro rfl
          exact hl.1 hin
        rw [(hpolled.others i hne).schedule]
        exact hsome

/-- A poll for what is due queues a run for a schedule that is runnable. -/
def QueuesOne (s : Ledger) (locked : ℕ → Bool) (now : Instant) : Prop :=
  ∃ s', claimDue s locked now = .ok s' ∧
    ∃ id, Runnable s now id ∧ outstanding s' id = true

omit [ScheduleRuntime] in
theorem mem_dueTasks {locked : ℕ → Bool} {id : ℕ} (h : id ∈ dueTasks s locked now) :
    ∃ task, s.schedules[id]? = some task ∧ task.enabled = true ∧ task.deleted = false ∧
      task.nextRunAt ≤ now := by
  have hmem := List.mem_of_mem_take h
  rw [List.mem_insertionSort,List.mem_filter,mem_ids] at hmem
  obtain ⟨⟨task,htask,hp⟩,_⟩ := hmem
  simp only [Bool.and_eq_true,Bool.not_eq_true',decide_eq_true_eq] at hp
  exact ⟨task,htask,hp.1.1,hp.1.2,hp.2⟩

/-- Where a schedule is runnable, the poll queues a runnable one if and only if one of the ten that
have been due longest, of those that no other transaction holds, has no outstanding run, and each
of those ten that has none can be queued for its time and advanced. -/
theorem due_not_starved (s : Ledger) (locked : ℕ → Bool) (now : Instant) :
    ((∃ id, Runnable s now id) → QueuesOne s locked now) ↔
      ((∃ id, Runnable s now id) →
        (∃ id ∈ dueTasks s locked now, outstanding s id = false) ∧
          ∀ id ∈ dueTasks s locked now, Ready s now id) := by
  refine imp_congr_right fun _ => ⟨?_,?_⟩
  · rintro ⟨s',hs',id,hid,hbusy⟩
    have hnodup := nodup_dueTasks s locked now
    obtain ⟨_,hothers,_⟩ := claimTasks_polled hnodup hs'
    refine ⟨⟨id,?_,hid.1⟩,(claimTasks_ready hnodup).mp ⟨s',hs'⟩⟩
    by_contra hout
    rw [(hothers id hout).busy,hid.1] at hbusy
    cases hbusy
  · rintro ⟨⟨id,hid,hidle⟩,hready⟩
    have hnodup := nodup_dueTasks s locked now
    obtain ⟨s',hs'⟩ := (claimTasks_ready hnodup).mpr hready
    obtain ⟨task,htask,hdue⟩ := mem_dueTasks hid
    obtain ⟨_,_,hbusy⟩ := claimTasks_polled hnodup hs'
    exact ⟨s',hs',id,⟨hidle,task,htask,hdue⟩,hbusy id hid (by rw [htask]; rfl)⟩

end

/-- A schedule for every minute. -/
def everyMinute : Dict := [
  ("prompt",.str "Look at the mail."),
  ("schedule_kind",.str "interval"),
  ("schedule_value",.str "1"),
  ("timezone",.str "UTC")]

/-- Ten schedules whose runs wait in the queue while an eleventh falls due. -/
def crowdedOut : List (WatchStep × ℕ) :=
  List.replicate 10 (WatchStep.create everyMinute,0) ++
    [(WatchStep.claimDue [],seconds 60),(WatchStep.create everyMinute,seconds 60)]

/-- The ten fill the poll, and the eleventh is not queued. -/
theorem due_starved : letI := plainSchedules
    ∃ m : Watch, Trace.Reach (Watch.step "UTC") (fun _ _ => True) (· = {}) m ∧
      Runnable m.ledger (m.later (.claimDue [],seconds 60)) 10 ∧
      ¬QueuesOne m.ledger (m.passedBy []) (m.later (.claimDue [],seconds 60)) := by
  let := plainSchedules
  have hinit : Trace.Reach (Watch.step "UTC") (fun _ _ => True) (· = {}) {} := .start rfl
  have hdue : ((crowdedOut.foldl (Watch.step "UTC") {}).ledger.schedules[10]?).any
      (fun t => t.enabled && !t.deleted && decide (t.nextRunAt ≤
        (crowdedOut.foldl (Watch.step "UTC") {}).later (.claimDue [],seconds 60))) = true := by
    decide +kernel
  have hbatch : (dueTasks (crowdedOut.foldl (Watch.step "UTC") {}).ledger
      ((crowdedOut.foldl (Watch.step "UTC") {}).passedBy [])
      ((crowdedOut.foldl (Watch.step "UTC") {}).later (.claimDue [],seconds 60))).all
        (outstanding (crowdedOut.foldl (Watch.step "UTC") {}).ledger) = true := by
    decide +kernel
  refine ⟨_,hinit.steps crowdedOut,⟨by decide +kernel,?_⟩,fun hq => ?_⟩
  · obtain ⟨task,htask,hp⟩ := Option.any_eq_true _ _ |>.mp hdue
    simp only [Bool.and_eq_true,Bool.not_eq_true',decide_eq_true_eq] at hp
    exact ⟨task,htask,hp.1.1,hp.1.2,hp.2⟩
  obtain ⟨s',hs',id,hid,hbusy⟩ := hq
  obtain ⟨_,hothers,_⟩ := claimTasks_polled (nodup_dueTasks _ _ _) hs'
  by_cases hin : id ∈ dueTasks (crowdedOut.foldl (Watch.step "UTC") {}).ledger
      ((crowdedOut.foldl (Watch.step "UTC") {}).passedBy [])
      ((crowdedOut.foldl (Watch.step "UTC") {}).later (.claimDue [],seconds 60))
  · exact absurd (List.all_eq_true.mp hbatch id hin) (by rw [hid.1]; decide)
  · rw [(hothers id hin).busy,hid.1] at hbusy
    cases hbusy

end Schedules
end Atlas
