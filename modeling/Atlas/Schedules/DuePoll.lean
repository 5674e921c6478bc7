import Atlas.Schedules.NoLostWake

/-! The polls for what is due: which times the runs of a schedule have, and that a poll queues
every schedule that is due and idle. -/
namespace Atlas
namespace Schedules

open Actions Notifications RowTable

section

variable {s s' : Ledger} {i taskId : ℕ} {t now : Instant}

theorem taken_iff : taken s i t = true ↔
    ∃ x ∈ s.occurrences, x.schedule = some i ∧ x.time = some t := by
  rw [taken,List.any_eq_true,Ledger.occurrences]
  constructor
  · rintro ⟨r,hr,hrt⟩
    simp only [Bool.and_eq_true,beq_iff_eq] at hrt
    exact ⟨_,List.mem_map_of_mem hr,hrt⟩
  · rintro ⟨x,hx,hi,ht⟩
    obtain ⟨r,hr,rfl⟩ := List.mem_map.mp hx
    exact ⟨r,hr,by simpa [RunRow.occurrence] using And.intro hi ht⟩

/-- The times of the runs and of the schedules, at an instant. -/
structure Planned (s : Ledger) (now : Instant) : Prop where
  past : ∀ x ∈ s.occurrences, ∀ t, x.time = some t → t ≤ now
  known : ∀ x ∈ s.occurrences, ∀ i, x.schedule = some i → i < s.plans.length
  free : ∀ (i : ℕ) (task : ScheduledTaskRow), s.plans[i]? = some task → task.enabled = true →
    task.deleted = false → task.scheduleKind ≠ "event" → taken s i task.nextRunAt = false
  event : ∀ (i : ℕ) (task : ScheduledTaskRow), s.plans[i]? = some task →
    task.scheduleKind = "event" → task.nextRunAt = eventSentinel

theorem Planned.mono {later : Instant} (h : Planned s now) (hle : now ≤ later) :
    Planned s later :=
  ⟨fun x hx t ht => (h.past x hx t ht).trans hle,h.known,h.free,h.event⟩

/-- Nothing has run yet for a later time. -/
theorem Planned.later (h : Planned s now) (ht : now < t) (i : ℕ) : taken s i t = false := by
  rw [Bool.eq_false_iff]
  intro htaken
  obtain ⟨x,hx,_,hxt⟩ := taken_iff.mp htaken
  exact Nat.not_le.mpr ht (h.past x hx t hxt)

/-- A transaction that queues nothing and leaves the schedules alone. -/
theorem Planned.aside (h : Planned s now) (ha : Ledger.Aside s s') : Planned s' now := by
  have hmem : ∀ x ∈ s'.occurrences, x ∈ s.occurrences ∨ x = {} := by
    intro x hx
    rcases ha.occurrences with he | he
    · rw [he] at hx
      exact Or.inl hx
    · rw [he] at hx
      rcases List.mem_append.mp hx with hx | hx
      · exact Or.inl hx
      · exact Or.inr (List.mem_singleton.mp hx)
  have htaken : ∀ {i t}, taken s i t = false → taken s' i t = false := by
    intro i t hfree
    rw [Bool.eq_false_iff] at hfree ⊢
    intro htaken
    obtain ⟨x,hx,hi,ht⟩ := taken_iff.mp htaken
    rcases hmem x hx with hx | rfl
    · exact hfree (taken_iff.mpr ⟨x,hx,hi,ht⟩)
    · cases hi
  constructor
  · intro x hx t ht
    rcases hmem x hx with hx | rfl
    · exact h.past x hx t ht
    · cases ht
  · intro x hx i hi
    rw [ha.plans]
    rcases hmem x hx with hx | rfl
    · exact h.known x hx i hi
    · cases hi
  · intro i task htask hen hdel hkind
    rw [ha.plans] at htask
    exact htaken (h.free i task htask hen hdel hkind)
  · intro i task htask
    rw [ha.plans] at htask
    exact h.event i task htask

/-- A change of one schedule whose new time is free. -/
theorem Planned.set (h : Planned s now) {f : ScheduledTaskRow → ScheduledTaskRow}
    (hf : ∀ old, s.schedules[taskId]? = some old →
      ((f old).enabled = true → (f old).deleted = false → (f old).scheduleKind ≠ "event" →
        taken s taskId (f old).nextRunAt = false) ∧
      ((f old).scheduleKind = "event" → (f old).nextRunAt = eventSentinel))
    (hruns : s'.occurrences = s.occurrences)
    (hs : s'.schedules = s.schedules.modify taskId f) : Planned s' now := by
  have hlength : s'.plans.length = s.plans.length := by
    rw [Ledger.plans,Ledger.plans,hs,List.length_map,List.length_map,List.length_modify]
  have hat : ∀ {i task}, s'.plans[i]? = some task → s.plans[i]? = some task ∨
      i = taskId ∧ ∃ old, s.schedules[taskId]? = some old ∧ task = (f old).plan := by
    intro i task htask
    rw [Ledger.plans_getElem?,hs] at htask
    by_cases hi : taskId = i
    · subst hi
      rw [getElem?_modify_self] at htask
      obtain ⟨x,hx,rfl⟩ := Option.map_eq_some_iff.mp htask
      obtain ⟨old,hold,rfl⟩ := Option.map_eq_some_iff.mp hx
      exact Or.inr ⟨rfl,old,hold,rfl⟩
    · rw [getElem?_modify_ne _ _ hi,← Ledger.plans_getElem?] at htask
      exact Or.inl htask
  have htaken : ∀ i t, taken s' i t = taken s i t := by
    intro i t
    rw [Bool.eq_iff_iff,taken_iff,taken_iff,hruns]
  constructor
  · rw [hruns]
    exact h.past
  · rw [hruns,hlength]
    exact h.known
  · intro i task htask hen hdel hkind
    rw [htaken]
    rcases hat htask with hold | ⟨rfl,old,hold,rfl⟩
    · exact h.free i task hold hen hdel hkind
    · exact (hf old hold).1 hen hdel hkind
  · intro i task htask hkind
    rcases hat htask with hold | ⟨rfl,old,hold,rfl⟩
    · exact h.event i task hold hkind
    · exact (hf old hold).2 hkind

/-- A new schedule. -/
theorem Planned.add (h : Planned s now) {row : ScheduledTaskRow}
    (hevent : row.scheduleKind = "event" → row.nextRunAt = eventSentinel)
    (hruns : s'.occurrences = s.occurrences) (hs : s'.schedules = s.schedules ++ [row]) :
    Planned s' now := by
  have hplans : s'.plans = s.plans ++ [row.plan] := by
    rw [Ledger.plans,hs,List.map_append]
    rfl
  have htaken : ∀ i t, taken s' i t = taken s i t := by
    intro i t
    rw [Bool.eq_iff_iff,taken_iff,taken_iff,hruns]
  have hat : ∀ {i task}, s'.plans[i]? = some task →
      s.plans[i]? = some task ∨ i = s.plans.length ∧ task = row.plan := by
    intro i task htask
    rw [hplans,getElem?_insert] at htask
    by_cases hi : i = s.plans.length
    · rw [if_pos hi] at htask
      exact Or.inr ⟨hi,(Option.some.inj htask).symm⟩
    · rw [if_neg hi] at htask
      exact Or.inl htask
  constructor
  · rw [hruns]
    exact h.past
  · intro x hx i hi
    rw [hruns] at hx
    rw [hplans,List.length_append]
    exact Nat.lt_add_right 1 (h.known x hx i hi)
  · intro i task htask hen hdel hkind
    rw [htaken]
    rcases hat htask with hold | ⟨rfl,rfl⟩
    · exact h.free i task hold hen hdel hkind
    · rw [Bool.eq_false_iff]
      intro hbusy
      obtain ⟨x,hx,hi,_⟩ := taken_iff.mp hbusy
      exact Nat.lt_irrefl _ (h.known x hx _ hi)
  · intro i task htask hkind
    rcases hat htask with hold | ⟨rfl,rfl⟩
    · exact h.event i task hold hkind
    · exact hevent hkind

/-- The due schedules that a poll has still to look at are as it found them. -/
structure Untouched (s s' : Ledger) (taskId : ℕ) : Prop where
  schedule : s'.schedules[taskId]? = s.schedules[taskId]?
  busy : outstanding s' taskId = outstanding s taskId
  runs : (s'.occurrences.filter fun x => x.schedule == some taskId) =
    s.occurrences.filter fun x => x.schedule == some taskId

theorem Untouched.refl (s : Ledger) (taskId : ℕ) : Untouched s s taskId := ⟨rfl,rfl,rfl⟩

theorem Untouched.trans {u : Ledger} (h : Untouched s s' taskId) (h' : Untouched s' u taskId) :
    Untouched s u taskId :=
  ⟨h'.schedule.trans h.schedule,h'.busy.trans h.busy,h'.runs.trans h.runs⟩

theorem Untouched.taken (h : Untouched s s' taskId) (t : Instant) :
    Schedules.taken s' taskId t = Schedules.taken s taskId t := by
  have hiff : ∀ {s : Ledger}, Schedules.taken s taskId t = true ↔
      ∃ x ∈ s.occurrences.filter fun x => x.schedule == some taskId, x.time = some t := by
    intro s
    rw [taken_iff]
    simp only [List.mem_filter,beq_iff_eq,and_assoc]
  rw [Bool.eq_iff_iff,hiff,hiff,h.runs]

end

section

variable [ScheduleRuntime] {s s' : Ledger} {taskId : ℕ} {now : Instant}

/-- The times that `next_run` gives. -/
theorem nextRun_later {kind value timezone : String} {due : Instant}
    (h : nextRun kind value timezone now = .ok due) :
    (kind = "event" → due = eventSentinel) ∧
      (kind ≠ "once" → kind ≠ "event" → now < due) := by
  obtain ⟨_,_,h⟩ := accepted h
  split at h
  · next honce =>
    exact ⟨fun he => by rw [he] at honce; exact absurd honce (by decide),fun hne => absurd honce hne⟩
  · split at h
    · next hinterval =>
      refine ⟨fun he => by rw [he] at hinterval; exact absurd hinterval (by decide),fun _ _ => ?_⟩
      split at h
      · cases h
      · next n hint =>
        obtain ⟨_,_,h⟩ := accepted h
        rw [← Except.ok.inj h]
        have hn : 1 ≤ (max 1 n).toNat := by omega
        have hpos : 0 < seconds ((max 1 n).toNat * 60) := by
          rw [seconds]
          omega
        exact Nat.lt_add_of_pos_right hpos
    · split at h
      · next hcron =>
        refine ⟨fun he => by rw [he] at hcron; exact absurd hcron (by decide),fun _ _ => ?_⟩
        split at h
        · cases h
        · next next hnext =>
          rw [← Except.ok.inj h]
          exact ScheduleRuntime.getNext_lt hnext
      · split at h
        · next hevent =>
          obtain ⟨_,_,h⟩ := accepted h
          exact ⟨fun _ => (Except.ok.inj h).symm,fun _ hne => absurd hevent hne⟩
        · cases h

/-- A schedule that is advanced: the next time of an enabled one is later. -/
theorem advanceBeforeRun_later {task row : ScheduledTaskRow}
    (h : advanceBeforeRun task now = .ok row) :
    (row.scheduleKind = "event" → row.nextRunAt = eventSentinel) ∧
      (row.enabled = true → row.scheduleKind ≠ "event" → now < row.nextRunAt) := by
  simp only [advanceBeforeRun] at h
  split at h
  · next honce =>
    rw [← Except.ok.inj h]
    have hkind : task.scheduleKind = "once" := honce
    refine ⟨fun he => ?_,fun hen => by cases hen⟩
    have he : task.scheduleKind = "event" := he
    rw [hkind] at he
    exact absurd he (by decide)
  · next honce =>
    split at h
    · next hevent =>
      rw [← Except.ok.inj h]
      exact ⟨fun _ => rfl,fun _ hne => absurd hevent hne⟩
    · next hevent =>
      obtain ⟨due,hdue,rfl⟩ := map_accepted h
      exact ⟨fun he => absurd he hevent,fun _ _ => (nextRun_later hdue).2 honce hevent⟩

/-- A schedule that is queued and advanced. -/
theorem Planned.fire {task : ScheduledTaskRow} {snapshot : Dict} {t : Instant} (h : Planned s now)
    (hfired : Fired s s' taskId task snapshot t now) (ht : t ≤ now)
    (hknown : taskId < s.plans.length) : Planned s' now := by
  obtain ⟨run,hruns,hrun,_⟩ := hfired.runs
  obtain ⟨row,hrow,hs⟩ := hfired.schedules
  obtain ⟨hevent,hlater⟩ := advanceBeforeRun_later hrow
  have hoccurrences : s'.occurrences = s.occurrences ++ [⟨some taskId,some t,snapshot⟩] := by
    rw [occurrences_append hruns,hrun]
  have hmem : ∀ x ∈ s'.occurrences, x ∈ s.occurrences ∨ x = ⟨some taskId,some t,snapshot⟩ := by
    intro x hx
    rw [hoccurrences] at hx
    exact (List.mem_append.mp hx).imp_right List.mem_singleton.mp
  have hlength : s'.plans.length = s.plans.length := by
    rw [Ledger.plans,Ledger.plans,hs,List.length_map,List.length_map,List.length_modify]
  have hat : ∀ {i plan}, s'.plans[i]? = some plan →
      (i ≠ taskId ∧ s.plans[i]? = some plan) ∨ plan = row.plan := by
    intro i plan hplan
    rw [Ledger.plans_getElem?,hs] at hplan
    by_cases hi : taskId = i
    · subst hi
      rw [getElem?_modify_self] at hplan
      obtain ⟨x,hx,rfl⟩ := Option.map_eq_some_iff.mp hplan
      obtain ⟨_,_,rfl⟩ := Option.map_eq_some_iff.mp hx
      exact Or.inr rfl
    · rw [getElem?_modify_ne _ _ hi,← Ledger.plans_getElem?] at hplan
      exact Or.inl ⟨Ne.symm hi,hplan⟩
  have hpast : ∀ x ∈ s'.occurrences, ∀ u, x.time = some u → u ≤ now := by
    intro x hx u hu
    rcases hmem x hx with hx | rfl
    · exact h.past x hx u hu
    · rw [← Option.some.inj hu]
      exact ht
  refine ⟨hpast,fun x hx i hi => ?_,fun i plan hplan hen hdel hkind => ?_,
    fun i plan hplan hkind => ?_⟩
  · rw [hlength]
    rcases hmem x hx with hx | rfl
    · exact h.known x hx i hi
    · rw [← Option.some.inj hi]
      exact hknown
  · rw [Bool.eq_false_iff]
    intro htaken
    obtain ⟨x,hx,hxi,hxt⟩ := taken_iff.mp htaken
    rcases hat hplan with ⟨hi,hplan⟩ | rfl
    · rcases hmem x hx with hx | rfl
      · have hfree := h.free i plan hplan hen hdel hkind
        rw [taken_iff.mpr ⟨x,hx,hxi,hxt⟩] at hfree
        cases hfree
      · exact hi (Option.some.inj hxi).symm
    · exact Nat.not_le.mpr (hlater hen hkind) (hpast x hx _ hxt)
  · rcases hat hplan with ⟨_,hplan⟩ | rfl
    · exact h.event i plan hplan hkind
    · exact hevent hkind

/-- A schedule that a poll finds due and idle can be advanced. -/
def Advances (s : Ledger) (now : Instant) (taskId : ℕ) : Prop :=
  ∀ task, s.schedules[taskId]? = some task → outstanding s taskId = false →
    task.scheduleKind = "once" ∨
      ∃ due, nextRun task.scheduleKind task.scheduleValue task.timezone now = .ok due

/-- What a poll does about a schedule that is due. -/
def Handled (s s' : Ledger) (now : Instant) (taskId : ℕ) : Prop :=
  ∀ task, s.schedules[taskId]? = some task → outstanding s taskId = false →
    taken s taskId task.nextRunAt = false ∧
    (s'.occurrences.filter fun x => x.schedule == some taskId) =
      (s.occurrences.filter fun x => x.schedule == some taskId) ++
        [⟨some taskId,some task.nextRunAt,dueSnapshot taskId task⟩] ∧
    ∃ row, advanceBeforeRun task now = .ok row ∧
      s'.schedules[taskId]? = some {row with lastStatus := some .queued}

theorem Fired.untouched {i : ℕ} {task : ScheduledTaskRow} {snapshot : Dict} {t : Instant}
    (h : Fired s s' taskId task snapshot t now) (hi : i ≠ taskId) : Untouched s s' i := by
  obtain ⟨run,hruns,hrun,_⟩ := h.runs
  have hschedule : run.scheduleId = some taskId := congrArg Occurrence.schedule hrun
  refine ⟨?_,?_,?_⟩
  · rcases h.getElem? i with ⟨_,he⟩ | ⟨he,_⟩
    · exact he
    · exact absurd he hi
  · rw [outstanding_append hruns,hschedule]
    simp [Ne.symm hi]
  · rw [occurrences_append hruns,hrun,List.filter_append]
    simp [Ne.symm hi]

/-- One schedule of a poll for what is due. -/
theorem claimTask_handled {task : ScheduledTaskRow} (h : Planned s now)
    (htask : s.schedules[taskId]? = some task) (hdue : task.nextRunAt ≤ now)
    (hready : task.enabled = true ∧ task.deleted = false ∧ task.scheduleKind ≠ "event")
    (hadvances : Advances s now taskId) :
    ∃ s', claimTask now s taskId = .ok s' ∧ Planned s' now ∧ Handled s s' now taskId ∧
      ∀ i, i ≠ taskId → Untouched s s' i := by
  have hplan : s.plans[taskId]? = some task.plan := by
    rw [Ledger.plans_getElem?,htask]
    rfl
  cases hbusy : outstanding s taskId with
  | true =>
    refine ⟨s,?_,h,fun x hx hidle => ?_,fun i _ => Untouched.refl s i⟩
    · simp [claimTask,htask,hbusy]
    · rw [hbusy] at hidle
      cases hidle
  | false =>
    have hfree : taken s taskId task.nextRunAt = false :=
      h.free taskId task.plan hplan hready.1 hready.2.1 hready.2.2
    obtain ⟨u,hu⟩ := queueOccurrence_free task (dueSnapshot taskId task) now hfree
    have hrow : ∃ row, advanceBeforeRun task now = .ok row := by
      simp only [advanceBeforeRun]
      rcases hadvances task htask hbusy with honce | ⟨due,hnext⟩
      · rw [if_pos honce]
        exact ⟨_,rfl⟩
      · by_cases honce : task.scheduleKind = "once"
        · rw [if_pos honce]
          exact ⟨_,rfl⟩
        · rw [if_neg honce,if_neg hready.2.2,hnext]
          exact ⟨_,rfl⟩
    obtain ⟨row,hrow⟩ := hrow
    have hclaim : claimTask now s taskId = .ok
        (u.setSchedule taskId fun _ => {row with lastStatus := some .queued}) := by
      simp only [claimTask,htask,hbusy,hu]
      simp [advanceTask,hrow,bind,Except.bind,Except.map]
    rcases claimTask_ok hclaim with ⟨_,hbusy'⟩ | ⟨task',htask',_,hfired⟩
    · rw [hbusy' task htask] at hbusy
      cases hbusy
    · obtain rfl := Option.some.inj (htask.symm.trans htask')
      refine ⟨_,hclaim,h.fire hfired hdue (List.getElem?_eq_some_iff.mp hplan).1,
        fun x hx _ => ?_,fun i hi => hfired.untouched hi⟩
      obtain rfl := Option.some.inj (htask.symm.trans hx)
      obtain ⟨run,hruns,hrun,_⟩ := hfired.runs
      refine ⟨hfree,?_,row,hrow,?_⟩
      · rw [occurrences_append hruns,hrun,List.filter_append]
        simp
      · obtain ⟨row',hrow',hs⟩ := hfired.schedules
        obtain rfl := Except.ok.inj (hrow.symm.trans hrow')
        rw [hs,getElem?_modify_self,htask]
        rfl

theorem Handled.after {u : Ledger} (h : Handled s u now taskId) (h' : Untouched u s' taskId) :
    Handled s s' now taskId := by
  intro task htask hidle
  obtain ⟨hfree,hruns,row,hrow,hs⟩ := h task htask hidle
  exact ⟨hfree,h'.runs.trans hruns,row,hrow,h'.schedule.trans hs⟩

theorem Handled.before {u : Ledger} (h : Untouched s u taskId) (h' : Handled u s' now taskId) :
    Handled s s' now taskId := by
  intro task htask hidle
  obtain ⟨hfree,hruns,hrow⟩ := h' task (h.schedule.trans htask) (h.busy.trans hidle)
  rw [h.taken] at hfree
  exact ⟨hfree,hruns.trans (by rw [h.runs]),hrow⟩

/-- A schedule that a poll looks at. -/
def Due (s : Ledger) (now : Instant) (taskId : ℕ) : Prop :=
  (∃ task, s.schedules[taskId]? = some task ∧ task.nextRunAt ≤ now ∧ task.enabled = true ∧
    task.deleted = false ∧ task.scheduleKind ≠ "event") ∧ Advances s now taskId

theorem Due.untouched (h : Due s now taskId) (hs : Untouched s s' taskId) : Due s' now taskId := by
  obtain ⟨⟨task,htask,hdue⟩,hadvances⟩ := h
  refine ⟨⟨task,hs.schedule.trans htask,hdue⟩,fun x hx hidle => ?_⟩
  exact hadvances x (hs.schedule.symm.trans hx) (hs.busy.symm.trans hidle)

theorem claimTasks_handled (l : List ℕ) : ∀ {s : Ledger}, l.Nodup → Planned s now →
    (∀ id ∈ l, Due s now id) → ∃ s', l.foldlM (claimTask now) s = .ok s' ∧ Planned s' now ∧
      (∀ id ∈ l, Handled s s' now id) ∧ ∀ i, i ∉ l → Untouched s s' i := by
  induction l with
  | nil => exact fun _ h _ => ⟨_,rfl,h,fun id hid => (by cases hid),
    fun i _ => Untouched.refl _ i⟩
  | cons id l ih =>
    intro s hnodup h hdue
    rw [List.nodup_cons] at hnodup
    obtain ⟨⟨task,htask,hle,hready⟩,hadvances⟩ := hdue id List.mem_cons_self
    obtain ⟨u,hu,hplanned,hhandled,hothers⟩ := claimTask_handled h htask hle hready hadvances
    have hne : ∀ i ∈ l, i ≠ id := by
      rintro i hi rfl
      exact hnodup.1 hi
    obtain ⟨s',hs',hplanned',hrest,hothers'⟩ := ih hnodup.2 hplanned fun i hi =>
      (hdue i (List.mem_cons_of_mem _ hi)).untouched (hothers i (hne i hi))
    refine ⟨s',?_,hplanned',fun i hi => ?_,fun i hi => ?_⟩
    · rw [List.foldlM_cons,hu]
      exact hs'
    · rcases List.mem_cons.mp hi with rfl | hi
      · exact hhandled.after (hothers' i hnodup.1)
      · exact Handled.before (hothers i (hne i hi)) (hrest i hi)
    · rw [List.mem_cons,not_or] at hi
      exact (hothers i hi.1).trans (hothers' i hi.2)

omit [ScheduleRuntime] in
theorem nodup_dueTasks (s : Ledger) (locked : ℕ → Bool) (now : Instant) :
    (dueTasks s locked now).Nodup := by
  refine List.Nodup.sublist (List.take_sublist _ _) ?_
  rw [(List.perm_insertionSort _ _).nodup_iff]
  exact (nodup_ids _ _).filter _

/-- A poll for what is due. -/
theorem claimDue_handled {locked : ℕ → Bool} (h : Planned s now) (hnow : now < eventSentinel)
    (hadvances : ∀ id ∈ dueTasks s locked now, Advances s now id) :
    ∃ s', claimDue s locked now = .ok s' ∧ Planned s' now ∧
      ∀ id ∈ dueTasks s locked now, Handled s s' now id := by
  have hdue : ∀ id ∈ dueTasks s locked now, Due s now id := by
    intro id hid
    refine ⟨?_,hadvances id hid⟩
    have hmem := List.mem_of_mem_take hid
    rw [List.mem_insertionSort,List.mem_filter,mem_ids] at hmem
    obtain ⟨⟨task,htask,hp⟩,_⟩ := hmem
    simp only [Bool.and_eq_true,Bool.not_eq_true',decide_eq_true_eq] at hp
    refine ⟨task,htask,hp.2,hp.1.1,hp.1.2,fun hevent => ?_⟩
    have hplan : s.plans[id]? = some task.plan := by
      rw [Ledger.plans_getElem?,htask]
      rfl
    have hat : task.nextRunAt = eventSentinel := h.event id task.plan hplan hevent
    rw [hat] at hp
    exact Nat.not_lt.mpr hp.2 hnow
  obtain ⟨s',hs',hplanned,hhandled,_⟩ :=
    claimTasks_handled _ (nodup_dueTasks s locked now) h hdue
  exact ⟨s',hs',hplanned,hhandled⟩

/-- Besides the plan: the runs of an idle schedule lie in the past. -/
structure Waking (s : Ledger) (now : Instant) : Prop where
  planned : Planned s now
  idle : ∀ i, outstanding s i = false → ∀ t, taken s i t = true → t < now

omit [ScheduleRuntime] in
theorem Waking.start {clock : Instant} (h : Planned s clock) (hlt : clock < now) :
    Waking s now := by
  refine ⟨h.mono hlt.le,fun i _ t ht => ?_⟩
  obtain ⟨x,hx,_,hxt⟩ := taken_iff.mp ht
  exact Nat.lt_of_le_of_lt (h.past x hx t hxt) hlt

theorem Fired.length {task : ScheduledTaskRow} {snapshot : Dict} {t : Instant}
    (h : Fired s s' taskId task snapshot t now) : s'.plans.length = s.plans.length := by
  obtain ⟨row,_,hs⟩ := h.schedules
  rw [Ledger.plans,Ledger.plans,hs,List.length_map,List.length_map,List.length_modify]

theorem Waking.task {w : Waiter} {id : ℕ} {row : NotificationRow} {d d' : Bool} (h : Waking s now)
    (hknown : w.taskId < s.plans.length) (hrow : row.createdAt ≤ now)
    (hc : wakeTask now id row (s,d) w = .ok (s',d')) :
    Waking s' now ∧ s'.plans.length = s.plans.length := by
  rcases wakeTask_ok hc with ⟨_,rfl,_⟩ | ⟨_,_,rfl,_⟩ | ⟨_,hidle,_,t,_,hbound,hfired⟩
  · exact ⟨h,rfl⟩
  · exact ⟨h,rfl⟩
  · have ht : t ≤ now := hbound now hrow (h.idle w.taskId hidle)
    refine ⟨⟨h.planned.fire hfired ht hknown,fun i hi u hu => ?_⟩,hfired.length⟩
    have hne : i ≠ w.taskId := by
      rintro rfl
      obtain ⟨run,hruns,hrun,hstatus⟩ := hfired.runs
      have hschedule : run.scheduleId = some w.taskId := congrArg Occurrence.schedule hrun
      rw [outstanding_append hruns,hschedule,hstatus] at hi
      simp [outstandingStatuses] at hi
    have hsame := hfired.untouched hne
    rw [hsame.taken] at hu
    exact h.idle i (hsame.busy.symm.trans hi) u hu

theorem Waking.tasks {id : ℕ} {row : NotificationRow} (hrow : row.createdAt ≤ now)
    (l : List Waiter) : ∀ {s s' : Ledger} {d d' : Bool}, Waking s now →
    (∀ w ∈ l, w.taskId < s.plans.length) →
    l.foldlM (wakeTask now id row) (s,d) = .ok (s',d') →
    Waking s' now ∧ s'.plans.length = s.plans.length := by
  induction l with
  | nil =>
    intro s s' d d' h _ hc
    obtain ⟨rfl,rfl⟩ := Prod.mk.inj (Except.ok.inj hc)
    exact ⟨h,rfl⟩
  | cons w l ih =>
    intro s s' d d' h hknown hc
    rw [List.foldlM_cons] at hc
    obtain ⟨⟨u,e⟩,hu,hc⟩ := accepted hc
    obtain ⟨hnext,hlength⟩ := h.task (hknown w List.mem_cons_self) hrow hu
    obtain ⟨hlast,hlength'⟩ := ih hnext (fun x hx => by
      rw [hlength]
      exact hknown x (List.mem_cons_of_mem _ hx)) hc
    exact ⟨hlast,hlength'.trans hlength⟩

theorem Waking.notifications {ws : List Waiter} {started : Instant} (l : List ℕ) :
    ∀ {s s' : Ledger} {rows rows' : List NotificationRow}, Waking s now →
    (∀ w ∈ ws, w.taskId < s.plans.length) → (∀ row ∈ rows, row.createdAt ≤ now) →
    l.foldlM (wakeNotification ws started now) (s,rows) = .ok (s',rows') →
    Waking s' now ∧ ∀ row ∈ rows', row.createdAt ≤ now := by
  induction l with
  | nil =>
    intro s s' rows rows' h _ hrows hc
    obtain ⟨rfl,rfl⟩ := Prod.mk.inj (Except.ok.inj hc)
    exact ⟨h,hrows⟩
  | cons id l ih =>
    intro s s' rows rows' h hknown hrows hc
    rw [List.foldlM_cons] at hc
    obtain ⟨⟨u,next⟩,hu,hrest⟩ := accepted hc
    rcases wakeNotification_ok hu with ⟨_,rfl,rfl⟩ | ⟨row,d,hrow,hfold,hnext⟩
    · exact ih h hknown hrows hrest
    · obtain ⟨hwaking,hlength⟩ :=
        Waking.tasks (hrows row (List.mem_of_getElem? hrow)) ws h hknown hfold
      refine ih hwaking (fun w hw => by rw [hlength]; exact hknown w hw) (fun x hx => ?_) hrest
      rcases hnext with ⟨_,rfl⟩ | ⟨_,rfl⟩
      · exact hrows x hx
      · rcases mem_modify hx with hx | ⟨y,hy,rfl⟩
        · exact hrows x hx
        · exact hrows y (List.mem_of_getElem? hy)

/-- A poll for events. -/
theorem claimEvents_planned {ws : List Waiter} {started clock : Instant} {locked : ℕ → Bool}
    {rows rows' : List NotificationRow} (h : Planned s clock) (hlt : clock < now)
    (hknown : ∀ w ∈ ws, w.taskId < s.plans.length) (hrows : ∀ row ∈ rows, row.createdAt ≤ clock)
    (hc : claimEvents ws locked started now s rows = .ok (s',rows')) :
    Planned s' now ∧ ∀ row ∈ rows', row.createdAt ≤ now := by
  have hexpired : ∀ row ∈ expireWakes started rows, row.createdAt ≤ now := by
    intro row hrow
    obtain ⟨old,hold,rfl⟩ := List.mem_map.mp hrow
    split
    · exact (hrows old hold).trans hlt.le
    · exact (hrows old hold).trans hlt.le
  simp only [claimEvents] at hc
  split at hc
  · obtain ⟨rfl,rfl⟩ := Prod.mk.inj (Except.ok.inj hc)
    exact ⟨h.mono hlt.le,hexpired⟩
  · obtain ⟨hwaking,hrows'⟩ := Waking.notifications _ (Waking.start h hlt) hknown hexpired hc
    exact ⟨hwaking.planned,hrows'⟩

theorem createdTask_event {ownerTimezone : String} {arguments : Dict} {row : ScheduledTaskRow}
    (h : createdTask ownerTimezone arguments now = .ok row) (hkind : row.scheduleKind = "event") :
    row.nextRunAt = eventSentinel := by
  obtain ⟨_,_,h⟩ := accepted h
  obtain ⟨due,hdue,h⟩ := accepted h
  obtain ⟨_,_,h⟩ := accepted h
  rw [← Except.ok.inj h] at hkind ⊢
  exact (nextRun_later hdue).1 hkind

/-- The time of a schedule that is changed. -/
theorem updatedTask_later {arguments : Dict} {old row : ScheduledTaskRow}
    (h : updatedTask arguments old now = .ok row) :
    (row.scheduleKind = "event" → row.nextRunAt = eventSentinel) ∧
      (row.scheduleKind ≠ "once" → row.scheduleKind ≠ "event" → now < row.nextRunAt) := by
  obtain ⟨due,hdue,h⟩ := accepted h
  rw [← Except.ok.inj h]
  exact nextRun_later hdue

theorem create_planned {ownerTimezone : String} {arguments : Dict} (h : Planned s now)
    (hc : create s ownerTimezone arguments now = .ok s') : Planned s' now := by
  obtain ⟨row,hrow,hc⟩ := accepted hc
  rw [← Except.ok.inj hc]
  exact h.add (createdTask_event hrow) rfl rfl

theorem delete_planned {arguments : Dict} (h : Planned s now)
    (hc : delete s arguments = .ok s') : Planned s' now := by
  obtain ⟨⟨id,row⟩,_,hc⟩ := accepted hc
  rw [← Except.ok.inj hc]
  refine h.set (f := fun old => {old with deleted := true}) (fun old hold => ?_) rfl rfl
  refine ⟨fun _ hdel => (by cases hdel),fun hkind => ?_⟩
  have hplan : s.plans[id]? = some old.plan := by
    rw [Ledger.plans_getElem?,hold]
    rfl
  exact h.event id old.plan hplan hkind

theorem update_planned {arguments : Dict} (h : Planned s now)
    (hfree : ∀ id old row, getTask s arguments = .ok (id,old) →
      updatedTask arguments old now = .ok row → row.enabled = true → row.scheduleKind = "once" →
      taken s id row.nextRunAt = false)
    (hc : update s arguments now = .ok s') : Planned s' now := by
  obtain ⟨⟨id,old⟩,hget,hc⟩ := accepted hc
  obtain ⟨row,hrow,hc⟩ := accepted hc
  rw [← Except.ok.inj hc]
  obtain ⟨hevent,hlater⟩ := updatedTask_later hrow
  refine h.set (f := fun _ => row) (fun _ _ => ⟨fun hen _ hkind => ?_,hevent⟩) rfl rfl
  by_cases honce : row.scheduleKind = "once"
  · exact hfree id old row hget hrow hen honce
  · exact h.later (hlater honce hkind) id

namespace Watch

/-- The instant of a step. -/
def later (m : Watch) (e : WatchStep × ℕ) : Instant := m.clock + e.2 + 1

/-- A change of a schedule that leaves it a one-time one gives it a time that it has no run for,
and a poll finds a next time for every recurring schedule that is due. -/
def Timely (m : Watch) (e : WatchStep × ℕ) : Prop :=
  match e.1 with
  | .update arguments => ∀ id old row, getTask m.ledger arguments = .ok (id,old) →
      updatedTask arguments old (m.later e) = .ok row → row.enabled = true →
      row.scheduleKind = "once" → taken m.ledger id row.nextRunAt = false
  | .claimDue skipped => m.later e < eventSentinel ∧
      ∀ id ∈ dueTasks m.ledger (m.passedBy skipped) (m.later e),
        Advances m.ledger (m.later e) id
  | _ => True

/-- What holds of the times between steps. -/
structure Timed (m : Watch) : Prop where
  planned : Planned m.ledger m.clock
  announced : ∀ row ∈ m.notifications, row.createdAt ≤ m.clock
  locks : m.Locks

variable {m : Watch} {ownerTimezone : String}

theorem Timed.request (h : m.Timed) {arguments : Dict} {result : Except Refusal Ledger}
    (hlt : m.clock < now) (hresult : ∀ s, result = .ok s → Planned s now) :
    Planned (m.request arguments result).ledger now ∧
      ∀ row ∈ (m.request arguments result).notifications, row.createdAt ≤ now := by
  have hrows : ∀ row ∈ m.notifications, row.createdAt ≤ now :=
    fun row hrow => (h.announced row hrow).trans hlt.le
  simp only [Watch.request]
  split
  · exact ⟨h.planned.mono hlt.le,hrows⟩
  · split
    · exact ⟨h.planned.mono hlt.le,hrows⟩
    · next s => exact ⟨hresult s rfl,hrows⟩

theorem timed_act (h : m.Timed) (e : WatchStep × ℕ) (hok : m.Timely e) :
    Planned (m.act ownerTimezone (m.later e) e.1).ledger (m.later e) ∧
      ∀ row ∈ (m.act ownerTimezone (m.later e) e.1).notifications,
        row.createdAt ≤ m.later e := by
  obtain ⟨a,pause⟩ := e
  have hlt : m.clock < m.later (a,pause) := Nat.lt_succ_of_le (Nat.le_add_right _ _)
  have hplanned : Planned m.ledger (m.later (a,pause)) := h.planned.mono hlt.le
  have hrows : ∀ row ∈ m.notifications, row.createdAt ≤ m.later (a,pause) :=
    fun row hrow => (h.announced row hrow).trans hlt.le
  cases a with
  | work op =>
    simp only [act]
    split
    · exact ⟨hplanned,hrows⟩
    · next hop =>
      refine ⟨?_,hrows⟩
      simp only [Ledger.step]
      split
      · next s hs => exact hplanned.aside (Ledger.apply_aside (by simpa using hop) hs)
      · exact hplanned
  | create arguments =>
    simp only [act]
    split
    · exact ⟨hplanned,hrows⟩
    · next s hs => exact ⟨create_planned hplanned hs,hrows⟩
  | lock taskId =>
    simp only [act]
    split
    · exact ⟨hplanned,hrows⟩
    · exact ⟨hplanned,hrows⟩
  | unlock taskId => exact ⟨hplanned,hrows⟩
  | update arguments => exact h.request hlt fun s hs => update_planned hplanned hok hs
  | delete arguments => exact h.request hlt fun s hs => delete_planned hplanned hs
  | announce row =>
    simp only [act]
    split
    · next hrow =>
      refine ⟨hplanned,fun x hx => ?_⟩
      rcases List.mem_append.mp hx with hx | hx
      · exact hrows x hx
      · rw [List.mem_singleton.mp hx]
        exact hrow.1
    · exact ⟨hplanned,hrows⟩
  | amend id change =>
    refine ⟨hplanned,fun x hx => ?_⟩
    rcases mem_modify hx with hx | ⟨y,hy,rfl⟩
    · exact hrows x hx
    · cases change <;> exact hrows y (List.mem_of_getElem? hy)
  | claimDue skipped =>
    obtain ⟨s,hs,hnext,_⟩ := claimDue_handled hplanned hok.1 hok.2
    have hs : claimDue m.ledger (m.passedBy skipped) (m.later (.claimDue skipped,pause)) = .ok s :=
      hs
    simp only [act,hs]
    exact ⟨hnext,hrows⟩
  | select => exact ⟨hplanned,hrows⟩
  | wake poll skipped =>
    simp only [act]
    split
    · exact ⟨hplanned,hrows⟩
    · next p hp =>
      split
      · exact ⟨hplanned,hrows⟩
      · next s rows hs =>
        refine claimEvents_planned h.planned hlt (fun w hw => ?_) h.announced hs
        have hcurrent := h.locks.current poll p (Option.join_eq_some_iff.mp hp) _ (mem_waiters hw).1
        exact (List.getElem?_eq_some_iff.mp hcurrent).1
  | rollback poll => exact ⟨hplanned,hrows⟩

theorem timed_step (h : m.Timed) (e : WatchStep × ℕ) (hok : m.Timely e) :
    (m.step ownerTimezone e).Timed := by
  have hact : Planned (m.act ownerTimezone (m.later e) e.1).ledger (m.later e) ∧ _ :=
    timed_act h e hok
  exact ⟨hact.1,hact.2,locks_step h.locks e⟩

omit [ScheduleRuntime] in
theorem timed_start : Timed {} where
  planned := ⟨fun x hx => (by cases hx),fun x hx => (by cases hx),
    fun i task hi => (by simp [Ledger.plans] at hi),fun i task hi => (by simp [Ledger.plans] at hi)⟩
  announced := fun row hrow => (by cases hrow)
  locks := ⟨fun k p hp => by simp at hp,fun j k p q hp => by simp at hp⟩

end Watch

/-- In every run in which no change of a schedule gives a one-time schedule a time that it has a
run for and the recurring schedules have a next time, a poll for what is due commits: every
schedule of its batch that is idle is queued once, for a time it had no run for, and advanced. -/
theorem due_poll_commits {ownerTimezone : String} {m : Watch}
    (h : Trace.Reach (Watch.step ownerTimezone) Watch.Timely (· = {}) m)
    (skipped : List ℕ) (pause : ℕ) (hok : m.Timely (.claimDue skipped,pause)) :
    ∃ s', claimDue m.ledger (m.passedBy skipped) (m.later (.claimDue skipped,pause)) = .ok s' ∧
      ∀ id ∈ dueTasks m.ledger (m.passedBy skipped) (m.later (.claimDue skipped,pause)),
        Handled m.ledger s' (m.later (.claimDue skipped,pause)) id := by
  have htimed : m.Timed := by
    refine h.invariant (I := Watch.Timed) (fun m hm => ?_) fun m e hm he => Watch.timed_step hm e he
    subst hm
    exact Watch.timed_start
  obtain ⟨s',hs',_,hhandled⟩ := claimDue_handled
    (htimed.planned.mono (Nat.le_succ_of_le (Nat.le_add_right _ _))) hok.1 hok.2
  exact ⟨s',hs',hhandled⟩

end

/-- A one-time schedule and the poll that queues it. -/
def onceDue : List (WatchStep × ℕ) := [
  (.create [
    ("prompt",.str "Water the plants."),
    ("schedule_value",.str "10"),
    ("timezone",.str "UTC")],0)]

theorem due_poll_commits_once : letI := plainSchedules
    ∃ s', claimDue (onceDue.foldl (Watch.step "UTC") {}).ledger
        ((onceDue.foldl (Watch.step "UTC") {}).passedBy [])
        ((onceDue.foldl (Watch.step "UTC") {}).later (.claimDue [],8)) = .ok s' ∧
      Handled (onceDue.foldl (Watch.step "UTC") {}).ledger s'
        ((onceDue.foldl (Watch.step "UTC") {}).later (.claimDue [],8)) 0 := by
  let := plainSchedules
  have hall : Trace.Allowed (Watch.step "UTC") Watch.Timely {} onceDue := ⟨trivial,trivial⟩
  have hinit : Trace.Reach (Watch.step "UTC") Watch.Timely (· = {}) {} := .start rfl
  have honce : (onceDue.foldl (Watch.step "UTC") {}).ledger.schedules.all
      (fun t => t.scheduleKind == "once") = true := by
    decide
  have hguard : (onceDue.foldl (Watch.step "UTC") {}).Timely (.claimDue [],8) := by
    refine ⟨by decide,fun id _ task htask _ => Or.inl ?_⟩
    simpa using List.all_eq_true.mp honce task (List.mem_of_getElem? htask)
  obtain ⟨s',hs',hhandled⟩ := due_poll_commits (hinit.run hall) [] 8 hguard
  exact ⟨s',hs',hhandled 0 (by decide)⟩

/-- A one-time schedule that has run, enabled again. -/
def onceAgain : List (WatchStep × ℕ) := onceDue ++ [
  (WatchStep.claimDue [],8),
  (WatchStep.work (.startRun 0),0),
  (WatchStep.work (.finishRun 0 true),0),
  (WatchStep.update [("task_id",.str "0"),("enabled",.bool true)],0)]

/-- The next poll finds it due and idle, and tries to queue the run that it has. -/
theorem due_poll_poisoned : letI := plainSchedules
    ∃ m : Watch, Trace.Reach (Watch.step "UTC") (fun _ _ => True) (· = {}) m ∧
      dueTasks m.ledger (m.passedBy []) (m.later (.claimDue [],0)) = [0] ∧
      outstanding m.ledger 0 = false ∧
      (claimDue m.ledger (m.passedBy []) (m.later (.claimDue [],0))).isOk = false := by
  let := plainSchedules
  have hinit : Trace.Reach (Watch.step "UTC") (fun _ _ => True) (· = {}) {} := .start rfl
  exact ⟨_,hinit.steps onceAgain,by decide,by decide,by decide⟩

end Schedules
end Atlas
