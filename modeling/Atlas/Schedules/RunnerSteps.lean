import Atlas.Schedules.Watch

/-! What the polls of the scheduler do to the runs and the schedules, one lemma a function. -/
namespace Atlas
namespace Schedules

open Actions Notifications RowTable

variable {s s' : Ledger} {taskId : ℕ} {task : ScheduledTaskRow} {snapshot : Dict} {t now : Instant}

theorem firstFree_ge (n : ℕ) (times : List Instant) : ∀ t, t ≤ firstFree n times t := by
  induction n with
  | zero => exact fun t => le_rfl
  | succ n ih =>
    intro t
    simp only [firstFree]
    split
    · exact (Nat.le_succ t).trans (ih (t + 1))
    · exact le_rfl

/-- The search goes at most one past the times that are taken. -/
theorem firstFree_le (n : ℕ) (times : List Instant) {bound : Instant}
    (htimes : ∀ u ∈ times, u < bound) : ∀ t, t ≤ bound → firstFree n times t ≤ bound := by
  induction n with
  | zero => exact fun t ht => ht
  | succ n ih =>
    intro t ht
    simp only [firstFree]
    split
    · next hmem => exact ih (t + 1) (htimes t hmem)
    · exact ht

theorem countP_from (times : List Instant) (t : Instant) :
    times.countP (fun u => decide (t ≤ u)) =
      times.countP (fun u => decide (t + 1 ≤ u)) + times.count t := by
  induction times with
  | nil => rfl
  | cons u times ih =>
    rw [List.countP_cons,List.countP_cons,List.count_cons,ih]
    rcases Nat.lt_trichotomy u t with h | rfl | h
    · have hne : u ≠ t := Nat.ne_of_lt h
      simp [Nat.not_le.mpr h,Nat.not_le.mpr (Nat.lt_succ_of_lt h),hne]
    · have hnot : ¬u + 1 ≤ u := Nat.not_succ_le_self u
      simp [hnot]
      omega
    · have hne : u ≠ t := Nat.ne_of_gt h
      simp [h.le,Nat.succ_le_of_lt h,hne]
      omega

/-- As many tries as there are taken times from the first one on find a free one. -/
theorem firstFree_free (n : ℕ) (times : List Instant) :
    ∀ t, times.countP (fun u => decide (t ≤ u)) ≤ n → firstFree n times t ∉ times := by
  induction n with
  | zero =>
    intro t ht hmem
    have hzero := List.countP_eq_zero.mp (Nat.le_zero.mp ht) t hmem
    simp at hzero
  | succ n ih =>
    intro t ht
    simp only [firstFree]
    split
    · next hmem =>
      apply ih
      have hcount := countP_from times t
      have hpos := List.count_pos_iff.mpr hmem
      omega
    · next hmem => exact hmem

theorem mem_takenTimes : t ∈ takenTimes s taskId ↔ taken s taskId t = true := by
  rw [takenTimes,List.mem_filterMap,taken,List.any_eq_true]
  constructor
  · rintro ⟨r,hr,hrt⟩
    split at hrt
    · next hid => exact ⟨r,hr,by simp [hid,hrt]⟩
    · cases hrt
  · rintro ⟨r,hr,hrt⟩
    simp only [Bool.and_eq_true,beq_iff_eq] at hrt
    exact ⟨r,hr,by rw [if_pos hrt.1,hrt.2]⟩

theorem firstFree_taken (s : Ledger) (taskId : ℕ) (t : Instant) :
    taken s taskId (firstFree (takenTimes s taskId).length (takenTimes s taskId) t) = false := by
  rw [Bool.eq_false_iff]
  intro h
  exact firstFree_free _ _ t List.countP_le_length (mem_takenTimes.mpr h)

/-- An occurrence that was put into the queue. -/
structure Queued (s s' : Ledger) (taskId : ℕ) (snapshot : Dict) (t : Instant) : Prop where
  free : taken s taskId t = false
  schedules : s'.schedules = s.schedules
  runs : ∃ row : RunRow, s'.runs = s.runs ++ [row] ∧
    row.occurrence = ⟨some taskId,some t,snapshot⟩ ∧ row.status = .queued

theorem queueOccurrence_ok
    (h : queueOccurrence s taskId task snapshot t now = .ok s') :
    Queued s s' taskId snapshot t := by
  obtain ⟨_,hfree,h⟩ := accepted h
  obtain ⟨⟨u,id⟩,hu,h⟩ := accepted h
  obtain rfl := Except.ok.inj h
  obtain ⟨row,_,_,_,_,hstatus,_,hschedule,htime,htrigger,rfl,_⟩ := Ledger.queueRun_ok hu
  exact ⟨require_ok hfree,rfl,row,rfl,by rw [RunRow.occurrence,hschedule,htime,htrigger],hstatus⟩

/-- An occurrence whose time is free can be queued. -/
theorem queueOccurrence_free (task : ScheduledTaskRow) (snapshot : Dict) (now : Instant)
    (hfree : taken s taskId t = false) :
    ∃ s', queueOccurrence s taskId task snapshot t now = .ok s' := by
  cases hqueue : queueOccurrence s taskId task snapshot t now with
  | ok s' => exact ⟨s',rfl⟩
  | error e =>
    simp [queueOccurrence,require,hfree,Ledger.queueRun,Ledger.createRun,Ledger.foregroundFree,
      Ledger.transcriptExists,bind,Except.bind,pure,Except.pure] at hqueue

theorem expireWakes_getElem? (started : Instant) (rows : List NotificationRow) (id : ℕ) :
    (expireWakes started rows)[id]? = (rows[id]?).map fun r =>
      if r.wakeClaimedAt.isNone && decide (r.createdAt < started - eventWakeMaxAge) then
        claimWake started r
      else r := List.getElem?_map

theorem nodup_pendingWakes (rows : List NotificationRow) (locked : ℕ → Bool) (started : Instant) :
    (pendingWakes rows locked started).Nodup := by
  refine List.Nodup.sublist (List.take_sublist _ _) ?_
  rw [(List.perm_insertionSort _ _).nodup_iff]
  exact (nodup_ids _ _).filter _

/-- The notifications of a poll, as they were before it. -/
theorem mem_pendingWakes {rows : List NotificationRow} {locked : ℕ → Bool} {started : Instant}
    {id : ℕ} (h : id ∈ pendingWakes (expireWakes started rows) locked started) :
    ∃ row, rows[id]? = some row ∧ (expireWakes started rows)[id]? = some row ∧
      row.wakeClaimedAt = none := by
  have hmem := List.mem_of_mem_take h
  rw [List.mem_insertionSort,List.mem_filter,mem_ids] at hmem
  obtain ⟨⟨row,hrow,hp⟩,_⟩ := hmem
  simp only [Bool.and_eq_true,Option.isNone_iff_eq_none] at hp
  have hmap := (expireWakes_getElem? started rows id).symm.trans hrow
  obtain ⟨old,hold,hmade⟩ := Option.map_eq_some_iff.mp hmap
  split at hmade
  · rw [← hmade] at hp
    cases hp.1
  · subst hmade
    exact ⟨old,hold,hrow,hp.1⟩

section

variable [ScheduleRuntime]

theorem create_runs {ownerTimezone : String} {arguments : Dict}
    (h : create s ownerTimezone arguments now = .ok s') : s'.runs = s.runs := by
  obtain ⟨row,_,h⟩ := accepted h
  rw [← Except.ok.inj h]

theorem update_runs {arguments : Dict} (h : update s arguments now = .ok s') :
    s'.runs = s.runs := by
  obtain ⟨⟨id,row⟩,_,h⟩ := accepted h
  obtain ⟨row',_,h⟩ := accepted h
  rw [← Except.ok.inj h]
  rfl

theorem delete_runs {arguments : Dict} (h : delete s arguments = .ok s') : s'.runs = s.runs := by
  obtain ⟨⟨id,row⟩,_,h⟩ := accepted h
  rw [← Except.ok.inj h]
  rfl

/-- A schedule whose occurrence was queued, its row advanced. -/
structure Fired (s s' : Ledger) (taskId : ℕ) (task : ScheduledTaskRow) (snapshot : Dict)
    (t now : Instant) : Prop where
  free : taken s taskId t = false
  runs : ∃ row : RunRow, s'.runs = s.runs ++ [row] ∧
    row.occurrence = ⟨some taskId,some t,snapshot⟩ ∧ row.status = .queued
  schedules : ∃ row, advanceBeforeRun task now = .ok row ∧
    s'.schedules = s.schedules.modify taskId fun _ => {row with lastStatus := some .queued}

theorem fired {u : Ledger} (hqueue : queueOccurrence s taskId task snapshot t now = .ok u)
    (hadvance : advanceTask u taskId task now = .ok s') :
    Fired s s' taskId task snapshot t now := by
  have hqueued := queueOccurrence_ok hqueue
  obtain ⟨row,hrow,rfl⟩ := map_accepted hadvance
  refine ⟨hqueued.free,hqueued.runs,row,hrow,?_⟩
  rw [← hqueued.schedules]
  rfl

theorem claimTask_ok (h : claimTask now s taskId = .ok s') :
    (s' = s ∧ ∀ task, s.schedules[taskId]? = some task → outstanding s taskId = true) ∨
      ∃ task, s.schedules[taskId]? = some task ∧ outstanding s taskId = false ∧
        Fired s s' taskId task (dueSnapshot taskId task) task.nextRunAt now := by
  simp only [claimTask] at h
  split at h
  · next hnone =>
    exact Or.inl ⟨(Except.ok.inj h).symm,fun task htask => by rw [hnone] at htask; cases htask⟩
  · next task htask =>
    split at h
    · next hbusy => exact Or.inl ⟨(Except.ok.inj h).symm,fun _ _ => hbusy⟩
    · next hidle =>
      obtain ⟨u,hu,h⟩ := accepted h
      exact Or.inr ⟨task,htask,by simpa using hidle,fired hu h⟩

/-- One schedule of the inner loop: it is not woken, it is busy, or it is queued. -/
theorem wakeTask_ok {id : ℕ} {row : NotificationRow} {w : Waiter} {d d' : Bool}
    (h : wakeTask now id row (s,d) w = .ok (s',d')) :
    (w.wakes s id row = false ∧ s' = s ∧ d' = d) ∨
      (w.wakes s id row = true ∧ outstanding s w.taskId = true ∧ s' = s ∧ d' = true) ∨
      w.wakes s id row = true ∧ outstanding s w.taskId = false ∧ d' = d ∧
        ∃ t, row.createdAt ≤ t ∧
          (∀ bound, row.createdAt ≤ bound → (∀ u, taken s w.taskId u = true → u < bound) →
            t ≤ bound) ∧
          Fired s s' w.taskId w.task (eventSnapshot w id row t) t now := by
  simp only [wakeTask] at h
  split at h
  · next hnot =>
    obtain ⟨rfl,rfl⟩ := Prod.mk.inj (Except.ok.inj h)
    exact Or.inl ⟨hnot,rfl,rfl⟩
  · next hwakes =>
    rw [Bool.not_eq_false] at hwakes
    split at h
    · next hbusy =>
      obtain ⟨rfl,rfl⟩ := Prod.mk.inj (Except.ok.inj h)
      exact Or.inr (Or.inl ⟨hwakes,hbusy,rfl,rfl⟩)
    · next hidle =>
      obtain ⟨u,hu,h⟩ := accepted h
      obtain ⟨v,hv,h⟩ := accepted h
      obtain ⟨rfl,rfl⟩ := Prod.mk.inj (Except.ok.inj h)
      refine Or.inr (Or.inr ⟨hwakes,by simpa using hidle,rfl,_,firstFree_ge _ _ _,?_,fired hu hv⟩)
      exact fun bound hrow hbound =>
        firstFree_le _ _ (fun u hu => hbound u (mem_takenTimes.mp hu)) _ hrow

theorem wakeNotification_ok {ws : List Waiter} {started : Instant}
    {rows rows' : List NotificationRow} {id : ℕ}
    (h : wakeNotification ws started now (s,rows) id = .ok (s',rows')) :
    (rows[id]? = none ∧ s' = s ∧ rows' = rows) ∨ ∃ row d, rows[id]? = some row ∧
      ws.foldlM (wakeTask now id row) (s,false) = .ok (s',d) ∧
      (d = true ∧ rows' = rows ∨ d = false ∧ rows' = rows.modify id (claimWake started)) := by
  simp only [wakeNotification] at h
  split at h
  · next hnone =>
    obtain ⟨rfl,rfl⟩ := Prod.mk.inj (Except.ok.inj h)
    exact Or.inl ⟨hnone,rfl,rfl⟩
  · next row hrow =>
    obtain ⟨⟨u,d⟩,hfold,h⟩ := accepted h
    simp only [] at h
    split at h
    · next hd =>
      obtain ⟨rfl,rfl⟩ := Prod.mk.inj (Except.ok.inj h)
      exact Or.inr ⟨row,d,hrow,hfold,Or.inl ⟨hd,rfl⟩⟩
    · next hd =>
      obtain ⟨rfl,rfl⟩ := Prod.mk.inj (Except.ok.inj h)
      exact Or.inr ⟨row,d,hrow,hfold,Or.inr ⟨by simpa using hd,rfl⟩⟩

end

end Schedules
end Atlas
