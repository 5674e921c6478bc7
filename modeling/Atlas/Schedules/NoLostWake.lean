import Atlas.Schedules.WakeOnce

/-! What a poll that claims a notification leaves behind for the schedules that it matches. -/
namespace Atlas
namespace Schedules

open Actions Notifications RowTable

/-- Runs were only added. -/
def Grown (s s' : Ledger) : Prop := ∃ rows, s'.runs = s.runs ++ rows

namespace Grown

variable {s s' u : Ledger} {taskId id : ℕ} {row : NotificationRow}

theorem refl (s : Ledger) : Grown s s := ⟨[],by rw [List.append_nil]⟩

theorem trans (h : Grown s s') (h' : Grown s' u) : Grown s u := by
  obtain ⟨rows,hrows⟩ := h
  obtain ⟨more,hmore⟩ := h'
  exact ⟨rows ++ more,by rw [hmore,hrows,List.append_assoc]⟩

theorem runsFor (h : Grown s s') (hruns : runsFor s taskId id ≠ 0) :
    Schedules.runsFor s' taskId id ≠ 0 := by
  obtain ⟨rows,hrows⟩ := h
  rw [Schedules.runsFor,Ledger.occurrences,hrows,List.map_append,List.countP_append]
  rw [Schedules.runsFor,Ledger.occurrences] at hruns
  omega

theorem ownEvent (h : Grown s s') (hown : ownEvent s taskId row = true) :
    Schedules.ownEvent s' taskId row = true := by
  obtain ⟨rows,hrows⟩ := h
  obtain ⟨origin,horigin,hid⟩ := (Option.any_eq_true _ _).mp hown
  obtain ⟨runId,hrun,hrow⟩ := Option.bind_eq_some_iff.mp horigin
  have hrow' : s'.runs[runId]? = some origin := by
    rw [hrows,List.getElem?_append_left (List.getElem?_eq_some_iff.mp hrow).1]
    exact hrow
  simp [Schedules.ownEvent,hrun,hrow',hid]

end Grown

/-- What a filter and the age of a schedule are read from. -/
def SameTerms (a b : ScheduledTaskRow) : Prop :=
  a.scheduleValue = b.scheduleValue ∧ a.createdAt = b.createdAt

section

variable {ws : List Waiter} {s s' : Ledger}

/-- The schedules other than those of a poll are left alone, and those keep their terms. -/
structure Kept (ws : List Waiter) (s s' : Ledger) : Prop where
  others : ∀ i, (∀ w ∈ ws, w.taskId ≠ i) → s'.schedules[i]? = s.schedules[i]?
  terms : ∀ (i : ℕ) (task : ScheduledTaskRow), s'.schedules[i]? = some task →
    s.schedules[i]? = some task ∨ ∃ w ∈ ws, w.taskId = i ∧ SameTerms task w.task

theorem Kept.refl (ws : List Waiter) (s : Ledger) : Kept ws s s :=
  ⟨fun _ _ => rfl,fun _ _ h => Or.inl h⟩

theorem Kept.trans {u : Ledger} (h : Kept ws s s') (h' : Kept ws s' u) : Kept ws s u := by
  refine ⟨fun i hi => (h'.others i hi).trans (h.others i hi),fun i task htask => ?_⟩
  rcases h'.terms i task htask with hs | hw
  · exact h.terms i task hs
  · exact Or.inr hw

end

section

variable [ScheduleRuntime] {s s' : Ledger} {ws : List Waiter} {started now : Instant}

/-- A schedule that a notification is not to wake, or that has its run for it. -/
def Served (s : Ledger) (w : Waiter) (id : ℕ) (row : NotificationRow) : Prop :=
  w.wakes s id row = false ∨ runsFor s w.taskId id ≠ 0

theorem Served.grown {w : Waiter} {id : ℕ} {row : NotificationRow} (h : Served s w id row)
    (hg : Grown s s') : Served s' w id row := by
  rcases h with h | h
  · left
    rw [Bool.eq_false_iff] at h ⊢
    intro hwakes
    obtain ⟨rows,hrows⟩ := hg
    exact h (Waiter.wakes_mono hrows hwakes)
  · exact Or.inr (hg.runsFor h)

theorem advanceBeforeRun_terms {task row : ScheduledTaskRow}
    (h : advanceBeforeRun task now = .ok row) : SameTerms row task := by
  simp only [advanceBeforeRun] at h
  split at h
  · rw [← Except.ok.inj h]
    exact ⟨rfl,rfl⟩
  · split at h
    · rw [← Except.ok.inj h]
      exact ⟨rfl,rfl⟩
    · obtain ⟨due,_,rfl⟩ := map_accepted h
      exact ⟨rfl,rfl⟩

theorem Fired.getElem? {taskId : ℕ} {task : ScheduledTaskRow} {snapshot : Dict} {t : Instant}
    (h : Fired s s' taskId task snapshot t now) (i : ℕ) :
    (i ≠ taskId ∧ s'.schedules[i]? = s.schedules[i]?) ∨ i = taskId ∧
      ∀ row, s'.schedules[i]? = some row → SameTerms row task := by
  obtain ⟨row,hrow,hs⟩ := h.schedules
  by_cases hi : i = taskId
  · refine Or.inr ⟨hi,fun x hx => ?_⟩
    subst hi
    rw [hs,getElem?_modify_self] at hx
    obtain ⟨_,_,rfl⟩ := Option.map_eq_some_iff.mp hx
    have hterms := advanceBeforeRun_terms hrow
    exact ⟨hterms.1,hterms.2⟩
  · refine Or.inl ⟨hi,?_⟩
    rw [hs,getElem?_modify_ne _ _ (Ne.symm hi)]

/-- What one schedule of the inner loop leaves behind. -/
theorem wakeTask_served {id : ℕ} {row : NotificationRow} {w : Waiter} {d d' : Bool} (hw : w ∈ ws)
    (h : wakeTask now id row (s,d) w = .ok (s',d')) :
    Grown s s' ∧ Kept ws s s' ∧ (d' = false → d = false ∧ Served s' w id row) := by
  rcases wakeTask_ok h with ⟨hnot,rfl,rfl⟩ | ⟨_,_,rfl,rfl⟩ | ⟨_,_,rfl,t,_,_,hfired⟩
  · exact ⟨Grown.refl _,Kept.refl _ _,fun hd => ⟨hd,Or.inl hnot⟩⟩
  · exact ⟨Grown.refl _,Kept.refl _ _,fun hd => by cases hd⟩
  · obtain ⟨run,hruns,hrun,_⟩ := hfired.runs
    refine ⟨⟨[run],hruns⟩,⟨fun i hi => ?_,fun i task htask => ?_⟩,fun hd => ⟨hd,Or.inr ?_⟩⟩
    · rcases hfired.getElem? i with ⟨_,he⟩ | ⟨rfl,_⟩
      · exact he
      · exact absurd rfl (hi w hw)
    · rcases hfired.getElem? i with ⟨_,he⟩ | ⟨rfl,hterms⟩
      · exact Or.inl (he ▸ htask)
      · exact Or.inr ⟨w,hw,rfl,hterms task htask⟩
    · rw [runsFor_append hruns,hrun]
      simp [isFor,text_eventSnapshot]

theorem wakeTasks_served {id : ℕ} {row : NotificationRow} (l : List Waiter) :
    ∀ {s s' : Ledger} {d d' : Bool}, (∀ w ∈ l, w ∈ ws) →
    l.foldlM (wakeTask now id row) (s,d) = .ok (s',d') →
    Grown s s' ∧ Kept ws s s' ∧ (d' = false → d = false ∧ ∀ w ∈ l, Served s' w id row) := by
  induction l with
  | nil =>
    intro s s' d d' _ h
    obtain ⟨rfl,rfl⟩ := Prod.mk.inj (Except.ok.inj h)
    exact ⟨Grown.refl _,Kept.refl _ _,fun hd => ⟨hd,fun w hw => by cases hw⟩⟩
  | cons w l ih =>
    intro s s' d d' hl h
    rw [List.foldlM_cons] at h
    obtain ⟨⟨u,e⟩,hu,h⟩ := accepted h
    obtain ⟨hgrown,hkept,hserved⟩ := wakeTask_served (hl w List.mem_cons_self) hu
    obtain ⟨hgrown',hkept',hrest⟩ := ih (fun x hx => hl x (List.mem_cons_of_mem _ hx)) h
    refine ⟨hgrown.trans hgrown',hkept.trans hkept',fun hd => ?_⟩
    obtain ⟨he,hall⟩ := hrest hd
    obtain ⟨hd,hfirst⟩ := hserved he
    refine ⟨hd,fun x hx => ?_⟩
    rcases List.mem_cons.mp hx with rfl | hx
    · exact hfirst.grown hgrown'
    · exact hall x hx

/-- What the loop over the notifications leaves of each: it is as before, or it is claimed and
every schedule is served. -/
theorem wakeNotifications_served (l : List ℕ) : ∀ {s s' : Ledger}
    {rows rows' : List NotificationRow}, l.Nodup →
    l.foldlM (wakeNotification ws started now) (s,rows) = .ok (s',rows') →
    Grown s s' ∧ Kept ws s s' ∧ ∀ id, rows'[id]? = rows[id]? ∨ (id ∈ l ∧ ∃ row,
      rows[id]? = some row ∧ rows'[id]? = some (claimWake started row) ∧
        ∀ w ∈ ws, Served s' w id row) := by
  induction l with
  | nil =>
    intro s s' rows rows' _ h
    obtain ⟨rfl,rfl⟩ := Prod.mk.inj (Except.ok.inj h)
    exact ⟨Grown.refl _,Kept.refl _ _,fun id => Or.inl rfl⟩
  | cons i l ih =>
    intro s s' rows rows' hnodup h
    rw [List.nodup_cons] at hnodup
    rw [List.foldlM_cons] at h
    obtain ⟨⟨u,next⟩,hu,h⟩ := accepted h
    obtain ⟨hgrown',hkept',hrest⟩ := ih hnodup.2 h
    have hfirst : Grown s u ∧ Kept ws s u ∧ (next[i]? = rows[i]? ∨ ∃ row, rows[i]? = some row ∧
        next[i]? = some (claimWake started row) ∧ ∀ w ∈ ws, Served u w i row) := by
      rcases wakeNotification_ok hu with ⟨_,rfl,rfl⟩ | ⟨row,d,hrow,hfold,hnext⟩
      · exact ⟨Grown.refl _,Kept.refl _ _,Or.inl rfl⟩
      · obtain ⟨hgrown,hkept,hserved⟩ := wakeTasks_served ws (fun w hw => hw) hfold
        refine ⟨hgrown,hkept,?_⟩
        rcases hnext with ⟨_,rfl⟩ | ⟨rfl,rfl⟩
        · exact Or.inl rfl
        · exact Or.inr ⟨row,hrow,by rw [getElem?_modify_self,hrow,Option.map_some],
            (hserved rfl).2⟩
    obtain ⟨hgrown,hkept,hat⟩ := hfirst
    refine ⟨hgrown.trans hgrown',hkept.trans hkept',fun id => ?_⟩
    by_cases hid : id = i
    · subst hid
      have hkeep : rows'[id]? = next[id]? := (hrest id).resolve_right fun hl => hnodup.1 hl.1
      rw [hkeep]
      rcases hat with he | ⟨row,hrow,hclaimed,hserved⟩
      · exact Or.inl he
      · exact Or.inr ⟨List.mem_cons_self,row,hrow,hclaimed,fun w hw =>
          (hserved w hw).grown hgrown'⟩
    · rw [← wakeNotification_others hu hid]
      exact (hrest id).imp_right fun hl => ⟨List.mem_cons_of_mem _ hl.1,hl.2⟩

/-- A poll claims a notification only when it is too old or every schedule of the poll is served. -/
theorem claimEvents_served {locked : ℕ → Bool} {rows rows' : List NotificationRow}
    (h : claimEvents ws locked started now s rows = .ok (s',rows')) :
    Grown s s' ∧ Kept ws s s' ∧ ∀ (id : ℕ) (row row' : NotificationRow), rows[id]? = some row →
      row.wakeClaimedAt = none → rows'[id]? = some row' → row'.wakeClaimedAt ≠ none →
      row' = claimWake started row ∧
        (row.createdAt < started - eventWakeMaxAge ∨ ∀ w ∈ ws, Served s' w id row) := by
  have hexpired : ∀ (id : ℕ) (row row' : NotificationRow), rows[id]? = some row →
      row.wakeClaimedAt = none → (expireWakes started rows)[id]? = some row' →
      row' = row ∨ (row' = claimWake started row ∧
        row.createdAt < started - eventWakeMaxAge) := by
    intro id row row' hrow hnone hrow'
    rw [expireWakes_getElem?,hrow,Option.map_some,Option.some.injEq] at hrow'
    split at hrow'
    · next hold =>
      simp only [Bool.and_eq_true,decide_eq_true_eq] at hold
      exact Or.inr ⟨hrow'.symm,hold.2⟩
    · exact Or.inl hrow'.symm
  simp only [claimEvents] at h
  split at h
  · next hempty =>
    obtain ⟨rfl,rfl⟩ := Prod.mk.inj (Except.ok.inj h)
    refine ⟨Grown.refl _,Kept.refl _ _,fun id row row' hrow hnone hrow' hsome => ?_⟩
    rcases hexpired id row row' hrow hnone hrow' with rfl | ⟨hclaimed,hold⟩
    · exact absurd hnone hsome
    · exact ⟨hclaimed,Or.inl hold⟩
  · obtain ⟨hgrown,hkept,hat⟩ := wakeNotifications_served _ (nodup_pendingWakes _ _ _) h
    refine ⟨hgrown,hkept,fun id row row' hrow hnone hrow' hsome => ?_⟩
    rcases hat id with he | ⟨hid,old,hold,hclaimed,hserved⟩
    · rw [he] at hrow'
      rcases hexpired id row row' hrow hnone hrow' with rfl | ⟨hclaimed,hage⟩
      · exact absurd hnone hsome
      · exact ⟨hclaimed,Or.inl hage⟩
    · obtain ⟨first,hfirst,hkeep,_⟩ := mem_pendingWakes hid
      obtain rfl := Option.some.inj (hfirst.symm.trans hrow)
      obtain rfl := Option.some.inj (hkeep.symm.trans hold)
      obtain rfl := Option.some.inj (hclaimed.symm.trans hrow')
      exact ⟨rfl,Or.inr hserved⟩

theorem claimTask_others {taskId i : ℕ} (h : claimTask now s taskId = .ok s') (hi : i ≠ taskId) :
    s'.schedules[i]? = s.schedules[i]? := by
  rcases claimTask_ok h with ⟨rfl,_⟩ | ⟨task,_,_,hfired⟩
  · rfl
  · rcases hfired.getElem? i with ⟨_,he⟩ | ⟨he,_⟩
    · exact he
    · exact absurd he hi

/-- A poll for what is due leaves the schedules that are locked alone. -/
theorem claimDue_others {locked : ℕ → Bool} (h : claimDue s locked now = .ok s') {i : ℕ}
    (hi : locked i = true) : s'.schedules[i]? = s.schedules[i]? := by
  have hfold : ∀ (l : List ℕ) {s s' : Ledger}, i ∉ l → l.foldlM (claimTask now) s = .ok s' →
      s'.schedules[i]? = s.schedules[i]? := by
    intro l
    induction l with
    | nil =>
      intro s s' _ h
      rw [Except.ok.inj h]
    | cons id l ih =>
      intro s s' hnot h
      rw [List.mem_cons,not_or] at hnot
      rw [List.foldlM_cons] at h
      obtain ⟨u,hu,h⟩ := accepted h
      rw [ih hnot.2 h,claimTask_others hu hnot.1]
  refine hfold _ (fun hmem => ?_) h
  have hmem := List.mem_of_mem_take hmem
  rw [List.mem_insertionSort,List.mem_filter,hi] at hmem
  exact absurd hmem.2 (by decide)

theorem create_others {ownerTimezone : String} {arguments : Dict} {i : ℕ} {task : ScheduledTaskRow}
    (h : create s ownerTimezone arguments now = .ok s') (hi : s.schedules[i]? = some task) :
    s'.schedules[i]? = some task := by
  obtain ⟨row,_,h⟩ := accepted h
  rw [← Except.ok.inj h]
  exact getElem?_insert_of_some hi

theorem update_others {arguments : Dict} (h : update s arguments now = .ok s') :
    ∃ taskId row, getTask s arguments = .ok (taskId,row) ∧
      ∀ i, i ≠ taskId → s'.schedules[i]? = s.schedules[i]? := by
  obtain ⟨⟨taskId,row⟩,hget,h⟩ := accepted h
  obtain ⟨row',_,h⟩ := accepted h
  refine ⟨taskId,row,hget,fun i hi => ?_⟩
  rw [← Except.ok.inj h]
  exact getElem?_modify_ne _ _ (Ne.symm hi)

theorem delete_others {arguments : Dict} (h : delete s arguments = .ok s') :
    ∃ taskId row, getTask s arguments = .ok (taskId,row) ∧
      ∀ i, i ≠ taskId → s'.schedules[i]? = s.schedules[i]? := by
  obtain ⟨⟨taskId,row⟩,hget,h⟩ := accepted h
  refine ⟨taskId,row,hget,fun i hi => ?_⟩
  rw [← Except.ok.inj h]
  exact getElem?_modify_ne _ _ (Ne.symm hi)

end

namespace Watch

/-- The schedules that open polls hold are as the polls read them, and no two polls hold one. -/
structure Locks (m : Watch) : Prop where
  current : ∀ (k : ℕ) (p : Poll), m.polls[k]? = some (some p) → ∀ entry ∈ p.tasks,
    m.ledger.plans[entry.1]? = some entry.2.plan
  apart : ∀ (j k : ℕ) (p q : Poll), m.polls[j]? = some (some p) → m.polls[k]? = some (some q) →
    j ≠ k → ∀ a ∈ p.tasks, ∀ b ∈ q.tasks, a.1 ≠ b.1

theorem polled_of_mem {m : Watch} {k : ℕ} {p : Poll} (hp : m.polls[k]? = some (some p))
    {entry : ℕ × ScheduledTaskRow} (hentry : entry ∈ p.tasks) : m.polled entry.1 = true := by
  rw [polled,List.any_eq_true]
  refine ⟨some p,List.mem_of_getElem? hp,?_⟩
  rw [Option.any_some,List.any_eq_true]
  exact ⟨entry,hentry,beq_self_eq_true _⟩

variable {m m' : Watch}

/-- A step that leaves the polls and what they hold alone. -/
theorem Locks.same (h : m.Locks) (hpolls : m'.polls = m.polls)
    (hplans : ∀ i task, m.polled i = true → m.ledger.plans[i]? = some task →
      m'.ledger.plans[i]? = some task) : m'.Locks where
  current := fun k p hp entry hentry => by
    rw [hpolls] at hp
    exact hplans _ _ (polled_of_mem hp hentry) (h.current k p hp entry hentry)
  apart := by
    rw [hpolls]
    exact h.apart

theorem plans_of_schedules {s s' : Ledger} {i : ℕ} (h : s'.schedules[i]? = s.schedules[i]?) :
    s'.plans[i]? = s.plans[i]? := by
  rw [Ledger.plans_getElem?,h,Ledger.plans_getElem?]

/-- A poll that ends. -/
theorem Locks.close (h : m.Locks) (poll : ℕ) (hpolls : m'.polls = m.polls.modify poll fun _ => none)
    (hplans : ∀ k p, k ≠ poll → m.polls[k]? = some (some p) → ∀ entry ∈ p.tasks,
      m'.ledger.plans[entry.1]? = m.ledger.plans[entry.1]?) : m'.Locks := by
  have hopen : ∀ {k p}, m'.polls[k]? = some (some p) → k ≠ poll ∧ m.polls[k]? = some (some p) := by
    intro k p hp
    rw [hpolls] at hp
    by_cases hk : k = poll
    · subst hk
      rw [getElem?_modify_self] at hp
      obtain ⟨_,_,hx⟩ := Option.map_eq_some_iff.mp hp
      cases hx
    · rw [getElem?_modify_ne _ _ (Ne.symm hk)] at hp
      exact ⟨hk,hp⟩
  constructor
  · intro k p hp entry hentry
    obtain ⟨hk,hp⟩ := hopen hp
    rw [hplans k p hk hp entry hentry]
    exact h.current k p hp entry hentry
  · intro j k p q hp hq
    exact h.apart j k p q (hopen hp).2 (hopen hq).2

variable [ScheduleRuntime]

theorem mem_waiters {tasks : List (ℕ × ScheduledTaskRow)} {w : Waiter} (h : w ∈ waiters tasks) :
    (w.taskId,w.task) ∈ tasks ∧ parseEventFilter w.task.scheduleValue = .ok w.filter := by
  obtain ⟨entry,hentry,hw⟩ := List.mem_filterMap.mp h
  split at hw
  · next filter hfilter =>
    obtain rfl := Option.some.inj hw
    exact ⟨hentry,hfilter⟩
  · cases hw

theorem waiter_mem {tasks : List (ℕ × ScheduledTaskRow)} {taskId : ℕ} {task : ScheduledTaskRow}
    {filter : EventFilter} (h : (taskId,task) ∈ tasks)
    (hfilter : parseEventFilter task.scheduleValue = .ok filter) :
    ⟨taskId,task,filter⟩ ∈ waiters tasks :=
  List.mem_filterMap.mpr ⟨_,h,by rw [hfilter]⟩

theorem Locks.request (h : m.Locks) {arguments : Dict} {result : Except Refusal Ledger}
    (hresult : ∀ s, result = .ok s → ∃ taskId row, getTask m.ledger arguments = .ok (taskId,row) ∧
      ∀ i, i ≠ taskId → s.schedules[i]? = m.ledger.schedules[i]?) :
    (m.request arguments result).Locks := by
  simp only [Watch.request]
  split
  · exact h
  · next hwaits =>
    split
    · exact h
    · next s =>
      obtain ⟨taskId,row,hget,hothers⟩ := hresult s rfl
      refine h.same rfl fun i task hi htask => ?_
      rw [← htask]
      refine plans_of_schedules (hothers i ?_)
      rintro rfl
      simp [waits,hget,hi] at hwaits

theorem locks_step {ownerTimezone : String} (h : m.Locks) (e : WatchStep × ℕ) :
    (m.step ownerTimezone e).Locks := by
  obtain ⟨a,later⟩ := e
  have hsame : ∀ {m' : Watch}, m'.polls = m.polls → m'.ledger = m.ledger → m'.Locks := by
    intro m' hpolls hledger
    exact h.same hpolls fun i task _ htask => by rw [hledger]; exact htask
  have hclock : ∀ {m' : Watch} (now : Instant), m'.Locks → {m' with clock := now}.Locks :=
    fun now hm => ⟨hm.current,hm.apart⟩
  refine hclock _ ?_
  cases a with
  | work op =>
    simp only [act]
    split
    · exact h
    · next hop =>
      refine h.same rfl fun i task _ htask => ?_
      simp only [Ledger.step]
      split
      · next s hs =>
        rw [(Ledger.apply_aside (by simpa using hop) hs).plans]
        exact htask
      · exact htask
  | create arguments =>
    simp only [act]
    split
    · exact h
    · next s hs =>
      refine h.same rfl fun i task _ htask => ?_
      rw [Ledger.plans_getElem?] at htask ⊢
      obtain ⟨row,hrow,rfl⟩ := Option.map_eq_some_iff.mp htask
      rw [create_others hs hrow]
      rfl
  | lock taskId =>
    simp only [act]
    split
    · exact h
    · exact hsame rfl rfl
  | unlock taskId => exact hsame rfl rfl
  | update arguments => exact h.request fun s hs => update_others hs
  | delete arguments => exact h.request fun s hs => delete_others hs
  | announce row =>
    simp only [act]
    split
    · exact hsame rfl rfl
    · exact h
  | amend id change => exact hsame rfl rfl
  | claimDue skipped =>
    simp only [act]
    split
    · exact h
    · next s hs =>
      refine h.same rfl fun i task hi htask => ?_
      rw [← htask]
      refine plans_of_schedules (claimDue_others hs ?_)
      simp [passedBy,locked,hi]
  | select =>
    have hnew : ∀ entry ∈ eventTasks m.ledger m.locked,
        m.ledger.schedules[entry.1]? = some entry.2 ∧ m.polled entry.1 = false := by
      intro entry hentry
      obtain ⟨id,hid,hmade⟩ := List.mem_filterMap.mp hentry
      obtain ⟨row,hrow,rfl⟩ := Option.map_eq_some_iff.mp hmade
      have hfree := (List.mem_filter.mp hid).2
      simp only [locked,Bool.not_eq_true',Bool.or_eq_false_iff] at hfree
      exact ⟨hrow,hfree.2⟩
    have hat : ∀ {k : ℕ} {p : Poll}, (m.polls ++ [some {
        started := m.clock + later + 1, tasks := eventTasks m.ledger m.locked}])[k]? =
          some (some p) → m.polls[k]? = some (some p) ∧ k ≠ m.polls.length ∨
        k = m.polls.length ∧ p.tasks = eventTasks m.ledger m.locked := by
      intro k p hp
      rw [getElem?_insert] at hp
      by_cases hk : k = m.polls.length
      · rw [if_pos hk] at hp
        rw [← Option.some.inj (Option.some.inj hp)]
        exact Or.inr ⟨hk,rfl⟩
      · rw [if_neg hk] at hp
        exact Or.inl ⟨hp,hk⟩
    have hapart : ∀ {k : ℕ} {p : Poll}, m.polls[k]? = some (some p) → ∀ a ∈ p.tasks,
        ∀ b ∈ eventTasks m.ledger m.locked, a.1 ≠ b.1 := by
      intro k p hp a ha b hb he
      have hheld := polled_of_mem hp ha
      rw [he,(hnew b hb).2] at hheld
      cases hheld
    constructor
    · intro k p hp entry hentry
      rcases hat hp with ⟨hp,_⟩ | ⟨_,htasks⟩
      · exact h.current k p hp entry hentry
      · rw [htasks] at hentry
        show m.ledger.plans[entry.1]? = _
        rw [Ledger.plans_getElem?,(hnew entry hentry).1]
        rfl
    · intro j k p q hp hq hjk a ha b hb
      rcases hat hp with ⟨hp,_⟩ | ⟨hj,htasks⟩
      · rcases hat hq with ⟨hq,_⟩ | ⟨_,htasks⟩
        · exact h.apart j k p q hp hq hjk a ha b hb
        · exact hapart hp a ha b (htasks ▸ hb)
      · rcases hat hq with ⟨hq,_⟩ | ⟨hk,_⟩
        · exact Ne.symm (hapart hq b hb a (htasks ▸ ha))
        · exact absurd (hj.trans hk.symm) hjk
  | wake poll skipped =>
    simp only [act]
    split
    · exact h
    · next p hp =>
      have hopen : m.polls[poll]? = some (some p) := Option.join_eq_some_iff.mp hp
      split
      · exact h.close poll rfl fun k q _ _ entry _ => rfl
      · next s rows hs =>
        refine h.close poll rfl fun k q hk hq entry hentry => ?_
        refine plans_of_schedules ((claimEvents_served hs).2.1.others _ fun w hw => ?_)
        exact h.apart poll k p q hopen hq (Ne.symm hk) (w.taskId,w.task) (mem_waiters hw).1 entry
          hentry
  | rollback poll => exact h.close poll rfl fun k q _ _ entry _ => rfl

/-- An event schedule that is enabled, with its filter. -/
def Awaits (s : Ledger) (w : Waiter) : Prop :=
  s.schedules[w.taskId]? = some w.task ∧ w.task.deleted = false ∧ w.task.enabled = true ∧
    w.task.scheduleKind = "event" ∧ parseEventFilter w.task.scheduleValue = .ok w.filter

/-- A poll that ends holds every event schedule that an unclaimed notification is to wake. -/
def Covers (m : Watch) (e : WatchStep × ℕ) : Prop :=
  match e.1 with
  | .wake poll _ => ∀ p, m.polls[poll]?.join = some p → ∀ w, Awaits m.ledger w →
      (∃ entry ∈ p.tasks, entry.1 = w.taskId) ∨ ∀ id row, m.notifications[id]? = some row →
        row.wakeClaimedAt = none → w.wakes m.ledger id row = false
  | _ => True

/-- A notification is claimed only if every event schedule that it matches has a run for it, or it
is superseded, too old to wake anything, older than the schedule or the schedule's own. -/
def NoneLost (m m' : Watch) : Prop :=
  ∀ (id : ℕ) (row row' : NotificationRow), m.notifications[id]? = some row →
    row.wakeClaimedAt = none → m'.notifications[id]? = some row' →
    ∀ started, row'.wakeClaimedAt = some started → ∀ w, Awaits m'.ledger w →
      w.filter.matches (projectNotification id row') = true →
      runsFor m'.ledger w.taskId id ≠ 0 ∨ row'.status = .superseded ∨
        row'.createdAt < started - eventWakeMaxAge ∨ row'.createdAt < w.task.createdAt ∨
        ownEvent m'.ledger w.taskId row' = true

/-- Why a notification that a filter matches is not to wake its schedule. -/
theorem not_wakes {w : Waiter} {s : Ledger} {id : ℕ} {row : NotificationRow}
    (h : w.wakes s id row = false)
    (hmatches : w.filter.matches (projectNotification id row) = true) :
    row.status = .superseded ∨ row.createdAt < w.task.createdAt ∨
      ownEvent s w.taskId row = true := by
  by_contra hnot
  simp only [not_or,Bool.not_eq_true] at hnot
  obtain ⟨hstatus,hage,hown⟩ := hnot
  simp [Waiter.wakes,hmatches,hstatus,hown,hage] at h

/-- The terms of a schedule that an open poll holds. -/
theorem Locks.terms (h : m.Locks) {k : ℕ} {p : Poll} (hp : m.polls[k]? = some (some p))
    {entry : ℕ × ScheduledTaskRow} (hentry : entry ∈ p.tasks) {s : Ledger}
    (hkept : Kept (waiters p.tasks) m.ledger s) {task : ScheduledTaskRow}
    (htask : s.schedules[entry.1]? = some task) : SameTerms task entry.2 := by
  have hplan : ∀ {x : ℕ × ScheduledTaskRow}, x ∈ p.tasks → x.1 = entry.1 →
      x.2.plan = entry.2.plan := by
    intro x hx hid
    have hcurrent := h.current k p hp x hx
    rw [hid,h.current k p hp entry hentry] at hcurrent
    exact (Option.some.inj hcurrent).symm
  have hterms : ∀ {a b : ScheduledTaskRow}, a.plan = b.plan → SameTerms a b := fun hab =>
    have hvalue := congrArg ScheduledTaskRow.scheduleValue hab
    have hcreated := congrArg ScheduledTaskRow.createdAt hab
    ⟨hvalue,hcreated⟩
  rcases hkept.terms _ _ htask with hold | ⟨w,hw,hid,hsame⟩
  · have hcurrent := h.current k p hp entry hentry
    rw [Ledger.plans_getElem?,hold] at hcurrent
    exact hterms (Option.some.inj hcurrent)
  · have hheld := hterms (hplan (mem_waiters hw).1 hid)
    exact ⟨hsame.1.trans hheld.1,hsame.2.trans hheld.2⟩

/-- The commit of a poll that covers what is to be woken. -/
theorem noneLost_wake (h : m.Locks) {poll : ℕ} {p : Poll} (hp : m.polls[poll]? = some (some p))
    (hcovers : ∀ w, Awaits m.ledger w → (∃ entry ∈ p.tasks, entry.1 = w.taskId) ∨
      ∀ id row, m.notifications[id]? = some row → row.wakeClaimedAt = none →
        w.wakes m.ledger id row = false)
    {locked : ℕ → Bool} {now : Instant}
    (hc : claimEvents (waiters p.tasks) locked p.started now m.ledger m.notifications =
      .ok (m'.ledger,m'.notifications)) : NoneLost m m' := by
  obtain ⟨hgrown,hkept,hat⟩ := claimEvents_served hc
  intro id row row' hrow hnone hrow' started hstarted w hawaits hmatches
  obtain ⟨rfl,hserved⟩ := hat id row row' hrow hnone hrow' (by rw [hstarted]; simp)
  obtain rfl : p.started = started := Option.some.inj hstarted
  have hmatches : w.filter.matches (projectNotification id row) = true := hmatches
  rcases hserved with hage | hserved
  · exact Or.inr (Or.inr (Or.inl hage))
  obtain ⟨htask,hdeleted,henabled,hkind,hfilter⟩ := hawaits
  by_cases hin : ∃ entry ∈ p.tasks, entry.1 = w.taskId
  · obtain ⟨⟨taskId,stored⟩,hentry,hid⟩ := hin
    obtain rfl : taskId = w.taskId := hid
    obtain ⟨hvalue,hcreated⟩ := h.terms hp hentry hkept htask
    have hvalue : w.task.scheduleValue = stored.scheduleValue := hvalue
    have hcreated : w.task.createdAt = stored.createdAt := hcreated
    have hwaiter := waiter_mem hentry (by rw [← hvalue]; exact hfilter)
    rcases hserved _ hwaiter with hnot | hruns
    · rcases not_wakes hnot hmatches with hs | hage | hown
      · exact Or.inr (Or.inl hs)
      · refine Or.inr (Or.inr (Or.inr (Or.inl ?_)))
        rw [hcreated]
        exact hage
      · exact Or.inr (Or.inr (Or.inr (Or.inr hown)))
    · exact Or.inl hruns
  · have hsame : m'.ledger.schedules[w.taskId]? = m.ledger.schedules[w.taskId]? :=
      hkept.others _ fun x hx he => hin ⟨_,(mem_waiters hx).1,he⟩
    rw [hsame] at htask
    rcases hcovers w ⟨htask,hdeleted,henabled,hkind,hfilter⟩ with hheld | hnot
    · exact absurd hheld hin
    · rcases not_wakes (hnot id row hrow hnone) hmatches with hs | hage | hown
      · exact Or.inr (Or.inl hs)
      · exact Or.inr (Or.inr (Or.inr (Or.inl hage)))
      · exact Or.inr (Or.inr (Or.inr (Or.inr (hgrown.ownEvent hown))))

/-- A step that claims nothing. -/
theorem noneLost_of_unclaimed (h : ∀ (id : ℕ) (row row' : NotificationRow),
    m.notifications[id]? = some row → row.wakeClaimedAt = none →
    m'.notifications[id]? = some row' → row'.wakeClaimedAt = none) : NoneLost m m' := by
  intro id row row' hrow hnone hrow' started hstarted
  rw [h id row row' hrow hnone hrow'] at hstarted
  cases hstarted

theorem noneLost_step {ownerTimezone : String} (h : m.Locks) (e : WatchStep × ℕ)
    (hok : m.Covers e) : NoneLost m (m.step ownerTimezone e) := by
  obtain ⟨a,later⟩ := e
  have hsame : ∀ {m' : Watch}, m'.notifications = m.notifications → NoneLost m m' := by
    intro m' hm
    refine noneLost_of_unclaimed fun id row row' hrow hnone hrow' => ?_
    rw [hm,hrow] at hrow'
    rw [← Option.some.inj hrow']
    exact hnone
  cases a with
  | work op =>
    refine hsame ?_
    simp only [step,act]
    split <;> rfl
  | create arguments =>
    refine hsame ?_
    simp only [step,act]
    split <;> rfl
  | lock taskId =>
    refine hsame ?_
    simp only [step,act]
    split <;> rfl
  | unlock taskId => exact hsame rfl
  | update arguments =>
    refine hsame ?_
    simp only [step,act,request]
    split
    · rfl
    · split <;> rfl
  | delete arguments =>
    refine hsame ?_
    simp only [step,act,request]
    split
    · rfl
    · split <;> rfl
  | announce row =>
    refine noneLost_of_unclaimed fun id old row' hold hnone hrow' => ?_
    simp only [step,act] at hrow'
    split at hrow'
    · rw [getElem?_insert_of_some hold] at hrow'
      rw [← Option.some.inj hrow']
      exact hnone
    · rw [hold] at hrow'
      rw [← Option.some.inj hrow']
      exact hnone
  | amend id change =>
    refine noneLost_of_unclaimed fun i old row' hold hnone hrow' => ?_
    simp only [step,act] at hrow'
    by_cases hi : id = i
    · subst hi
      rw [getElem?_modify_self,hold] at hrow'
      rw [← Option.some.inj hrow']
      cases change <;> exact hnone
    · rw [getElem?_modify_ne _ _ hi,hold] at hrow'
      rw [← Option.some.inj hrow']
      exact hnone
  | claimDue skipped =>
    refine hsame ?_
    simp only [step,act]
    split <;> rfl
  | select => exact hsame rfl
  | wake poll skipped =>
    simp only [step,act]
    split
    · exact hsame rfl
    · next p hp =>
      split
      · exact hsame rfl
      · next s rows hs => exact noneLost_wake h (Option.join_eq_some_iff.mp hp) (hok p hp) hs
  | rollback poll => exact hsame rfl

end Watch

section

variable [ScheduleRuntime] {ownerTimezone : String} {m : Watch}

/-- In every run in which the polls that end hold every event schedule that an unclaimed
notification is to wake, no step loses a wake. -/
theorem no_wake_lost (h : Trace.Reach (Watch.step ownerTimezone) Watch.Covers (· = {}) m)
    (e : WatchStep × ℕ) (he : m.Covers e) : Watch.NoneLost m (m.step ownerTimezone e) := by
  have hlocks : m.Locks := by
    refine h.invariant (I := Watch.Locks) (fun m hm => ?_) fun m e hm _ => Watch.locks_step hm e
    subst hm
    exact ⟨fun k p hp => by simp at hp,fun j k p q hp => by simp at hp⟩
  exact Watch.noneLost_step hlocks e he

end

/-- The filter of the schedules that units wake. -/
def unitsFilter : EventFilter where
  sources := ["runtime.units"]
  severities := defaultSeverities

theorem no_wake_lost_single : letI := plainSchedules
    Watch.NoneLost ((singleWake.take 3).foldl (Watch.step "UTC") {})
        (((singleWake.take 3).foldl (Watch.step "UTC") {}).step "UTC" (.wake 0 [],0)) ∧
      (((((singleWake.take 3).foldl (Watch.step "UTC") {}).step "UTC"
        (.wake 0 [],0)).notifications[0]?).any (·.wakeClaimedAt.isSome)) = true := by
  let := plainSchedules
  have hall : Trace.Allowed (Watch.step "UTC") Watch.Covers {} (singleWake.take 3) :=
    ⟨trivial,trivial,trivial,trivial⟩
  have hinit : Trace.Reach (Watch.step "UTC") Watch.Covers (· = {}) {} := .start rfl
  have hcovers : ∀ m : Watch, m.ledger.schedules.length = 1 →
      (m.polls[0]?.join).map (fun p => p.tasks.map Prod.fst) = some [0] →
      m.Covers (.wake 0 [],0) := by
    intro m hlength htasks p hp w hawaits
    left
    have hid : w.taskId < 1 := hlength ▸ (List.getElem?_eq_some_iff.mp hawaits.1).1
    rw [hp,Option.map_some,Option.some.injEq] at htasks
    have hmem : 0 ∈ p.tasks.map Prod.fst := by
      rw [htasks]
      exact List.mem_singleton_self 0
    obtain ⟨entry,hentry,he⟩ := List.mem_map.mp hmem
    exact ⟨entry,hentry,he.trans (Nat.lt_one_iff.mp hid).symm⟩
  exact ⟨no_wake_lost (hinit.run hall) _ (hcovers _ (by decide +kernel) (by decide +kernel)),
    by decide +kernel⟩

/-- A poll that starts while the owner changes one of two schedules. -/
def skippedTask : List (WatchStep × ℕ) := [
  (.create (unitsTask "Slow"),0),
  (.create (unitsTask "Quick"),0),
  (.announce (unitDown 3),0),
  (.lock 1,0),
  (.select,0)]

/-- It claims a notification for which the other schedule has no run. -/
theorem wake_lost : letI := plainSchedules
    ∃ (m : Watch) (e : WatchStep × ℕ),
      Trace.Reach (Watch.step "UTC") (fun _ _ => True) (· = {}) m ∧
        ¬Watch.NoneLost m (m.step "UTC" e) := by
  let := plainSchedules
  have hinit : Trace.Reach (Watch.step "UTC") (fun _ _ => True) (· = {}) {} := .start rfl
  have hlost : ∀ m m' : Watch,
      (m.notifications[0]?).any (fun r : NotificationRow => r.wakeClaimedAt.isNone) = true ∧
      (m'.notifications[0]?).any (fun r : NotificationRow => r.wakeClaimedAt == some 5 &&
        r.status != Notifications.Status.superseded && r.createdAt == 3 && r.runId.isNone &&
          unitsFilter.matches (projectNotification 0 r)) = true ∧
      (m'.ledger.schedules[1]?).any (fun t : ScheduledTaskRow => !t.deleted && t.enabled &&
        t.scheduleKind == "event" && t.scheduleValue == "\x7b\"source\": \"runtime.units\"\x7d" &&
          t.createdAt == 2) = true ∧
      runsFor m'.ledger 1 0 = 0 → ¬Watch.NoneLost m m' := by
    rintro m m' ⟨hrow,hrow',htask,hruns⟩ hnone
    obtain ⟨row,hrow,hunclaimed⟩ := (Option.any_eq_true _ _).mp hrow
    obtain ⟨row',hrow',hclaimed⟩ := (Option.any_eq_true _ _).mp hrow'
    obtain ⟨task,htask,hterms⟩ := (Option.any_eq_true _ _).mp htask
    simp only [Bool.and_eq_true,beq_iff_eq,bne_iff_ne,Option.isNone_iff_eq_none,
      Bool.not_eq_true'] at hclaimed hterms
    obtain ⟨⟨⟨⟨hstarted,hstatus⟩,hcreated⟩,hrun⟩,hmatches⟩ := hclaimed
    obtain ⟨⟨⟨⟨hdeleted,henabled⟩,hkind⟩,hvalue⟩,hage⟩ := hterms
    have hawaits : Watch.Awaits m'.ledger ⟨1,task,unitsFilter⟩ :=
      ⟨htask,hdeleted,henabled,hkind,by rw [hvalue]; rfl⟩
    rcases hnone 0 row row' hrow (Option.isNone_iff_eq_none.mp hunclaimed) hrow' 5 hstarted _
      hawaits hmatches with h | h | h | h | h
    · exact h hruns
    · exact hstatus h
    · rw [hcreated] at h
      exact absurd h (by decide)
    · rw [hcreated] at h
      have h : 3 < task.createdAt := h
      rw [hage] at h
      exact absurd h (by decide)
    · simp [ownEvent,hrun] at h
  exact ⟨_,(.wake 0 [],0),hinit.steps skippedTask,
    hlost _ _ (by decide +kernel)⟩

end Schedules
end Atlas
