import Atlas.Actions.AuthoritySteps
import Atlas.Lib.RowCounts

/-! What the transactions of the store leave of the schedules and of the occurrences that runs
are. -/
namespace Atlas
namespace Actions

open RowTable

/-- The occurrence that a run is, of a schedule and at a time. -/
structure Occurrence where
  schedule : Option ℕ := none
  time : Option Instant := none
  trigger : Dict := []

def RunRow.occurrence (r : RunRow) : Occurrence := ⟨r.scheduleId,r.scheduledFor,r.triggerSnapshot⟩

/-- A schedule without the status that is shown of its last run. -/
def ScheduledTaskRow.plan (t : ScheduledTaskRow) : ScheduledTaskRow := {t with lastStatus := none}

/-- Whether an operation puts an occurrence into the queue. -/
def Op.queues : Op → Bool
  | .queueRun _ _ _ _ _ => true
  | _ => false

namespace Ledger

variable {s s' : Ledger} {id runId : ℕ} {now : Instant}

def occurrences (s : Ledger) : List Occurrence := s.runs.map RunRow.occurrence

def plans (s : Ledger) : List ScheduledTaskRow := s.schedules.map ScheduledTaskRow.plan

theorem occurrences_of_runs (h : s'.runs = s.runs) : s'.occurrences = s.occurrences := by
  rw [occurrences,h,occurrences]

theorem occurrences_of_modify {f : RunRow → RunRow} (h : s'.runs = s.runs.modify runId f)
    (hf : ∀ r, (f r).occurrence = r.occurrence) : s'.occurrences = s.occurrences := by
  rw [occurrences,h]
  exact map_modify_eq runId hf

theorem occurrences_getElem? (s : Ledger) (i : ℕ) :
    s.occurrences[i]? = (s.runs[i]?).map RunRow.occurrence := List.getElem?_map

theorem plans_getElem? (s : Ledger) (i : ℕ) :
    s.plans[i]? = (s.schedules[i]?).map ScheduledTaskRow.plan := List.getElem?_map

theorem plans_setSchedule {f : ScheduledTaskRow → ScheduledTaskRow}
    (hf : ∀ t, (f t).plan = t.plan) : (s.setSchedule id f).plans = s.plans :=
  map_modify_eq id hf

theorem recomputeRun_plans (s : Ledger) (runId : ℕ) (now : Instant) :
    (s.recomputeRun runId now).plans = s.plans := by
  simp only [recomputeRun]
  split
  · rfl
  · split
    · rfl
    · exact plans_setSchedule fun t => rfl

theorem doubtRun_plans (s : Ledger) (runId : ℕ) : (s.doubtRun runId).plans = s.plans := by
  simp only [doubtRun]
  split
  · rfl
  · split
    · rfl
    · exact plans_setSchedule fun t => rfl

theorem restateAttention_plans {action : ActionRow} {detail : Dict}
    (h : s.restateAttention id action detail = .ok s') : s'.plans = s.plans := by
  simp only [restateAttention] at h
  split at h
  · cases h
  · obtain rfl := Except.ok.inj h
    rfl
  · obtain rfl := Except.ok.inj h
    rfl

theorem markUncertain_plans {action : ActionRow} {reason : Option String}
    (h : s.markUncertain id action reason = .ok s') : s'.plans = s.plans := by
  obtain ⟨t,ht,rfl⟩ := map_accepted h
  rw [doubtRun_plans,restateAttention_plans ht]

theorem resolveAttentionAndRun_plans {action : ActionRow}
    (h : s.resolveAttentionAndRun id action now = .ok s') : s'.plans = s.plans := by
  simp only [resolveAttentionAndRun] at h
  split at h
  · cases h
  · obtain rfl := Except.ok.inj h
    exact recomputeRun_plans _ _ _
  · obtain rfl := Except.ok.inj h
    exact recomputeRun_plans _ _ _

/-- A transaction that leaves the schedules and the occurrences as they are. -/
structure Still (s s' : Ledger) : Prop where
  plans : s'.plans = s.plans
  occurrences : s'.occurrences = s.occurrences

theorem Still.refl (s : Ledger) : Still s s := ⟨rfl,rfl⟩

theorem Still.trans {u : Ledger} (h : Still s s') (h' : Still s' u) : Still s u :=
  ⟨h'.plans.trans h.plans,h'.occurrences.trans h.occurrences⟩

theorem recomputeRun_still (s : Ledger) (runId : ℕ) (now : Instant) :
    Still s (s.recomputeRun runId now) :=
  ⟨recomputeRun_plans s runId now,
    occurrences_of_modify (recomputeRun_runs s runId now) fun _ => rfl⟩

theorem setRun_still {f : RunRow → RunRow} (hf : ∀ r, (f r).occurrence = r.occurrence) :
    Still s (s.setRun runId f) := ⟨rfl,occurrences_of_modify rfl hf⟩

theorem markUncertain_still {action : ActionRow} {reason : Option String}
    (h : s.markUncertain id action reason = .ok s') : Still s s' :=
  ⟨markUncertain_plans h,occurrences_of_modify (markUncertain_ok h).runs fun _ => rfl⟩

theorem resolveAttentionAndRun_still {action : ActionRow}
    (h : s.resolveAttentionAndRun id action now = .ok s') : Still s s' :=
  ⟨resolveAttentionAndRun_plans h,
    occurrences_of_modify (resolveAttentionAndRun_ok h).runs fun _ => rfl⟩

theorem cancel_still (h : s.cancel id now = .ok s') : Still s s' := by
  obtain ⟨action,_,h⟩ := accepted h
  obtain ⟨_,_,h⟩ := accepted h
  have hstill := resolveAttentionAndRun_still h
  exact ⟨hstill.plans,hstill.occurrences⟩

theorem complete_still {status : ActionStatus} {result : Dict} {externalId : Option String}
    (h : s.complete id status result externalId now = .ok s') : Still s s' := by
  obtain ⟨_,_,h⟩ := accepted h
  obtain ⟨action,_,h⟩ := accepted h
  obtain ⟨_,_,h⟩ := accepted h
  by_cases hu : status = .uncertain
  · rw [if_pos hu] at h
    have hstill := markUncertain_still h
    exact ⟨hstill.plans,hstill.occurrences⟩
  · rw [if_neg hu] at h
    have hstill := resolveAttentionAndRun_still h
    exact ⟨hstill.plans,hstill.occurrences⟩

theorem abandonAction_still {reason : String} (h : abandonAction reason s id = .ok s') :
    Still s s' := by
  simp only [abandonAction] at h
  split at h
  · obtain rfl := Except.ok.inj h
    exact Still.refl _
  · split at h
    · obtain rfl := Except.ok.inj h
      exact Still.refl _
    · have hstill := markUncertain_still h
      exact ⟨hstill.plans,hstill.occurrences⟩

theorem abandoned_still {reason : String} (l : List ℕ) : ∀ {s s' : Ledger},
    l.foldlM (abandonAction reason) s = .ok s' → Still s s' := by
  induction l with
  | nil =>
    intro s s' h
    obtain rfl := Except.ok.inj h
    exact Still.refl _
  | cons id l ih =>
    intro s s' h
    rw [List.foldlM_cons] at h
    obtain ⟨t,ht,h⟩ := accepted h
    exact (abandonAction_still ht).trans (ih h)

theorem reconcileStaleExecution_still {staleBefore : Instant}
    (h : s.reconcileStaleExecution id staleBefore = .ok s') : Still s s' := by
  simp only [reconcileStaleExecution] at h
  split at h
  · obtain rfl := Except.ok.inj h
    exact Still.refl _
  · split at h
    · obtain rfl := Except.ok.inj h
      exact Still.refl _
    · split at h
      · obtain rfl := Except.ok.inj h
        exact Still.refl _
      · have hstill := markUncertain_still h
        exact ⟨hstill.plans,hstill.occurrences⟩

/-- What an operation that queues nothing leaves behind. -/
structure Aside (s s' : Ledger) : Prop where
  plans : s'.plans = s.plans
  occurrences : s'.occurrences = s.occurrences ∨
    s'.occurrences = s.occurrences ++ [({} : Occurrence)]

theorem Still.aside (h : Still s s') : Aside s s' := ⟨h.plans,Or.inl h.occurrences⟩

variable [ActionRuntime]

theorem interruptRun_still {reason : String} (h : s.interruptRun runId reason now = .ok s') :
    Still s s' := by
  rcases interruptRun_ok h with ⟨rfl,_⟩ | ⟨run,t,u,_,_,rfl,hfold,hs⟩
  · exact Still.refl _
  · have hstop : Still s (s.setRun runId (·.stop .interrupted)) := setRun_still fun r => rfl
    have hu := (hstop.trans (abandoned_still _ hfold)).trans (recomputeRun_still u runId now)
    rcases hs with rfl | hs
    · exact hu
    · rcases noteInterruption_ok hs with rfl | ⟨row,_,rfl⟩
      · exact hu
      · exact ⟨hu.plans,hu.occurrences⟩

theorem apply_aside {op : Op} (hop : op.queues = false) (hc : s.apply op now = .ok s') :
    Aside s s' := by
  cases op with
  | openTranscript row =>
    obtain rfl := Except.ok.inj hc
    exact ⟨rfl,Or.inl rfl⟩
  | document transcriptId state =>
    obtain rfl := Except.ok.inj hc
    exact ⟨rfl,Or.inl rfl⟩
  | createRun transcriptId intent kind =>
    obtain ⟨⟨t,i⟩,ht,rfl⟩ := map_accepted hc
    obtain ⟨_,rfl,_⟩ := createRun_ok ht
    exact ⟨rfl,Or.inr (by simp [occurrences,addRun,createdRun,RunRow.occurrence])⟩
  | queueRun transcriptId intent scheduleId scheduledFor snapshot => cases hop
  | startRun runId =>
    obtain rfl := Except.ok.inj hc
    refine (setRun_still fun r => ?_).aside
    split <;> rfl
  | heartbeat runId =>
    obtain rfl := Except.ok.inj hc
    refine (setRun_still fun r => ?_).aside
    split <;> rfl
  | finishRun runId succeeded =>
    rcases finishRun_ok hc with rfl | ⟨run,_,_,_,rfl⟩
    · exact (Still.refl _).aside
    · have hstop : Still s (s.setRun runId
          (·.stop (if succeeded then InferenceStatus.succeeded else .failed))) :=
        setRun_still fun r => rfl
      exact (hstop.trans (recomputeRun_still _ runId now)).aside
  | interruptRun runId reason => exact (interruptRun_still hc).aside
  | expireRun runId cutoff =>
    obtain rfl := Except.ok.inj hc
    refine (setRun_still fun r => ?_).aside
    split <;> rfl
  | prepareProposal runId operation arguments title capabilityId =>
    obtain ⟨⟨t,i⟩,ht,rfl⟩ := map_accepted hc
    obtain ⟨_,_,_,capability,rfl⟩ := prepareProposal_ok ht
    have hstill := recomputeRun_still ((s.addAction
      (preparedAction i runId operation arguments title capability now)).addAttention
        (approvalNotice i runId operation arguments title now)) runId now
    exact ⟨hstill.plans,Or.inl hstill.occurrences⟩
  | beginExecution actionId reviewed =>
    obtain ⟨⟨t,proposal⟩,ht,rfl⟩ := map_accepted hc
    obtain ⟨a,_,_,_,_,rfl⟩ := beginExecution_ok ht
    have hstill := recomputeRun_still (s.setAction actionId (·.begin now)) a.runId now
    exact ⟨hstill.plans,Or.inl hstill.occurrences⟩
  | beginAutomaticExecution runId operation arguments summary capabilityId =>
    obtain ⟨⟨t,i⟩,ht,rfl⟩ := map_accepted hc
    obtain ⟨_,_,_,rfl⟩ := beginAutomaticExecution_ok ht
    exact ⟨rfl,Or.inl rfl⟩
  | recordExecution runId operation arguments status summary output =>
    obtain ⟨⟨t,i⟩,ht,rfl⟩ := map_accepted hc
    obtain ⟨_,_,rfl⟩ := recordExecution_ok ht
    exact ⟨rfl,Or.inl rfl⟩
  | cancel actionId => exact (cancel_still hc).aside
  | supersede actionId =>
    obtain ⟨t,hcancel,rfl⟩ := supersede_ok hc
    have hstill := cancel_still hcancel
    exact ⟨hstill.plans,Or.inl hstill.occurrences⟩
  | complete actionId status result externalId => exact (complete_still hc).aside
  | finishAction runId actionId result evidenceId =>
    rcases finishAction_ok hc with ⟨a,_,_,rfl⟩ | ⟨t,hcomplete,rfl⟩
    · exact ⟨rfl,Or.inl rfl⟩
    · have hstill := complete_still hcomplete
      rcases noteStagedChange_eq t runId result with he | ⟨row,_,he⟩
      · rw [he]
        exact hstill.aside
      · rw [he]
        exact ⟨hstill.plans,Or.inl hstill.occurrences⟩
  | reconcileStaleExecution actionId staleBefore => exact (reconcileStaleExecution_still hc).aside
  | acknowledgeUncertain actionId =>
    obtain ⟨a,i,_,_,_,rfl⟩ := acknowledgeUncertain_ok hc
    exact ⟨rfl,Or.inl rfl⟩
  | dismissInterruption attentionId =>
    rcases dismissInterruption_ok hc with rfl | ⟨row,_,_,rfl⟩
    · exact (Still.refl _).aside
    · exact ⟨rfl,Or.inl rfl⟩
  | dismissInformationalNotices =>
    obtain rfl := Except.ok.inj hc
    exact ⟨rfl,Or.inl rfl⟩
  | ownerMessage transcriptId =>
    obtain rfl := Except.ok.inj hc
    exact ⟨rfl,Or.inl rfl⟩
  | stallAttention transcriptId runId title detail =>
    obtain rfl := Except.ok.inj hc
    simp only [stallAttention]
    split
    · exact (Still.refl _).aside
    · exact ⟨rfl,Or.inl rfl⟩
  | resolveStallAttention transcriptId =>
    obtain rfl := Except.ok.inj hc
    exact ⟨rfl,Or.inl rfl⟩

end Ledger
end Actions
end Atlas
