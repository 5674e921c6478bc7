import Atlas.Actions.Machine

/-! What the transactions of the authority store do to each table, one lemma a function. -/
namespace Atlas
namespace Actions
namespace Ledger

open RowTable

variable {s s' : Ledger} {id runId : ℕ} {action : ActionRow} {now : Instant}

theorem modify_none {ρ : Type} {t : List ρ} {i : ℕ} (f : ρ → ρ) (h : t[i]? = none) :
    t.modify i f = t := by
  apply List.ext_getElem?
  intro j
  by_cases hj : i = j
  · subst hj
    simp [h]
  · simp [hj]

@[simp] theorem recomputeRun_actions (s : Ledger) (runId : ℕ) (now : Instant) :
    (s.recomputeRun runId now).actions = s.actions := by
  simp only [recomputeRun]
  split
  · rfl
  · split <;> rfl

@[simp] theorem recomputeRun_attention (s : Ledger) (runId : ℕ) (now : Instant) :
    (s.recomputeRun runId now).attention = s.attention := by
  simp only [recomputeRun]
  split
  · rfl
  · split <;> rfl

@[simp] theorem recomputeRun_transcripts (s : Ledger) (runId : ℕ) (now : Instant) :
    (s.recomputeRun runId now).transcripts = s.transcripts := by
  simp only [recomputeRun]
  split
  · rfl
  · split <;> rfl

theorem recomputeRun_runs (s : Ledger) (runId : ℕ) (now : Instant) :
    (s.recomputeRun runId now).runs = s.runs.modify runId (·.settle (s.statuses runId) now) := by
  have hmodify : ∀ run, s.runs[runId]? = some run →
      s.runs.modify runId (fun _ => run.settle (s.statuses runId) now) =
        s.runs.modify runId (·.settle (s.statuses runId) now) := by
    intro run hrun
    apply List.ext_getElem?
    intro j
    by_cases hj : runId = j
    · subst hj
      simp [hrun]
    · simp [hj]
  simp only [recomputeRun]
  split
  · next hrun => exact (modify_none _ hrun).symm
  · next run hrun =>
    split
    · exact hmodify run hrun
    · exact hmodify run hrun

/-- What `_mark_uncertain` leaves behind. -/
structure Marked (s s' : Ledger) (id runId : ℕ) : Prop where
  actions : s'.actions = s.actions
  transcripts : s'.transcripts = s.transcripts
  runs : s'.runs = s.runs.modify runId (·.doubt)
  attention : (s.openAttention id = [] ∧ ∃ row : OwnerAttentionRow, row.actionId = some id ∧
      row.state = .uncertain ∧ row.resolved = false ∧ s'.attention = s.attention ++ [row]) ∨
    ∃ (i : ℕ) (f : OwnerAttentionRow → OwnerAttentionRow), s.openAttention id = [i] ∧
      s'.attention = s.attention.modify i f ∧
      ∀ r, (f r).actionId = r.actionId ∧ (f r).resolved = r.resolved ∧ (f r).state = .uncertain

theorem doubtRun_tables (s : Ledger) (runId : ℕ) :
    (s.doubtRun runId).actions = s.actions ∧ (s.doubtRun runId).transcripts = s.transcripts ∧
      (s.doubtRun runId).attention = s.attention ∧
      (s.doubtRun runId).runs = s.runs.modify runId (·.doubt) := by
  simp only [doubtRun]
  split
  · next hrun => exact ⟨rfl,rfl,rfl,(modify_none _ hrun).symm⟩
  · split
    · exact ⟨rfl,rfl,rfl,rfl⟩
    · exact ⟨rfl,rfl,rfl,rfl⟩

theorem markUncertain_ok {reason : Option String}
    (h : s.markUncertain id action reason = .ok s') : Marked s s' id action.runId := by
  simp only [markUncertain] at h
  generalize uncertainDetail id action reason = detail at h
  cases ht : s.restateAttention id action detail with
  | error e =>
    rw [ht] at h
    cases h
  | ok t =>
    rw [ht] at h
    obtain rfl := Except.ok.inj h
    obtain ⟨ha,htr,hat,hr⟩ := t.doubtRun_tables action.runId
    simp only [restateAttention] at ht
    split at ht
    · cases ht
    · next hopen =>
      obtain rfl := Except.ok.inj ht
      exact ⟨ha,htr,hr,Or.inl ⟨scalarOneOrNone_none hopen,_,rfl,rfl,rfl,hat⟩⟩
    · next i hopen =>
      obtain rfl := Except.ok.inj ht
      exact ⟨ha,htr,hr,Or.inr ⟨i,_,scalarOneOrNone_some hopen,hat,fun r => ⟨rfl,rfl,rfl⟩⟩⟩

/-- What `_resolve_attention_and_run` leaves behind. -/
structure Closed (s s' : Ledger) (id runId : ℕ) (now : Instant) : Prop where
  actions : s'.actions = s.actions
  transcripts : s'.transcripts = s.transcripts
  runs : s'.runs = s.runs.modify runId (·.settle (s.statuses runId) now)
  attention : (s.openAttention id = [] ∧ s'.attention = s.attention) ∨
    ∃ i, s.openAttention id = [i] ∧ s'.attention = s.attention.modify i (·.resolve now)

theorem resolveAttentionAndRun_ok (h : s.resolveAttentionAndRun id action now = .ok s') :
    Closed s s' id action.runId now := by
  simp only [resolveAttentionAndRun] at h
  split at h
  · cases h
  · next hopen =>
    obtain rfl := Except.ok.inj h
    exact ⟨by simp,by simp,recomputeRun_runs _ _ _,Or.inl ⟨scalarOneOrNone_none hopen,by simp⟩⟩
  · next i hopen =>
    obtain rfl := Except.ok.inj h
    refine ⟨?_,?_,?_,Or.inr ⟨i,scalarOneOrNone_some hopen,?_⟩⟩
    · rw [recomputeRun_actions]
      rfl
    · rw [recomputeRun_transcripts]
      rfl
    · rw [recomputeRun_runs]
      rfl
    · rw [recomputeRun_attention]
      rfl

theorem getAction_ok {missing : Refusal} (h : s.getAction id missing = .ok action) :
    s.actions[id]? = some action := by
  simp only [getAction] at h
  split at h
  · cases h
  · next hrow => rw [hrow,Except.ok.inj h]

theorem cancel_ok (h : s.cancel id now = .ok s') : ∃ action, s.actions[id]? = some action ∧
    action.status = .prepared ∧ Closed (s.setAction id (·.cancel)) s' id action.runId now := by
  obtain ⟨action,hrow,h⟩ := accepted h
  obtain ⟨_,hstatus,h⟩ := accepted h
  exact ⟨action,getAction_ok hrow,require_ok hstatus,resolveAttentionAndRun_ok h⟩

theorem complete_ok {status : ActionStatus} {result : Dict} {externalId : Option String}
    (h : s.complete id status result externalId now = .ok s') :
    ∃ action, s.actions[id]? = some action ∧ action.status = .executing ∧
      ((status = .uncertain ∧ Marked (s.setAction id (·.complete status result externalId)) s' id
        action.runId) ∨
      ((status = .succeeded ∨ status = .failed) ∧
        Closed (s.setAction id (·.complete status result externalId)) s' id action.runId now)) := by
  obtain ⟨_,hends,h⟩ := accepted h
  obtain ⟨action,hrow,h⟩ := accepted h
  obtain ⟨_,hstatus,h⟩ := accepted h
  have hends : status = .succeeded ∨ status = .failed ∨ status = .uncertain := by
    simpa using require_ok hends
  refine ⟨action,getAction_ok hrow,require_ok hstatus,?_⟩
  by_cases hu : status = .uncertain
  · rw [if_pos hu] at h
    have hmarked := markUncertain_ok h
    exact Or.inl ⟨hu,hmarked⟩
  · rw [if_neg hu] at h
    refine Or.inr ⟨?_,resolveAttentionAndRun_ok h⟩
    simpa [hu] using hends

theorem acknowledgeUncertain_ok [PyRuntime] (h : s.acknowledgeUncertain id now = .ok s') :
    ∃ action i, s.actions[id]? = some action ∧ action.status = .uncertain ∧
      s.openAttention id = [i] ∧ s' = (s.setAttention i (·.resolve now)).setAction id
        (·.remark "owner_acknowledged_at" (PyRuntime.isoformat now)) := by
  obtain ⟨action,hrow,h⟩ := accepted h
  obtain ⟨_,hstatus,h⟩ := accepted h
  split at h
  · cases h
  · cases h
  · next i hopen =>
    exact ⟨action,i,getAction_ok hrow,require_ok hstatus,scalarOneOrNone_some hopen,
      (Except.ok.inj h).symm⟩

theorem finishRun_ok {succeeded : Bool} (h : s.finishRun runId succeeded now = .ok s') :
    s' = s ∨ ∃ run, s.runs[runId]? = some run ∧ run.inferenceActive = true ∧
      run.inferenceStatus = .running ∧ s' = (s.setRun runId
        (·.stop (if succeeded then .succeeded else .failed))).recomputeRun runId now := by
  simp only [finishRun] at h
  split at h
  · exact Or.inl (Except.ok.inj h).symm
  · next run hrun =>
    split at h
    · cases h
    · next hlive =>
      rw [not_or] at hlive
      exact Or.inr ⟨run,hrun,by simpa using hlive.1,by simpa using hlive.2,
        (Except.ok.inj h).symm⟩

theorem dismissInterruption_ok (h : s.dismissInterruption id now = .ok s') :
    s' = s ∨ ∃ row, s.attention[id]? = some row ∧ row.actionId = none ∧
      s' = s.setAttention id (·.resolve now) := by
  simp only [dismissInterruption] at h
  split at h
  · cases h
  · next row hrow =>
    split at h
    · cases h
    · next hinformational =>
      split at h
      · exact Or.inl (Except.ok.inj h).symm
      · rw [not_or] at hinformational
        exact Or.inr ⟨row,hrow,by simpa using hinformational.2,(Except.ok.inj h).symm⟩

/-- An action that a sweep or an interruption finds executing is left in doubt. -/
def Doubted (s s' : Ledger) (id : ℕ) : Prop :=
  ∃ action, s.actions[id]? = some action ∧ action.status = .executing ∧
    Marked (s.setAction id (·.doubt)) s' id action.runId

theorem reconcileStaleExecution_ok {staleBefore : Instant}
    (h : s.reconcileStaleExecution id staleBefore = .ok s') : s' = s ∨ Doubted s s' id := by
  simp only [reconcileStaleExecution] at h
  split at h
  · exact Or.inl (Except.ok.inj h).symm
  · next action hrow =>
    split at h
    · exact Or.inl (Except.ok.inj h).symm
    · next hstale =>
      split at h
      · exact Or.inl (Except.ok.inj h).symm
      · rw [not_or] at hstale
        exact Or.inr ⟨action,hrow,by simpa using hstale.1,markUncertain_ok h⟩

theorem abandonAction_ok {reason : String} (h : abandonAction reason s id = .ok s') :
    s' = s ∨ Doubted s s' id := by
  simp only [abandonAction] at h
  split at h
  · exact Or.inl (Except.ok.inj h).symm
  · next action hrow =>
    split at h
    · exact Or.inl (Except.ok.inj h).symm
    · next hstatus => exact Or.inr ⟨action,hrow,by simpa using hstatus,markUncertain_ok h⟩

theorem createRun_ok {transcriptId : Option ℕ} {intent : String} {kind : RunKind}
    (h : s.createRun transcriptId intent kind now = .ok (s',id)) :
    s.foregroundFree transcriptId kind = .ok () ∧
      s' = s.addRun (createdRun transcriptId intent kind now) ∧ id = s.runs.length := by
  obtain ⟨_,hfree,h⟩ := accepted h
  obtain ⟨_,_,h⟩ := accepted h
  obtain ⟨rfl,rfl⟩ := Prod.mk.inj (Except.ok.inj h)
  exact ⟨hfree,rfl,rfl⟩

section

variable [ActionRuntime] {operation title summary capabilityId : String} {arguments : Dict}

theorem recordExecution_ok {status : String} {output : Json}
    (h : s.recordExecution runId operation arguments status summary output now = .ok (s',id)) :
    runId < s.runs.length ∧ id = s.actions.length ∧ s' = s.addAction
      (recordedAction id runId operation arguments status summary output now) := by
  obtain ⟨_,hrun,h⟩ := accepted h
  obtain ⟨rfl,rfl⟩ := Prod.mk.inj (Except.ok.inj h)
  exact ⟨require_ok hrun,rfl,rfl⟩

theorem prepareProposal_ok
    (h : s.prepareProposal runId operation arguments title capabilityId now = .ok (s',id)) :
    s.requireManagedTaskActive s.runs[runId]? = .ok () ∧ runId < s.runs.length ∧
      id = s.actions.length ∧ ∃ capability, s' = ((s.addAction
        (preparedAction id runId operation arguments title capability now)).addAttention
          (approvalNotice id runId operation arguments title now)).recomputeRun runId now := by
  obtain ⟨_,hactive,h⟩ := accepted h
  obtain ⟨_,hrun,h⟩ := accepted h
  obtain ⟨rfl,rfl⟩ := Prod.mk.inj (Except.ok.inj h)
  exact ⟨hactive,require_ok hrun,rfl,_,rfl⟩

theorem beginExecution_ok {reviewed : Option String} {proposal : Dict}
    (h : s.beginExecution id reviewed now = .ok (s',proposal)) :
    ∃ action, s.actions[id]? = some action ∧ action.status = .prepared ∧
      s.requireManagedTaskActive s.runs[action.runId]? = .ok () ∧
      verifyProposal action now = .ok proposal ∧
      s' = (s.setAction id (·.begin now)).recomputeRun action.runId now := by
  obtain ⟨action,hrow,h⟩ := accepted h
  obtain ⟨_,hactive,h⟩ := accepted h
  obtain ⟨_,hverify,h⟩ := accepted h
  obtain ⟨_,_,h⟩ := accepted h
  obtain ⟨_,hstatus,h⟩ := accepted h
  obtain ⟨rfl,rfl⟩ := Prod.mk.inj (Except.ok.inj h)
  exact ⟨action,getAction_ok hrow,require_ok hstatus,hactive,hverify,rfl⟩

theorem beginAutomaticExecution_ok
    (h : s.beginAutomaticExecution runId operation arguments summary capabilityId now =
      .ok (s',id)) :
    s.requireManagedTaskActive s.runs[runId]? = .ok () ∧ runId < s.runs.length ∧
      id = s.actions.length ∧ s' = s.addAction
        (automaticAction id runId operation arguments summary capabilityId now) := by
  obtain ⟨_,hactive,h⟩ := accepted h
  obtain ⟨_,hrun,h⟩ := accepted h
  obtain ⟨rfl,rfl⟩ := Prod.mk.inj (Except.ok.inj h)
  exact ⟨hactive,require_ok hrun,rfl,rfl⟩

omit [ActionRuntime] in
theorem supersede_ok (h : s.supersede id now = .ok s') : ∃ t, s.cancel id now = .ok t ∧
    s' = t.setAction id
      (·.remark "cancel_reason" "superseded_by_current_auto_authority") := by
  obtain ⟨t,hcancel,h⟩ := accepted h
  exact ⟨t,hcancel,(Except.ok.inj h).symm⟩

omit [ActionRuntime] in
theorem noteStagedChange_eq (s : Ledger) (runId : ℕ) (result : CapabilityCallResult) :
    s.noteStagedChange runId result = s ∨ ∃ row : OwnerAttentionRow, row.actionId = none ∧
      s.noteStagedChange runId result = s.addAttention row := by
  simp only [noteStagedChange]
  split
  · exact Or.inr ⟨_,rfl,rfl⟩
  · exact Or.inl rfl

theorem finishAction_ok {result : CapabilityCallResult} {evidenceId : String}
    (h : s.finishAction runId id result evidenceId now = .ok s') :
    (∃ action, s.actions[id]? = some action ∧ action.status ≠ .executing ∧
      s' = s.setAction id (·.remark "late_result_evidence_id" evidenceId)) ∨
    ∃ t, s.complete id (actionStatusForResult result)
        [("status",.str result.status),("evidence_id",.str evidenceId)]
        (externalEffectId result.output) now = .ok t ∧ s' = t.noteStagedChange runId result := by
  obtain ⟨action,hrow,h⟩ := accepted h
  by_cases hstatus : action.status ≠ .executing
  · rw [if_pos hstatus] at h
    exact Or.inl ⟨action,getAction_ok hrow,hstatus,(Except.ok.inj h).symm⟩
  · rw [if_neg hstatus] at h
    obtain ⟨t,hcomplete,h⟩ := accepted h
    exact Or.inr ⟨t,hcomplete,(Except.ok.inj h).symm⟩

omit [ActionRuntime] in
theorem noteInterruption_ok {reason : String} (h : s.noteInterruption runId reason = .ok s') :
    s' = s ∨ ∃ row : OwnerAttentionRow, row.actionId = none ∧ s' = s.addAttention row := by
  simp only [noteInterruption] at h
  split at h
  · cases h
  · exact Or.inl (Except.ok.inj h).symm
  · exact Or.inr ⟨_,rfl,(Except.ok.inj h).symm⟩

theorem interruptRun_ok {reason : String} (h : s.interruptRun runId reason now = .ok s') :
    (s' = s ∧ ∀ run : RunRow, s.runs[runId]? = some run →
      run.inferenceStatus ≠ .running ∧ run.inferenceStatus ≠ .queued) ∨
    ∃ run t u, s.runs[runId]? = some run ∧
      (run.inferenceStatus = .running ∨ run.inferenceStatus = .queued) ∧
      t = s.setRun runId (·.stop .interrupted) ∧
      (t.executingActions runId).foldlM (abandonAction reason) t = .ok u ∧
      (s' = u.recomputeRun runId now ∨
        (u.recomputeRun runId now).noteInterruption runId reason = .ok s') := by
  simp only [interruptRun] at h
  split at h
  · next hnone => exact Or.inl ⟨(Except.ok.inj h).symm,fun run hrun => by simp [hnone] at hrun⟩
  · next run hrun =>
    split at h
    · next hidle =>
      refine Or.inl ⟨(Except.ok.inj h).symm,fun r hr => ?_⟩
      obtain rfl := Option.some.inj (hrun.symm.trans hr)
      simpa using hidle
    · next hlive =>
      obtain ⟨u,hfold,h⟩ := accepted h
      have hstatus : run.inferenceStatus = .running ∨ run.inferenceStatus = .queued := by
        by_contra hn
        exact hlive (by simpa [not_or] using hn)
      refine Or.inr ⟨run,_,u,hrun,hstatus,rfl,hfold,?_⟩
      split at h
      · exact Or.inl (Except.ok.inj h).symm
      · exact Or.inr h

omit [ActionRuntime] in
theorem queueRun_ok {transcriptId : Option ℕ} {intent : String} {scheduleId : ℕ}
    {scheduledFor : Instant} {snapshot : Dict}
    (h : s.queueRun transcriptId intent scheduleId scheduledFor snapshot now = .ok (s',id)) :
    ∃ row : RunRow, row.kind = .scheduled ∧ row.transcriptId = transcriptId ∧
      row.inferenceStatus = .queued ∧ row.inferenceActive = false ∧ row.status = .queued ∧
      row.finishedAt = none ∧ row.scheduleId = some scheduleId ∧
      row.scheduledFor = some scheduledFor ∧ row.triggerSnapshot = snapshot ∧
      s' = s.addRun row ∧ id = s.runs.length := by
  obtain ⟨⟨t,i⟩,ht,h⟩ := accepted h
  obtain ⟨_,rfl,rfl⟩ := createRun_ok ht
  obtain ⟨rfl,rfl⟩ := Prod.mk.inj (Except.ok.inj h)
  refine ⟨{createdRun transcriptId intent .scheduled now with
    scheduleId := some scheduleId
    scheduledFor := some scheduledFor
    triggerSnapshot := snapshot
    status := .queued
    inferenceStatus := .queued
    inferenceActive := false
    heartbeatAt := none},rfl,rfl,rfl,rfl,rfl,rfl,rfl,rfl,rfl,?_,rfl⟩
  simp only [setRun,addRun]
  congr 1
  apply List.ext_getElem?
  intro j
  by_cases hj : s.runs.length = j
  · subst hj
    simp [createdRun]
  · rw [getElem?_modify_ne _ _ hj,getElem?_insert,getElem?_insert]
    simp [Ne.symm hj]

end

/-- Rows are only added, and an action keeps its run, its operation and its hash. -/
structure Grows (s s' : Ledger) : Prop where
  runs : s.runs.length ≤ s'.runs.length
  actions : ∀ (i : ℕ) (a : ActionRow), s'.actions[i]? = some a →
    (∃ b, s.actions[i]? = some b ∧ a.runId = b.runId ∧ a.operation = b.operation ∧
      a.targetHash = b.targetHash) ∨ (s.actions.length ≤ i ∧ a.runId < s'.runs.length)

namespace Grows

theorem same (hactions : s'.actions = s.actions) (hruns : s.runs.length ≤ s'.runs.length) :
    Grows s s' :=
  ⟨hruns,fun _ a ha => Or.inl ⟨a,hactions ▸ ha,rfl,rfl,rfl⟩⟩

theorem refl (s : Ledger) : Grows s s := same rfl le_rfl

theorem trans {u : Ledger} (h : Grows s s') (h' : Grows s' u) (hlen : s.actions.length ≤
    s'.actions.length) : Grows s u := by
  refine ⟨h.runs.trans h'.runs,fun i a ha => ?_⟩
  rcases h'.actions i a ha with ⟨b,hb,hr,ho,ht⟩ | ⟨hi,hr⟩
  · rcases h.actions i b hb with ⟨c,hc,hr',ho',ht'⟩ | ⟨hi,hr'⟩
    · exact Or.inl ⟨c,hc,hr.trans hr',ho.trans ho',ht.trans ht'⟩
    · exact Or.inr ⟨hi,hr ▸ Nat.lt_of_lt_of_le hr' h'.runs⟩
  · exact Or.inr ⟨hlen.trans hi,hr⟩

theorem changed {a a' : ActionRow} (hactions : Changes s.actions s'.actions id a a')
    (hruns : s.runs.length ≤ s'.runs.length) (hkeep : a'.runId = a.runId ∧
      a'.operation = a.operation ∧ a'.targetHash = a.targetHash) : Grows s s' := by
  refine ⟨hruns,fun i b hb => Or.inl ?_⟩
  rcases hactions.cases hb with ⟨rfl,rfl⟩ | ⟨_,hb⟩
  · exact ⟨a,hactions.before,hkeep⟩
  · exact ⟨b,hb,rfl,rfl,rfl⟩

theorem added {a : ActionRow} (hactions : s'.actions = s.actions ++ [a])
    (hruns : s.runs.length ≤ s'.runs.length) (ha : a.runId < s'.runs.length) : Grows s s' := by
  refine ⟨hruns,fun i b hb => ?_⟩
  rw [hactions,getElem?_insert] at hb
  by_cases hi : i = s.actions.length
  · rw [if_pos hi] at hb
    obtain rfl := Option.some.inj hb
    exact Or.inr ⟨hi.ge,ha⟩
  · rw [if_neg hi] at hb
    exact Or.inl ⟨b,hb,rfl,rfl,rfl⟩

end Grows

theorem length_recomputeRun (s : Ledger) (runId : ℕ) (now : Instant) :
    (s.recomputeRun runId now).runs.length = s.runs.length := by
  rw [recomputeRun_runs,List.length_modify]

theorem Closed.grows {f : ActionRow → ActionRow} (hrow : s.actions[id]? = some action)
    (h : Closed (s.setAction id f) s' id runId now)
    (hf : ∀ a, (f a).runId = a.runId ∧ (f a).operation = a.operation ∧
      (f a).targetHash = a.targetHash) : Grows s s' := by
  refine Grows.changed (?_ : Changes _ _ id action _) ?_ (hf action)
  · rw [h.actions]
    exact Changes.modify hrow f
  · rw [h.runs,List.length_modify]
    exact le_rfl

theorem Marked.grows {f : ActionRow → ActionRow} (hrow : s.actions[id]? = some action)
    (h : Marked (s.setAction id f) s' id runId)
    (hf : ∀ a, (f a).runId = a.runId ∧ (f a).operation = a.operation ∧
      (f a).targetHash = a.targetHash) : Grows s s' := by
  refine Grows.changed (?_ : Changes _ _ id action _) ?_ (hf action)
  · rw [h.actions]
    exact Changes.modify hrow f
  · rw [h.runs,List.length_modify]
    exact le_rfl

theorem Doubted.grows (h : Doubted s s' id) : Grows s s' := by
  obtain ⟨a,hrow,_,hmarked⟩ := h
  exact Marked.grows hrow hmarked fun a => ⟨rfl,rfl,rfl⟩

theorem Doubted.length (h : Doubted s s' id) : s'.actions.length = s.actions.length := by
  obtain ⟨a,hrow,_,hmarked⟩ := h
  rw [hmarked.actions]
  exact List.length_modify _ _ _

theorem remarked_grows {f : ActionRow → ActionRow}
    (hf : ∀ a, (f a).runId = a.runId ∧ (f a).operation = a.operation ∧
      (f a).targetHash = a.targetHash) : Grows s (s.setAction id f) := by
  by_cases h : ∃ a, s.actions[id]? = some a
  · obtain ⟨a,ha⟩ := h
    exact Grows.changed (Changes.modify ha f) le_rfl (hf a)
  · have hnone : s.actions[id]? = none := by
      cases ha : s.actions[id]? with
      | none => rfl
      | some a => exact absurd ⟨a,ha⟩ h
    exact Grows.same (modify_none f hnone) le_rfl

theorem cancel_grows (h : s.cancel id now = .ok s') : Grows s s' := by
  obtain ⟨a,hrow,_,hclosed⟩ := cancel_ok h
  exact Closed.grows hrow hclosed fun a => ⟨rfl,rfl,rfl⟩

theorem complete_grows {status : ActionStatus} {result : Dict} {externalId : Option String}
    (h : s.complete id status result externalId now = .ok s') : Grows s s' := by
  obtain ⟨a,hrow,_,⟨_,hmarked⟩ | ⟨_,hclosed⟩⟩ := complete_ok h
  · exact Marked.grows hrow hmarked fun a => ⟨rfl,rfl,rfl⟩
  · exact Closed.grows hrow hclosed fun a => ⟨rfl,rfl,rfl⟩

theorem abandoned_grows {reason : String} (l : List ℕ) : ∀ {s s' : Ledger},
    l.foldlM (abandonAction reason) s = .ok s' →
      Grows s s' ∧ s'.actions.length = s.actions.length := by
  induction l with
  | nil =>
    intro s s' hc
    obtain rfl := Except.ok.inj hc
    exact ⟨Grows.refl s,rfl⟩
  | cons id l ih =>
    intro s s' hc
    rw [List.foldlM_cons] at hc
    obtain ⟨t,ht,hrest⟩ := accepted hc
    obtain ⟨hg,hl⟩ := ih hrest
    rcases abandonAction_ok ht with rfl | hd
    · exact ⟨hg,hl⟩
    · exact ⟨hd.grows.trans hg hd.length.ge,hl.trans hd.length⟩

variable [ActionRuntime]

theorem interruptRun_grows {reason : String} (h : s.interruptRun runId reason now = .ok s') :
    Grows s s' := by
  rcases interruptRun_ok h with ⟨rfl,_⟩ | ⟨run,t,u,_,_,rfl,hfold,hs⟩
  · exact Grows.refl s'
  · obtain ⟨hg,hl⟩ := abandoned_grows _ hfold
    have hstop : Grows s (s.setRun runId (·.stop .interrupted)) :=
      Grows.same rfl (by simp [setRun])
    have hu : Grows s u := hstop.trans hg le_rfl
    have hv : Grows s (u.recomputeRun runId now) :=
      hu.trans (Grows.same (by simp) (length_recomputeRun _ _ _).ge) hl.ge
    rcases hs with rfl | hs
    · exact hv
    · rcases noteInterruption_ok hs with rfl | ⟨row,_,rfl⟩
      · exact hv
      · exact ⟨hv.runs,hv.actions⟩

theorem apply_grows {op : Op} (hc : s.apply op now = .ok s') : Grows s s' := by
  cases op with
  | openTranscript row =>
    obtain rfl := Except.ok.inj hc
    exact Grows.same rfl le_rfl
  | document transcriptId state =>
    obtain rfl := Except.ok.inj hc
    exact Grows.same rfl le_rfl
  | createRun transcriptId intent kind =>
    obtain ⟨⟨t,i⟩,ht,rfl⟩ := map_accepted hc
    obtain ⟨_,rfl,_⟩ := createRun_ok ht
    exact Grows.same rfl (by simp [addRun])
  | queueRun transcriptId intent scheduleId scheduledFor snapshot =>
    obtain ⟨⟨t,i⟩,ht,rfl⟩ := map_accepted hc
    obtain ⟨row,_,_,_,_,_,_,_,_,_,rfl,_⟩ := queueRun_ok ht
    exact Grows.same rfl (by simp [addRun])
  | startRun runId =>
    obtain rfl := Except.ok.inj hc
    exact Grows.same rfl (by simp [startRun,setRun])
  | heartbeat runId =>
    obtain rfl := Except.ok.inj hc
    exact Grows.same rfl (by simp [heartbeat,setRun])
  | finishRun runId succeeded =>
    rcases finishRun_ok hc with rfl | ⟨run,_,_,_,rfl⟩
    · exact Grows.refl s'
    · exact Grows.same (by rw [recomputeRun_actions]; rfl) (by
        rw [length_recomputeRun,setRun,List.length_modify])
  | interruptRun runId reason => exact interruptRun_grows hc
  | expireRun runId cutoff =>
    obtain rfl := Except.ok.inj hc
    exact Grows.same rfl (by simp [expireRun,setRun])
  | prepareProposal runId operation arguments title capabilityId =>
    obtain ⟨⟨t,i⟩,ht,rfl⟩ := map_accepted hc
    obtain ⟨_,hrun,rfl,capability,rfl⟩ := prepareProposal_ok ht
    refine Grows.added (a := preparedAction s.actions.length runId operation arguments title
      capability now) (by rw [recomputeRun_actions]; rfl) ?_ ?_
    · rw [length_recomputeRun]
      exact le_rfl
    · rw [length_recomputeRun]
      exact hrun
  | beginExecution actionId reviewed =>
    obtain ⟨⟨t,proposal⟩,ht,rfl⟩ := map_accepted hc
    obtain ⟨a,hrow,_,_,_,rfl⟩ := beginExecution_ok ht
    refine Grows.changed (?_ : Changes _ _ actionId a (a.begin now)) ?_ ⟨rfl,rfl,rfl⟩
    · rw [recomputeRun_actions]
      exact Changes.modify hrow _
    · rw [length_recomputeRun]
      exact le_rfl
  | beginAutomaticExecution runId operation arguments summary capabilityId =>
    obtain ⟨⟨t,i⟩,ht,rfl⟩ := map_accepted hc
    obtain ⟨_,hrun,_,rfl⟩ := beginAutomaticExecution_ok ht
    exact Grows.added rfl le_rfl hrun
  | recordExecution runId operation arguments status summary output =>
    obtain ⟨⟨t,i⟩,ht,rfl⟩ := map_accepted hc
    obtain ⟨hrun,_,rfl⟩ := recordExecution_ok ht
    exact Grows.added rfl le_rfl hrun
  | cancel actionId => exact cancel_grows hc
  | supersede actionId =>
    obtain ⟨t,hcancel,rfl⟩ := supersede_ok hc
    have hlen : t.actions.length = s.actions.length := by
      obtain ⟨a,_,_,hclosed⟩ := cancel_ok hcancel
      rw [hclosed.actions]
      exact List.length_modify _ _ _
    exact (cancel_grows hcancel).trans (remarked_grows fun a => ⟨rfl,rfl,rfl⟩) hlen.ge
  | complete actionId status result externalId => exact complete_grows hc
  | finishAction runId actionId result evidenceId =>
    rcases finishAction_ok hc with ⟨a,_,_,rfl⟩ | ⟨t,hcomplete,rfl⟩
    · exact remarked_grows fun a => ⟨rfl,rfl,rfl⟩
    · have hg := complete_grows hcomplete
      rcases noteStagedChange_eq t runId result with he | ⟨row,_,he⟩
      · rw [he]
        exact hg
      · rw [he]
        exact ⟨hg.runs,hg.actions⟩
  | reconcileStaleExecution actionId staleBefore =>
    rcases reconcileStaleExecution_ok hc with rfl | hd
    · exact Grows.refl s'
    · exact hd.grows
  | acknowledgeUncertain actionId =>
    obtain ⟨a,i,hrow,_,_,rfl⟩ := acknowledgeUncertain_ok hc
    exact Grows.changed (Changes.modify hrow _) le_rfl ⟨rfl,rfl,rfl⟩
  | dismissInterruption attentionId =>
    rcases dismissInterruption_ok hc with rfl | ⟨row,_,_,rfl⟩
    · exact Grows.refl s'
    · exact Grows.same rfl le_rfl
  | dismissInformationalNotices =>
    obtain rfl := Except.ok.inj hc
    exact Grows.same rfl le_rfl
  | ownerMessage transcriptId =>
    obtain rfl := Except.ok.inj hc
    exact Grows.same rfl le_rfl
  | stallAttention transcriptId runId title detail =>
    obtain rfl := Except.ok.inj hc
    simp only [stallAttention]
    split
    · exact Grows.refl s
    · exact Grows.same rfl le_rfl
  | resolveStallAttention transcriptId =>
    obtain rfl := Except.ok.inj hc
    exact Grows.same rfl le_rfl

/-- The actions belong to runs of the table. -/
def Linked (s : Ledger) : Prop := ∀ a ∈ s.actions, a.runId < s.runs.length

theorem Linked.step (h : s.Linked) (e : Op × Instant) : (s.step e).Linked := by
  simp only [Ledger.step]
  split
  · next t ht =>
    have hg := apply_grows ht
    intro a ha
    obtain ⟨i,hi⟩ := List.mem_iff_getElem?.mp ha
    rcases hg.actions i a hi with ⟨b,hb,hr,_⟩ | ⟨_,hr⟩
    · rw [hr]
      exact Nat.lt_of_lt_of_le (h b (List.mem_of_getElem? hb)) hg.runs
    · exact hr
  · exact h

end Ledger
end Actions
end Atlas
