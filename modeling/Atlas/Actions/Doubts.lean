import Atlas.Actions.RunStatus
import Atlas.Lib.RowCounts

/-! Actions in doubt and the status of their runs. No transaction takes an action out of doubt, and
a run is in doubt with its actions. -/
namespace Atlas
namespace Actions
namespace Ledger

open RowTable

variable {s s' u : Ledger} {id r runId : ℕ} {a a' : ActionRow} {now : Instant}

/-- Whether an action of a run is in doubt. -/
def Doubtful (s : Ledger) (runId : ℕ) : Prop := .uncertain ∈ s.statuses runId

theorem doubtful_iff : s.Doubtful runId ↔
    ∃ (i : ℕ) (a : ActionRow), s.actions[i]? = some a ∧ a.runId = runId ∧ a.status = .uncertain :=
  mem_statuses

theorem doubtful_of_actions (h : s'.actions = s.actions) (i : ℕ) :
    s'.Doubtful i ↔ s.Doubtful i := by
  rw [Doubtful,statuses,h]
  rfl

/-- A run in doubt has an action in doubt; a run that has one is in doubt, or was started since. -/
def InDoubt (s : Ledger) (i : ℕ) : Prop := ∀ run, s.runs[i]? = some run →
  (run.status = .uncertain → s.Doubtful i) ∧
    (s.Doubtful i → run.status = .uncertain ∨ run.status = .running)

/-- What a transaction leaves of the runs other than one. -/
structure Beside (r : ℕ) (s s' : Ledger) : Prop where
  runs : ∀ i : ℕ, i ≠ r → (s'.runs[i]?).map RunRow.status = (s.runs[i]?).map RunRow.status
  doubts : ∀ i, i ≠ r → (s'.Doubtful i ↔ s.Doubtful i)

/-- What a transaction leaves of the runs. -/
structure Alike (s s' : Ledger) : Prop where
  runs : ∀ i : ℕ, (s'.runs[i]?).map RunRow.status = (s.runs[i]?).map RunRow.status
  doubts : ∀ i, s'.Doubtful i ↔ s.Doubtful i

theorem Beside.trans (h : Beside r s u) (h' : Beside r u s') : Beside r s s' :=
  ⟨fun i hi => (h'.runs i hi).trans (h.runs i hi),
    fun i hi => (h'.doubts i hi).trans (h.doubts i hi)⟩

theorem Beside.refl (r : ℕ) (s : Ledger) : Beside r s s := ⟨fun _ _ => rfl,fun _ _ => Iff.rfl⟩

theorem Alike.same (hruns : s'.runs = s.runs) (hactions : s'.actions = s.actions) : Alike s s' :=
  ⟨fun i => by rw [hruns],doubtful_of_actions hactions⟩

theorem Alike.refl (s : Ledger) : Alike s s := Alike.same rfl rfl

theorem inDoubt_of_alike {i : ℕ} (hrun : (s'.runs[i]?).map RunRow.status =
      (s.runs[i]?).map RunRow.status) (hdoubt : s'.Doubtful i ↔ s.Doubtful i) (h : s.InDoubt i) :
    s'.InDoubt i := by
  intro run hrow
  rw [hrow,Option.map_some] at hrun
  obtain ⟨old,hold,hstatus⟩ := Option.map_eq_some_iff.mp hrun.symm
  rw [hdoubt,← hstatus]
  exact h old hold

theorem Alike.keeps (ha : Alike s s') (h : ∀ i, s.InDoubt i) : ∀ i, s'.InDoubt i :=
  fun i => inDoubt_of_alike (ha.runs i) (ha.doubts i) (h i)

theorem Beside.keeps (hb : Beside r s s') (hr : s'.InDoubt r) (h : ∀ i, s.InDoubt i) :
    ∀ i, s'.InDoubt i := by
  intro i
  by_cases hi : i = r
  · rw [hi]
    exact hr
  · exact inDoubt_of_alike (hb.runs i hi) (hb.doubts i hi) (h i)

/-- One action of a run changed. -/
theorem Beside.changed (hactions : Changes s.actions s'.actions id a a') (hrun : a.runId = r)
    (hkeep : a'.runId = a.runId) (hruns : s'.runs = s.runs) : Beside r s s' := by
  refine ⟨fun i _ => by rw [hruns],fun i hi => ?_⟩
  rw [doubtful_iff,doubtful_iff]
  constructor
  · rintro ⟨j,b,hj,hb,hu⟩
    rcases hactions.cases hj with ⟨rfl,rfl⟩ | ⟨_,hj⟩
    · exact absurd (hb.symm.trans (hkeep.trans hrun)) hi
    · exact ⟨j,b,hj,hb,hu⟩
  · rintro ⟨j,b,hj,hb,hu⟩
    by_cases hid : j = id
    · subst hid
      obtain rfl := Option.some.inj (hactions.before.symm.trans hj)
      exact absurd (hb.symm.trans hrun) hi
    · exact ⟨j,b,(hactions.others j hid).trans hj,hb,hu⟩

/-- A run changed. -/
theorem Beside.onRun {f : RunRow → RunRow} (hruns : s'.runs = s.runs.modify r f)
    (hactions : s'.actions = s.actions) : Beside r s s' := by
  refine ⟨fun i hi => ?_,fun i _ => doubtful_of_actions hactions i⟩
  rw [hruns,getElem?_modify_ne _ _ (Ne.symm hi)]

/-- An action added that is not in doubt. -/
theorem Alike.added (hactions : s'.actions = s.actions ++ [a]) (ha : a.status ≠ .uncertain)
    (hruns : s'.runs = s.runs) : Alike s s' := by
  refine ⟨fun i => by rw [hruns],fun i => ?_⟩
  rw [Doubtful,Doubtful,statuses,statuses,hactions,List.filter_append,List.map_append,
    List.mem_append,or_iff_left_iff_imp]
  intro hin
  obtain ⟨b,hb,hu⟩ := List.mem_map.mp hin
  rw [List.mem_singleton.mp (List.mem_of_mem_filter hb)] at hu
  exact absurd hu ha

/-- A remark on an action. -/
theorem Alike.remarked {f : ActionRow → ActionRow}
    (hf : ∀ a, (f a).runId = a.runId ∧ (f a).status = a.status) (s : Ledger) (id : ℕ) :
    Alike s (s.setAction id f) := by
  refine ⟨fun _ => rfl,fun i => ?_⟩
  have hcolumn : (s.setAction id f).actions.map (fun a : ActionRow => (a.runId,a.status)) =
      s.actions.map fun a : ActionRow => (a.runId,a.status) :=
    map_modify_eq id fun a => by rw [(hf a).1,(hf a).2]
  have hstatuses : ∀ l : List ActionRow, (l.filter fun a => a.runId == i).map (·.status) =
      ((l.map fun a : ActionRow => (a.runId,a.status)).filter fun p => p.1 == i).map Prod.snd := by
    intro l
    rw [List.filter_map,List.map_map]
    rfl
  rw [Doubtful,Doubtful,statuses,statuses,hstatuses,hstatuses,hcolumn]

/-- A run whose status is computed anew. -/
theorem inDoubt_settled (hruns : s'.runs = u.runs.modify r (·.settle (u.statuses r) now))
    (hactions : s'.actions = u.actions) : s'.InDoubt r := by
  intro run hrow
  rw [hruns,getElem?_modify_self] at hrow
  obtain ⟨old,_,rfl⟩ := Option.map_eq_some_iff.mp hrow
  rw [doubtful_of_actions hactions,Doubtful]
  simp only [RunRow.settle,runPriority]
  by_cases hu : ActionStatus.uncertain ∈ u.statuses r
  · simp [hu]
  · simp only [hu,if_false]
    refine ⟨fun h => ?_,fun h => absurd h (by simp)⟩
    split_ifs at h

/-- A run that is left in doubt with an action. -/
theorem inDoubt_doubted (hruns : s'.runs = u.runs.modify r (·.doubt)) (h : s'.Doubtful r) :
    s'.InDoubt r := by
  intro run hrow
  rw [hruns,getElem?_modify_self] at hrow
  obtain ⟨old,_,rfl⟩ := Option.map_eq_some_iff.mp hrow
  exact ⟨fun _ => h,fun _ => .inl rfl⟩

theorem Beside.settled (hb : Beside r s u)
    (hruns : s'.runs = u.runs.modify r (·.settle (u.statuses r) now))
    (hactions : s'.actions = u.actions) (h : ∀ i, s.InDoubt i) : ∀ i, s'.InDoubt i :=
  (hb.trans (.onRun hruns hactions)).keeps (inDoubt_settled hruns hactions) h

theorem Beside.recomputed (hb : Beside r s u) (now : Instant) (h : ∀ i, s.InDoubt i) :
    ∀ i, (u.recomputeRun r now).InDoubt i :=
  hb.settled (recomputeRun_runs u r now) (recomputeRun_actions u r now) h

/-- What an action in doubt leaves of the other runs, and of its own. -/
theorem Marked.inDoubt {f : ActionRow → ActionRow} (hrow : s.actions[id]? = some a)
    (h : Marked (s.setAction id f) s' id a.runId)
    (hf : (f a).runId = a.runId ∧ (f a).status = .uncertain) :
    Beside a.runId s s' ∧ s'.InDoubt a.runId := by
  have hchange : Changes s.actions (s.setAction id f).actions id a (f a) := .modify hrow f
  have hdoubt : s'.Doubtful a.runId :=
    doubtful_iff.mpr ⟨id,f a,by rw [h.actions]; exact hchange.after,hf⟩
  exact ⟨(Beside.changed hchange rfl hf.1 rfl).trans (.onRun h.runs h.actions),
    inDoubt_doubted h.runs hdoubt⟩

theorem Doubted.beside (h : Doubted s s' id) (hrun : ∀ a, s.actions[id]? = some a → a.runId = r) :
    Beside r s s' := by
  obtain ⟨a,hrow,_,hmarked⟩ := h
  rw [← hrun a hrow]
  exact (Marked.inDoubt hrow hmarked ⟨rfl,rfl⟩).1

theorem Doubted.inDoubt (h : Doubted s s' id) (hall : ∀ i, s.InDoubt i) : ∀ i, s'.InDoubt i := by
  obtain ⟨a,hrow,_,hmarked⟩ := h
  obtain ⟨hbeside,hin⟩ := Marked.inDoubt hrow hmarked ⟨rfl,rfl⟩
  exact hbeside.keeps hin hall

theorem abandoned_beside {reason : String} (l : List ℕ) : ∀ {s s' : Ledger},
    (∀ id ∈ l, ∀ a, s.actions[id]? = some a → a.runId = r) →
    l.foldlM (abandonAction reason) s = .ok s' → Beside r s s' := by
  induction l with
  | nil =>
    intro s s' _ hc
    obtain rfl := Except.ok.inj hc
    exact .refl r s
  | cons id l ih =>
    intro s s' hl hc
    rw [List.foldlM_cons] at hc
    obtain ⟨t,ht,hrest⟩ := accepted hc
    have hl' := fun j hj => hl j (List.mem_cons_of_mem _ hj)
    rcases abandonAction_ok ht with rfl | hd
    · exact ih hl' hrest
    · exact (hd.beside (hl id List.mem_cons_self)).trans
        (ih (fun j hj => hd.runIds (hl' j hj)) hrest)

theorem cancel_inDoubt (h : ∀ i, s.InDoubt i) (hc : s.cancel id now = .ok s') :
    ∀ i, s'.InDoubt i := by
  obtain ⟨a,hrow,_,hclosed⟩ := cancel_ok hc
  have hbeside : Beside a.runId s (s.setAction id (·.cancel)) :=
    .changed (Changes.modify hrow _) rfl rfl rfl
  exact hbeside.settled hclosed.runs hclosed.actions h

theorem complete_inDoubt (h : ∀ i, s.InDoubt i) {status : ActionStatus} {result : Dict}
    {externalId : Option String} (hc : s.complete id status result externalId now = .ok s') :
    ∀ i, s'.InDoubt i := by
  obtain ⟨a,hrow,_,⟨rfl,hmarked⟩ | ⟨_,hclosed⟩⟩ := complete_ok hc
  · obtain ⟨hbeside,hin⟩ := Marked.inDoubt hrow hmarked ⟨rfl,rfl⟩
    exact hbeside.keeps hin h
  · have hbeside : Beside a.runId s (s.setAction id (·.complete status result externalId)) :=
      .changed (Changes.modify hrow _) rfl rfl rfl
    exact hbeside.settled hclosed.runs hclosed.actions h

/-- Runs added that have no action. -/
theorem addRuns_inDoubt (h : ∀ i, s.InDoubt i) (hl : s.Linked) {rows : List RunRow}
    (hstatus : ∀ row ∈ rows, row.status ≠ .uncertain) (hruns : s'.runs = s.runs ++ rows)
    (hactions : s'.actions = s.actions) : ∀ i, s'.InDoubt i := by
  intro i run hrow
  rw [hruns] at hrow
  rw [doubtful_of_actions hactions]
  by_cases hi : i < s.runs.length
  · rw [List.getElem?_append_left hi] at hrow
    exact h i run hrow
  · rw [List.getElem?_append_right (by omega)] at hrow
    refine ⟨fun hu => absurd hu (hstatus run (List.mem_of_getElem? hrow)),fun hd => ?_⟩
    obtain ⟨j,b,hj,hb,_⟩ := doubtful_iff.mp hd
    have hlt := hl b (List.mem_of_getElem? hj)
    omega

/-- A change of a run that leaves its status, or starts it. -/
theorem setRun_inDoubt (h : ∀ i, s.InDoubt i) {f : RunRow → RunRow}
    (hf : ∀ run, (f run).status = run.status ∨ (f run).status = .running)
    (hruns : s'.runs = s.runs.modify r f) (hactions : s'.actions = s.actions) :
    ∀ i, s'.InDoubt i := by
  refine (Beside.onRun hruns hactions).keeps (fun run hrow => ?_) h
  rw [hruns,getElem?_modify_self] at hrow
  obtain ⟨old,hold,rfl⟩ := Option.map_eq_some_iff.mp hrow
  rw [doubtful_of_actions hactions]
  rcases hf old with hs | hs
  · rw [hs]
    exact h r old hold
  · rw [hs]
    exact ⟨fun hu => (by cases hu),fun _ => .inr rfl⟩

variable [ActionRuntime]

theorem interruptRun_inDoubt (h : ∀ i, s.InDoubt i) {reason : String}
    (hc : s.interruptRun runId reason now = .ok s') : ∀ i, s'.InDoubt i := by
  rcases interruptRun_ok hc with ⟨rfl,_⟩ | ⟨run,t,u,_,_,rfl,hfold,hs⟩
  · exact h
  · have hstop : Beside runId s (s.setRun runId (·.stop .interrupted)) := .onRun rfl rfl
    have hdoubts := abandoned_beside (r := runId) _ (fun id hid a ha => ?_) hfold
    · have hsettled := (hstop.trans hdoubts).recomputed now h
      rcases hs with rfl | hs
      · exact hsettled
      · rcases noteInterruption_ok hs with rfl | ⟨row,_,rfl⟩
        · exact hsettled
        · exact (Alike.same rfl rfl).keeps hsettled
    · obtain ⟨b,hb,hp⟩ := mem_ids.mp hid
      obtain rfl := Option.some.inj (hb.symm.trans ha)
      simp only [Bool.and_eq_true,beq_iff_eq] at hp
      exact hp.1

/-- Every transaction keeps the runs in doubt with their actions. -/
theorem apply_inDoubt (h : ∀ i, s.InDoubt i) (hl : s.Linked) {op : Op}
    (hc : s.apply op now = .ok s') : ∀ i, s'.InDoubt i := by
  cases op with
  | openTranscript row =>
    obtain rfl := Except.ok.inj hc
    exact (Alike.same rfl rfl).keeps h
  | document transcriptId state =>
    obtain rfl := Except.ok.inj hc
    exact (Alike.same rfl rfl).keeps h
  | createRun transcriptId intent kind =>
    obtain ⟨⟨t,i⟩,ht,rfl⟩ := map_accepted hc
    obtain ⟨_,rfl,_⟩ := createRun_ok ht
    exact addRuns_inDoubt h hl (by simp [createdRun]) rfl rfl
  | queueRun transcriptId intent scheduleId scheduledFor snapshot =>
    obtain ⟨⟨t,i⟩,ht,rfl⟩ := map_accepted hc
    obtain ⟨row,_,_,_,_,hstatus,_,_,_,_,rfl,_⟩ := queueRun_ok ht
    exact addRuns_inDoubt h hl (by simp [hstatus]) rfl rfl
  | startRun runId =>
    obtain rfl := Except.ok.inj hc
    refine setRun_inDoubt h (fun run => ?_) rfl rfl
    split
    · exact .inl rfl
    · exact .inr rfl
  | heartbeat runId =>
    obtain rfl := Except.ok.inj hc
    refine setRun_inDoubt h (fun run => .inl ?_) rfl rfl
    split
    · rfl
    · rfl
  | finishRun runId succeeded =>
    rcases finishRun_ok hc with rfl | ⟨run,_,_,_,rfl⟩
    · exact h
    · have hstop : Beside runId s
          (s.setRun runId (·.stop (if succeeded then .succeeded else .failed))) := .onRun rfl rfl
      exact hstop.recomputed now h
  | interruptRun runId reason => exact interruptRun_inDoubt h hc
  | expireRun runId cutoff =>
    obtain rfl := Except.ok.inj hc
    refine setRun_inDoubt h (fun run => .inl ?_) rfl rfl
    split
    · rfl
    · rfl
  | prepareProposal runId operation arguments title capabilityId =>
    obtain ⟨⟨t,i⟩,ht,rfl⟩ := map_accepted hc
    obtain ⟨_,_,rfl,capability,rfl⟩ := prepareProposal_ok ht
    have hadded : Alike s ((s.addAction (preparedAction s.actions.length runId operation arguments
        title capability now)).addAttention (approvalNotice s.actions.length runId operation
          arguments title now)) := .added rfl (by simp [preparedAction]) rfl
    exact (Beside.refl runId _).recomputed now (hadded.keeps h)
  | beginExecution actionId reviewed =>
    obtain ⟨⟨t,proposal⟩,ht,rfl⟩ := map_accepted hc
    obtain ⟨a,hrow,_,_,_,rfl⟩ := beginExecution_ok ht
    have hbegun : Beside a.runId s (s.setAction actionId (·.begin now)) :=
      .changed (Changes.modify hrow (·.begin now)) rfl rfl rfl
    exact hbegun.recomputed now h
  | beginAutomaticExecution runId operation arguments summary capabilityId =>
    obtain ⟨⟨t,i⟩,ht,rfl⟩ := map_accepted hc
    obtain ⟨_,_,_,rfl⟩ := beginAutomaticExecution_ok ht
    have hadded : Alike s (s.addAction (automaticAction i runId operation arguments summary
      capabilityId now)) := .added rfl (by simp [automaticAction]) rfl
    exact hadded.keeps h
  | recordExecution runId operation arguments status summary output =>
    obtain ⟨⟨t,i⟩,ht,rfl⟩ := map_accepted hc
    obtain ⟨_,_,rfl⟩ := recordExecution_ok ht
    have hadded : Alike s (s.addAction (recordedAction i runId operation arguments status summary
        output now)) := by
      refine .added rfl ?_ rfl
      simp only [recordedAction]
      split <;> simp
    exact hadded.keeps h
  | cancel actionId => exact cancel_inDoubt h hc
  | supersede actionId =>
    obtain ⟨t,hcancel,rfl⟩ := supersede_ok hc
    exact (Alike.remarked (f := (·.remark "cancel_reason" "superseded_by_current_auto_authority"))
      (fun a => ⟨rfl,rfl⟩) t actionId).keeps (cancel_inDoubt h hcancel)
  | complete actionId status result externalId => exact complete_inDoubt h hc
  | finishAction runId actionId result evidenceId =>
    rcases finishAction_ok hc with ⟨a,_,_,rfl⟩ | ⟨t,hcomplete,rfl⟩
    · exact (Alike.remarked (f := (·.remark "late_result_evidence_id" evidenceId))
        (fun a => ⟨rfl,rfl⟩) s actionId).keeps h
    · have ht := complete_inDoubt h hcomplete
      rcases noteStagedChange_eq t runId result with he | ⟨row,_,he⟩
      · rw [he]
        exact ht
      · rw [he]
        exact (Alike.same rfl rfl).keeps ht
  | reconcileStaleExecution actionId staleBefore =>
    rcases reconcileStaleExecution_ok hc with rfl | hd
    · exact h
    · exact hd.inDoubt h
  | acknowledgeUncertain actionId =>
    obtain ⟨a,i,_,_,_,rfl⟩ := acknowledgeUncertain_ok hc
    have hsame : ∀ j, (s.setAttention i (·.resolve now)).InDoubt j :=
      (Alike.same rfl rfl).keeps h
    exact (Alike.remarked (f := (·.remark "owner_acknowledged_at" (PyRuntime.isoformat now)))
      (fun a => ⟨rfl,rfl⟩) _ actionId).keeps hsame
  | dismissInterruption attentionId =>
    rcases dismissInterruption_ok hc with rfl | ⟨row,_,_,rfl⟩
    · exact h
    · exact (Alike.same rfl rfl).keeps h
  | dismissInformationalNotices =>
    obtain rfl := Except.ok.inj hc
    exact (Alike.same rfl rfl).keeps h
  | ownerMessage transcriptId =>
    obtain rfl := Except.ok.inj hc
    exact (Alike.same rfl rfl).keeps h
  | stallAttention transcriptId runId title detail =>
    obtain rfl := Except.ok.inj hc
    simp only [stallAttention]
    split
    · exact h
    · exact (Alike.same rfl rfl).keeps h
  | resolveStallAttention transcriptId =>
    obtain rfl := Except.ok.inj hc
    exact (Alike.same rfl rfl).keeps h

theorem step_inDoubt (h : ∀ i, s.InDoubt i) (hl : s.Linked) (e : Op × Instant) :
    ∀ i, (s.step e).InDoubt i := by
  simp only [step]
  split
  · next t ht => exact apply_inDoubt h hl ht
  · exact h

end Ledger
end Actions
end Atlas
