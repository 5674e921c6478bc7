import Atlas.Actions.AuthoritySteps
import Atlas.Lib.RowCounts

/-! The inference of a run across the transactions of the store: it is started at most once and
ended at most once. -/
namespace Atlas
namespace Actions

open RowTable

/-- What says whose inference a run is and how far it has come. -/
structure Inference where
  kind : RunKind
  transcriptId : Option ℕ
  active : Bool
  status : InferenceStatus

def RunRow.inference (r : RunRow) : Inference :=
  ⟨r.kind,r.transcriptId,r.inferenceActive,r.inferenceStatus⟩

/-- What can happen to an inference. -/
inductive Inference.Move : Inference → Inference → Prop
  | start {x : Inference} : x.status = .queued → Move x {x with active := true, status := .running}
  | finish {x : Inference} {status : InferenceStatus} : x.active = true → x.status = .running →
      status = .succeeded ∨ status = .failed → Move x {x with active := false, status := status}
  | interrupt {x : Inference} : x.status = .running ∨ x.status = .queued →
      Move x {x with active := false, status := .interrupted}
  | expire {x : Inference} : x.status = .running → Move x {x with active := false}

/-- Whether an operation ends the inference of a run. -/
def Op.endsInference : Op → Bool
  | .finishRun _ _ => true
  | .interruptRun _ _ => true
  | _ => false

/-- The inference of a run that has just been made. -/
def Inference.Fresh (x : Inference) : Prop :=
  (x.active = true ∧ x.status = .running) ∨
    (x.active = false ∧ x.status = .queued ∧ x.kind = .scheduled)

namespace Ledger

variable {s s' : Ledger} {id runId : ℕ} {now : Instant}

def inferences (s : Ledger) : List Inference := s.runs.map RunRow.inference

theorem inferences_of_runs (h : s'.runs = s.runs) : s'.inferences = s.inferences := by
  rw [inferences,h,inferences]

theorem inferences_of_modify {f : RunRow → RunRow} (h : s'.runs = s.runs.modify runId f)
    (hf : ∀ r, (f r).inference = r.inference) : s'.inferences = s.inferences := by
  rw [inferences,h]
  exact map_modify_eq runId hf

theorem inferences_of_add {row : RunRow} (h : s'.runs = s.runs ++ [row]) :
    s'.inferences = s.inferences ++ [row.inference] := by
  rw [inferences,h,List.map_append]
  rfl

theorem inferences_getElem? (s : Ledger) (i : ℕ) :
    s.inferences[i]? = (s.runs[i]?).map RunRow.inference := List.getElem?_map

/-- The runs before and after a transaction, seen through their inferences. -/
inductive Moves (s s' : Ledger) (p : RunKind → Prop) (q : InferenceStatus → Prop) : Prop
  | none : s'.inferences = s.inferences → Moves s s' p q
  | added {x : Inference} : x.Fresh → p x.kind → s'.inferences = s.inferences ++ [x] →
      Moves s s' p q
  | moved {i : ℕ} {x x' : Inference} : Changes s.inferences s'.inferences i x x' →
      Inference.Move x x' → q x'.status → Moves s s' p q

theorem Closed.inferences {t : Ledger} (h : Closed t s' id runId now) :
    s'.inferences = t.inferences :=
  inferences_of_modify h.runs fun _ => rfl

theorem Marked.inferences {t : Ledger} (h : Marked t s' id runId) :
    s'.inferences = t.inferences :=
  inferences_of_modify h.runs fun _ => rfl

theorem recomputeRun_inferences (s : Ledger) (runId : ℕ) (now : Instant) :
    (s.recomputeRun runId now).inferences = s.inferences :=
  inferences_of_modify (recomputeRun_runs s runId now) fun _ => rfl

theorem cancel_inferences (h : s.cancel id now = .ok s') : s'.inferences = s.inferences := by
  obtain ⟨a,_,_,hclosed⟩ := cancel_ok h
  have hi := Closed.inferences hclosed
  exact hi

theorem complete_inferences {status : ActionStatus} {result : Dict} {externalId : Option String}
    (h : s.complete id status result externalId now = .ok s') : s'.inferences = s.inferences := by
  obtain ⟨a,_,_,⟨_,hmarked⟩ | ⟨_,hclosed⟩⟩ := complete_ok h
  · have hi := Marked.inferences hmarked
    exact hi
  · have hi := Closed.inferences hclosed
    exact hi

theorem Doubted.inferences (h : Doubted s s' id) : s'.inferences = s.inferences := by
  obtain ⟨a,_,_,hmarked⟩ := h
  have hi := Marked.inferences hmarked
  exact hi

theorem abandoned_inferences {reason : String} (l : List ℕ) : ∀ {s s' : Ledger},
    l.foldlM (abandonAction reason) s = .ok s' → s'.inferences = s.inferences := by
  induction l with
  | nil =>
    intro s s' hc
    obtain rfl := Except.ok.inj hc
    rfl
  | cons id l ih =>
    intro s s' hc
    rw [List.foldlM_cons] at hc
    obtain ⟨t,ht,hrest⟩ := accepted hc
    rcases abandonAction_ok ht with rfl | hd
    · exact ih hrest
    · exact (ih hrest).trans hd.inferences

/-- One run changed. -/
theorem changes_setRun {run : RunRow} (hrun : s.runs[runId]? = some run) (f : RunRow → RunRow) :
    Changes s.inferences (s.setRun runId f).inferences runId run.inference (f run).inference :=
  (Changes.modify hrun f).map RunRow.inference

/-- A run changed by a function that leaves some runs alone. -/
theorem moves_setRun {p : RunKind → Prop} {q : InferenceStatus → Prop} {f : RunRow → RunRow}
    (hf : ∀ r, f r = r ∨ (Inference.Move r.inference (f r).inference ∧
      q (f r).inferenceStatus) ∨ (f r).inference = r.inference) :
    Moves s (s.setRun runId f) p q := by
  cases hrun : s.runs[runId]? with
  | none => exact .none (inferences_of_runs (modify_none f hrun))
  | some run =>
    rcases hf run with he | ⟨hm,hq⟩ | he
    · refine .none (inferences_of_runs (modify_of_eq fun r hr => ?_))
      rw [Option.some.inj (hr.symm.trans hrun),he]
    · exact .moved (changes_setRun hrun f) hm hq
    · refine .none ?_
      have hchange := changes_setRun hrun f
      rw [he] at hchange
      apply List.ext_getElem?
      intro j
      by_cases hj : j = runId
      · rw [hj,hchange.after,hchange.before]
      · exact hchange.others j hj

variable [ActionRuntime]

theorem interruptRun_changes {reason : String} (h : s.interruptRun runId reason now = .ok s') :
    (s' = s ∧ ∀ run : RunRow, s.runs[runId]? = some run →
      run.inferenceStatus ≠ .running ∧ run.inferenceStatus ≠ .queued) ∨
    ∃ run : RunRow, s.runs[runId]? = some run ∧
      (run.inferenceStatus = .running ∨ run.inferenceStatus = .queued) ∧
      Changes s.inferences s'.inferences runId run.inference
        {run.inference with active := false, status := .interrupted} := by
  rcases interruptRun_ok h with ⟨rfl,hidle⟩ | ⟨run,t,u,hrun,hlive,rfl,hfold,hs⟩
  · exact Or.inl ⟨rfl,hidle⟩
  · have hinf : s'.inferences = (s.setRun runId (·.stop .interrupted)).inferences := by
      rw [← abandoned_inferences _ hfold,← recomputeRun_inferences u runId now]
      rcases hs with rfl | hs
      · rfl
      · rcases noteInterruption_ok hs with rfl | ⟨row,_,rfl⟩
        · rfl
        · rfl
    have hchange := changes_setRun hrun (·.stop .interrupted)
    rw [← hinf] at hchange
    exact Or.inr ⟨run,hrun,hlive,hchange⟩

theorem interruptRun_moves {p : RunKind → Prop} {q : InferenceStatus → Prop}
    (hq : q .interrupted) {reason : String} (h : s.interruptRun runId reason now = .ok s') :
    Moves s s' p q := by
  rcases interruptRun_changes h with ⟨rfl,_⟩ | ⟨run,_,hlive,hchange⟩
  · exact .none rfl
  · exact .moved hchange (.interrupt hlive) hq

omit [ActionRuntime] in
theorem finishRun_changes {succeeded : Bool} (h : s.finishRun runId succeeded now = .ok s') :
    s' = s ∨ ∃ run : RunRow, s.runs[runId]? = some run ∧ run.inferenceActive = true ∧
      run.inferenceStatus = .running ∧ Changes s.inferences s'.inferences runId run.inference
        {run.inference with
          active := false, status := if succeeded then .succeeded else .failed} := by
  rcases finishRun_ok h with rfl | ⟨run,hrun,ha,hs,rfl⟩
  · exact Or.inl rfl
  · have hchange := changes_setRun hrun
      (·.stop (if succeeded then InferenceStatus.succeeded else .failed))
    rw [← recomputeRun_inferences (s.setRun _ _) runId now] at hchange
    exact Or.inr ⟨run,hrun,ha,hs,hchange⟩

/-- A transaction makes one run at most, or moves the inference of one, and only two of them
end one. -/
theorem apply_moves {op : Op} (hc : s.apply op now = .ok s') : Moves s s'
    (fun kind => kind ≠ .background ∨
      ∃ transcriptId intent, op = .createRun transcriptId intent .background)
    (fun status => status = .running ∨ op.endsInference = true) := by
  cases op with
  | openTranscript row =>
    obtain rfl := Except.ok.inj hc
    exact .none rfl
  | document transcriptId state =>
    obtain rfl := Except.ok.inj hc
    exact .none rfl
  | createRun transcriptId intent kind =>
    obtain ⟨⟨t,i⟩,ht,rfl⟩ := map_accepted hc
    obtain ⟨_,rfl,_⟩ := createRun_ok ht
    refine .added (Or.inl ⟨rfl,rfl⟩) ?_ (inferences_of_add rfl)
    by_cases hk : kind = .background
    · exact Or.inr ⟨transcriptId,intent,by rw [hk]⟩
    · exact Or.inl hk
  | queueRun transcriptId intent scheduleId scheduledFor snapshot =>
    obtain ⟨⟨t,i⟩,ht,rfl⟩ := map_accepted hc
    obtain ⟨row,hk,_,hq,ha,_,_,_,_,_,rfl,_⟩ := queueRun_ok ht
    refine .added (x := row.inference) (Or.inr ⟨ha,hq,hk⟩) (Or.inl ?_) (inferences_of_add rfl)
    simp [RunRow.inference,hk]
  | startRun runId =>
    obtain rfl := Except.ok.inj hc
    refine moves_setRun fun r => ?_
    by_cases hq : r.inferenceStatus = .queued
    · rw [if_neg (by simp [hq])]
      exact Or.inr (Or.inl ⟨.start hq,Or.inl rfl⟩)
    · rw [if_pos hq]
      exact Or.inl rfl
  | heartbeat runId =>
    obtain rfl := Except.ok.inj hc
    refine moves_setRun fun r => Or.inr (Or.inr ?_)
    split
    · rfl
    · rfl
  | finishRun runId succeeded =>
    rcases finishRun_changes hc with rfl | ⟨run,_,ha,hs,hchange⟩
    · exact .none rfl
    · refine .moved hchange (.finish (x := run.inference) ha hs ?_) (Or.inr rfl)
      by_cases hok : succeeded = true
      · rw [if_pos hok]
        exact Or.inl rfl
      · rw [if_neg hok]
        exact Or.inr rfl
  | interruptRun runId reason => exact interruptRun_moves (Or.inr rfl) hc
  | expireRun runId cutoff =>
    obtain rfl := Except.ok.inj hc
    refine moves_setRun fun r => ?_
    split
    · exact Or.inl rfl
    · next hlive =>
      rw [not_or,not_not] at hlive
      exact Or.inr (Or.inl ⟨.expire hlive.1,Or.inl hlive.1⟩)
  | prepareProposal runId operation arguments title capabilityId =>
    obtain ⟨⟨t,i⟩,ht,rfl⟩ := map_accepted hc
    obtain ⟨_,_,_,capability,rfl⟩ := prepareProposal_ok ht
    exact .none (recomputeRun_inferences _ _ _)
  | beginExecution actionId reviewed =>
    obtain ⟨⟨t,proposal⟩,ht,rfl⟩ := map_accepted hc
    obtain ⟨a,_,_,_,_,rfl⟩ := beginExecution_ok ht
    exact .none (recomputeRun_inferences _ _ _)
  | beginAutomaticExecution runId operation arguments summary capabilityId =>
    obtain ⟨⟨t,i⟩,ht,rfl⟩ := map_accepted hc
    obtain ⟨_,_,_,rfl⟩ := beginAutomaticExecution_ok ht
    exact .none rfl
  | recordExecution runId operation arguments status summary output =>
    obtain ⟨⟨t,i⟩,ht,rfl⟩ := map_accepted hc
    obtain ⟨_,_,rfl⟩ := recordExecution_ok ht
    exact .none rfl
  | cancel actionId => exact .none (cancel_inferences hc)
  | supersede actionId =>
    obtain ⟨t,hcancel,rfl⟩ := supersede_ok hc
    have hi := cancel_inferences hcancel
    exact .none hi
  | complete actionId status result externalId => exact .none (complete_inferences hc)
  | finishAction runId actionId result evidenceId =>
    rcases finishAction_ok hc with ⟨a,_,_,rfl⟩ | ⟨t,hcomplete,rfl⟩
    · exact .none rfl
    · have hi := complete_inferences hcomplete
      rcases noteStagedChange_eq t runId result with he | ⟨row,_,he⟩
      · rw [he]
        exact .none hi
      · rw [he]
        exact .none hi
  | reconcileStaleExecution actionId staleBefore =>
    rcases reconcileStaleExecution_ok hc with rfl | hd
    · exact .none rfl
    · exact .none hd.inferences
  | acknowledgeUncertain actionId =>
    obtain ⟨a,i,_,_,_,rfl⟩ := acknowledgeUncertain_ok hc
    exact .none rfl
  | dismissInterruption attentionId =>
    rcases dismissInterruption_ok hc with rfl | ⟨row,_,_,rfl⟩
    · exact .none rfl
    · exact .none rfl
  | dismissInformationalNotices =>
    obtain rfl := Except.ok.inj hc
    exact .none rfl
  | ownerMessage transcriptId =>
    obtain rfl := Except.ok.inj hc
    exact .none rfl
  | stallAttention transcriptId runId title detail =>
    obtain rfl := Except.ok.inj hc
    simp only [stallAttention]
    split
    · exact .none rfl
    · exact .none rfl
  | resolveStallAttention transcriptId =>
    obtain rfl := Except.ok.inj hc
    exact .none rfl

end Ledger
end Actions
end Atlas
