import Atlas.Actions.AuthoritySteps

/-! The status of a run against its ledger: which transactions keep it equal to what the
statuses of its actions and its inference amount to. -/
namespace Atlas
namespace Actions

open RowTable

section

variable {l l' : List ActionStatus} {active : Bool} {inference : InferenceStatus}

theorem runPriority_congr (h : ∀ x, x ∈ l ↔ x ∈ l') :
    runPriority l active inference = runPriority l' active inference := by
  simp only [runPriority,h]

/-- An automatic execution that starts while its run counts as running or in doubt. -/
theorem runPriority_executing
    (h : .uncertain ∈ l ∨ .executing ∈ l ∨ (.prepared ∉ l ∧ active = true)) :
    runPriority (.executing :: l) active inference = runPriority l active inference := by
  by_cases hu : ActionStatus.uncertain ∈ l
  · simp [runPriority,hu]
  · by_cases he : ActionStatus.executing ∈ l
    · simp [runPriority,hu,he]
    · obtain ⟨hp,ha⟩ : ActionStatus.prepared ∉ l ∧ active = true := by
        rcases h with h | h | h
        · exact absurd h hu
        · exact absurd h he
        · exact h
      simp [runPriority,hu,he,hp,ha]

theorem runPriority_succeeded :
    runPriority (.succeeded :: l) active inference = runPriority l active inference := by
  simp [runPriority]

/-- A failure that the status of the run does not depend on. -/
theorem runPriority_failed (h : .uncertain ∈ l ∨ .executing ∈ l ∨ .prepared ∈ l ∨ .failed ∈ l ∨
    active = true ∨ inference = .failed ∨ inference = .interrupted) :
    runPriority (.failed :: l) active inference = runPriority l active inference := by
  rcases h with h | h | h | h | h | h | h
  · simp [runPriority,h]
  · simp [runPriority,h]
  · simp [runPriority,h]
  · simp [runPriority,h]
  · simp [runPriority,h]
  · simp [runPriority,h]
  · simp [runPriority,h]

end

/-- The status and the end of a run are what its actions and its inference amount to. -/
def RunRow.Settled (run : RunRow) (statuses : List ActionStatus) : Prop :=
  run.status = runPriority statuses run.inferenceActive run.inferenceStatus ∧
    (run.finishedAt.isSome ↔
      run.status ∈ [RunStatus.succeeded,.failed,.cancelled,.interrupted])

theorem RunRow.settle_settled (run : RunRow) (statuses : List ActionStatus) (now : Instant) :
    (run.settle statuses now).Settled statuses := by
  refine ⟨rfl,?_⟩
  simp only [RunRow.settle]
  generalize runPriority statuses run.inferenceActive run.inferenceStatus = status
  cases status <;> simp [RunStatus.finished]

theorem RunRow.Settled.congr {run : RunRow} {l l' : List ActionStatus} (h : run.Settled l)
    (hl : ∀ x, x ∈ l' ↔ x ∈ l) : run.Settled l' :=
  ⟨h.1.trans (runPriority_congr fun x => (hl x).symm),h.2⟩

namespace Ledger

variable {s s' : Ledger} {id r runId : ℕ} {a a' action : ActionRow} {now : Instant}

theorem mem_statuses {x : ActionStatus} : x ∈ s.statuses runId ↔
    ∃ (i : ℕ) (a : ActionRow), s.actions[i]? = some a ∧ a.runId = runId ∧ a.status = x := by
  simp only [statuses,List.mem_map,List.mem_filter,beq_iff_eq]
  constructor
  · rintro ⟨a,⟨ha,hr⟩,hx⟩
    obtain ⟨i,hi⟩ := List.mem_iff_getElem?.mp ha
    exact ⟨i,a,hi,hr,hx⟩
  · rintro ⟨i,a,hi,hr,hx⟩
    exact ⟨a,⟨List.mem_of_getElem? hi,hr⟩,hx⟩

/-- The law for every run that has left the queue, but for one. -/
def SettledBut (s : Ledger) (r : ℕ) : Prop := ∀ (id : ℕ) (run : RunRow), id ≠ r → s.runs[id]? = some run →
  run.inferenceStatus ≠ .queued → run.Settled (s.statuses id)

/-- Every run that has left the queue has the status its ledger amounts to. -/
def StatusLaw (s : Ledger) : Prop := ∀ (id : ℕ) (run : RunRow), s.runs[id]? = some run →
  run.inferenceStatus ≠ .queued → run.Settled (s.statuses id)

theorem StatusLaw.but (h : s.StatusLaw) (r : ℕ) : s.SettledBut r :=
  fun id run _ => h id run

theorem StatusLaw.same (h : s.StatusLaw) (hruns : s'.runs = s.runs)
    (hactions : s'.actions = s.actions) : s'.StatusLaw := by
  intro id run hrun hq
  rw [statuses,hactions]
  exact h id run (hruns ▸ hrun) hq

/-- One action of a run changed. -/
theorem SettledBut.changed (h : s.SettledBut r) (hruns : s'.runs = s.runs)
    (hactions : Changes s.actions s'.actions id a a') (hrun : a.runId = r)
    (hkeep : a'.runId = a.runId) : s'.SettledBut r := by
  intro j run hj hrow hq
  refine (h j run hj (hruns ▸ hrow) hq).congr fun x => ?_
  rw [mem_statuses,mem_statuses]
  constructor
  · rintro ⟨i,b,hi,hb,hx⟩
    rcases hactions.cases hi with ⟨rfl,rfl⟩ | ⟨_,hi⟩
    · exact absurd (hb.symm.trans (hkeep.trans hrun)) hj
    · exact ⟨i,b,hi,hb,hx⟩
  · rintro ⟨i,b,hi,hb,hx⟩
    by_cases hid : i = id
    · subst hid
      obtain rfl := Option.some.inj (hactions.before.symm.trans hi)
      exact absurd (hb.symm.trans hrun) hj
    · exact ⟨i,b,(hactions.others i hid).trans hi,hb,hx⟩

/-- One action of a run added. -/
theorem SettledBut.added (h : s.SettledBut r) (hruns : s'.runs = s.runs)
    (hactions : s'.actions = s.actions ++ [a]) (hrun : a.runId = r) : s'.SettledBut r := by
  intro j run hj hrow hq
  have hst : s'.statuses j = s.statuses j := by
    have hne : (a.runId == j) = false := by
      simpa using fun he : a.runId = j => hj (he.symm.trans hrun)
    simp [statuses,hactions,List.filter_append,hne]
  rw [hst]
  exact h j run hj (hruns ▸ hrow) hq

/-- The run itself changed. -/
theorem SettledBut.onRun (h : s.SettledBut r) {f : RunRow → RunRow}
    (hruns : s'.runs = s.runs.modify r f) (hactions : s'.actions = s.actions) :
    s'.SettledBut r := by
  intro j run hj hrow hq
  rw [hruns,getElem?_modify_ne _ _ (Ne.symm hj)] at hrow
  rw [statuses,hactions]
  exact h j run hj hrow hq

/-- The run whose status is computed anew joins the law. -/
theorem SettledBut.settle (h : s.SettledBut r)
    (hruns : s'.runs = s.runs.modify r (·.settle (s.statuses r) now))
    (hactions : s'.actions = s.actions) : s'.StatusLaw := by
  intro j run hrow hq
  by_cases hj : j = r
  · subst hj
    rw [hruns,getElem?_modify_self] at hrow
    obtain ⟨old,_,rfl⟩ := Option.map_eq_some_iff.mp hrow
    have hst : s'.statuses j = s.statuses j := by rw [statuses,hactions,statuses]
    rw [hst]
    exact old.settle_settled _ now
  · exact h.onRun hruns hactions j run hj hrow hq

theorem SettledBut.recompute (h : s.SettledBut r) (now : Instant) :
    (s.recomputeRun r now).StatusLaw :=
  h.settle (recomputeRun_runs s r now) (recomputeRun_actions s r now)

/-- The run of an action in doubt joins the law. -/
theorem SettledBut.doubted (h : s.SettledBut r) (hd : Doubted s s' id)
    (hrun : ∀ a, s.actions[id]? = some a → a.runId = r) : s'.StatusLaw := by
  obtain ⟨a,hrow,_,hmarked⟩ := hd
  have hr := hrun a hrow
  have hchange : Changes s.actions s'.actions id a a.doubt := by
    rw [hmarked.actions]
    exact Changes.modify hrow (·.doubt)
  intro j run hj hq
  by_cases hjr : j = r
  · subst hjr
    have hruns : s'.runs = s.runs.modify j (·.doubt) := by
      rw [hmarked.runs,hr]
      rfl
    rw [hruns,getElem?_modify_self] at hj
    obtain ⟨old,_,rfl⟩ := Option.map_eq_some_iff.mp hj
    have hu : ActionStatus.uncertain ∈ s'.statuses j :=
      mem_statuses.mpr ⟨id,_,hchange.after,hr,rfl⟩
    refine ⟨?_,by simp [RunRow.doubt]⟩
    simp [runPriority,hu,RunRow.doubt]
  · have hbut : (s.setAction id (·.doubt)).SettledBut r :=
      h.changed rfl (Changes.modify hrow _) hr rfl
    have hbut' : s'.SettledBut r := hbut.onRun (hr ▸ hmarked.runs) hmarked.actions
    exact hbut' j run hjr hj hq

theorem StatusLaw.doubted (h : s.StatusLaw) (hd : Doubted s s' id) : s'.StatusLaw := by
  have hcopy := hd
  obtain ⟨a,hrow,_⟩ := hcopy
  refine (h.but a.runId).doubted hd fun b hb => ?_
  rw [Option.some.inj (hb.symm.trans hrow)]

/-- A doubt about an action changes no action's run. -/
theorem Doubted.runIds (hd : Doubted s s' id) {j : ℕ} (h : ∀ a, s.actions[j]? = some a →
    a.runId = r) : ∀ a, s'.actions[j]? = some a → a.runId = r := by
  obtain ⟨b,hrow,_,hmarked⟩ := hd
  have hchange : Changes s.actions s'.actions id b b.doubt := by
    rw [hmarked.actions]
    exact Changes.modify hrow (·.doubt)
  intro a ha
  rcases hchange.cases ha with ⟨rfl,rfl⟩ | ⟨_,ha⟩
  · exact h b hrow
  · exact h a ha

theorem SettledBut.abandoned {reason : String} (l : List ℕ) : ∀ {s s' : Ledger},
    s.SettledBut r → (∀ id ∈ l, ∀ a, s.actions[id]? = some a → a.runId = r) →
    l.foldlM (abandonAction reason) s = .ok s' → s'.SettledBut r := by
  induction l with
  | nil =>
    intro s s' h _ hc
    obtain rfl := Except.ok.inj hc
    exact h
  | cons id l ih =>
    intro s s' h hl hc
    rw [List.foldlM_cons] at hc
    obtain ⟨t,ht,hrest⟩ := accepted hc
    have hl' := fun j hj => hl j (List.mem_cons_of_mem _ hj)
    rcases abandonAction_ok ht with rfl | hd
    · exact ih h hl' hrest
    · exact ih ((h.doubted hd (hl id List.mem_cons_self)).but r)
        (fun j hj => hd.runIds (hl' j hj)) hrest

/-- A run whose status an automatic execution leaves as it is. -/
def Busy (s : Ledger) (runId : ℕ) : Prop := ∀ run, s.runs[runId]? = some run →
  run.inferenceStatus ≠ .queued → .uncertain ∈ s.statuses runId ∨ .executing ∈ s.statuses runId ∨
    (.prepared ∉ s.statuses runId ∧ run.inferenceActive = true)

/-- A run whose status a failed execution leaves as it is. -/
def Unsuccessful (s : Ledger) (runId : ℕ) : Prop := ∀ run, s.runs[runId]? = some run →
  run.inferenceStatus ≠ .queued → .uncertain ∈ s.statuses runId ∨ .executing ∈ s.statuses runId ∨
    .prepared ∈ s.statuses runId ∨ .failed ∈ s.statuses runId ∨ run.inferenceActive = true ∨
    run.inferenceStatus = .failed ∨ run.inferenceStatus = .interrupted

/-- A run that is taken from the queue as it was put there. -/
def Untouched (s : Ledger) (runId : ℕ) : Prop := ∀ run, s.runs[runId]? = some run →
  run.inferenceStatus = .queued → s.statuses runId = [] ∧ run.finishedAt = none

/-- The steps that enter an action without computing the status of its run anew do so where it
does not matter; a run leaves the queue without actions, and none expires on the way. -/
def StatusKeeping (s : Ledger) (e : Op × Instant) : Prop :=
  match e.1 with
  | .beginAutomaticExecution runId _ _ _ _ => s.Busy runId
  | .recordExecution runId _ _ status _ _ => status = "succeeded" ∨ s.Unsuccessful runId
  | .startRun runId => s.Untouched runId
  | .expireRun _ _ => False
  | _ => True

theorem StatusLaw.entered (h : s.StatusLaw) (hactions : s'.actions = s.actions ++ [a])
    (hruns : s'.runs = s.runs) (hkeep : ∀ run, s.runs[a.runId]? = some run →
      run.inferenceStatus ≠ .queued →
      runPriority (a.status :: s.statuses a.runId) run.inferenceActive run.inferenceStatus =
        runPriority (s.statuses a.runId) run.inferenceActive run.inferenceStatus) :
    s'.StatusLaw := by
  intro j run hrow hq
  by_cases hj : j = a.runId
  · subst hj
    have hold := h a.runId run (hruns ▸ hrow) hq
    have hst : s'.statuses a.runId = s.statuses a.runId ++ [a.status] := by
      simp [statuses,hactions,List.filter_append]
    refine ⟨?_,hold.2⟩
    rw [hold.1,← hkeep run (hruns ▸ hrow) hq,hst]
    apply runPriority_congr
    intro x
    simp [or_comm]
  · exact (h.but a.runId).added hruns hactions rfl j run hj hrow hq

theorem StatusLaw.cancelled (h : s.StatusLaw) (hc : s.cancel id now = .ok s') :
    s'.StatusLaw := by
  obtain ⟨a,hrow,_,hclosed⟩ := cancel_ok hc
  have hbut : (s.setAction id (·.cancel)).SettledBut a.runId :=
    (h.but a.runId).changed rfl (Changes.modify hrow _) rfl rfl
  exact hbut.settle hclosed.runs hclosed.actions

theorem StatusLaw.completed (h : s.StatusLaw) {status : ActionStatus} {result : Dict}
    {externalId : Option String} (hc : s.complete id status result externalId now = .ok s') :
    s'.StatusLaw := by
  obtain ⟨a,hrow,_,hends⟩ := complete_ok hc
  have hbut : (s.setAction id (·.complete status result externalId)).SettledBut a.runId :=
    (h.but a.runId).changed rfl (Changes.modify hrow _) rfl rfl
  rcases hends with ⟨rfl,hmarked⟩ | ⟨_,hclosed⟩
  · intro j run hj hq
    by_cases hjr : j = a.runId
    · subst hjr
      rw [hmarked.runs,getElem?_modify_self] at hj
      obtain ⟨old,_,rfl⟩ := Option.map_eq_some_iff.mp hj
      have hu : ActionStatus.uncertain ∈ s'.statuses a.runId := by
        refine mem_statuses.mpr ⟨id,a.complete .uncertain result externalId,?_,rfl,rfl⟩
        rw [hmarked.actions]
        exact (Changes.modify hrow (·.complete .uncertain result externalId)).after
      refine ⟨?_,by simp [RunRow.doubt]⟩
      simp [runPriority,hu,RunRow.doubt]
    · exact hbut.onRun hmarked.runs hmarked.actions j run hjr hj hq
  · exact hbut.settle hclosed.runs hclosed.actions

/-- A remark on an action changes nothing about its run. -/
theorem StatusLaw.remarked (h : s.StatusLaw) {f : ActionRow → ActionRow}
    (hf : ∀ a, (f a).runId = a.runId ∧ (f a).status = a.status) (id : ℕ) :
    (s.setAction id f).StatusLaw := by
  intro j run hrow hq
  refine (h j run hrow hq).congr fun x => ?_
  rw [mem_statuses,mem_statuses]
  have hcolumn : ∀ i : ℕ, ((s.setAction id f).actions[i]?).map
      (fun a : ActionRow => (a.runId,a.status)) =
        (s.actions[i]?).map fun a : ActionRow => (a.runId,a.status) :=
    map_column_modify s.actions id f (fun a => (a.runId,a.status))
      fun a => by rw [(hf a).1,(hf a).2]
  constructor
  · rintro ⟨i,a,hi,hr,hx⟩
    have hc := hcolumn i
    rw [hi,Option.map_some] at hc
    obtain ⟨b,hb,he⟩ := Option.map_eq_some_iff.mp hc.symm
    obtain ⟨he₁,he₂⟩ := Prod.mk.inj he
    exact ⟨i,b,hb,he₁.trans hr,he₂.trans hx⟩
  · rintro ⟨i,a,hi,hr,hx⟩
    have hc := hcolumn i
    rw [hi,Option.map_some] at hc
    obtain ⟨b,hb,he⟩ := Option.map_eq_some_iff.mp hc
    obtain ⟨he₁,he₂⟩ := Prod.mk.inj he
    exact ⟨i,b,hb,he₁.trans hr,he₂.trans hx⟩

/-- A change of the runs that touches neither their status nor what it is computed from. -/
theorem StatusLaw.onRuns (h : s.StatusLaw) (hactions : s'.actions = s.actions)
    (hruns : ∀ (id : ℕ) (run : RunRow), s'.runs[id]? = some run → run.inferenceStatus ≠ .queued →
      run.Settled (s.statuses id) ∨ ∃ old, s.runs[id]? = some old ∧
        old.inferenceStatus = run.inferenceStatus ∧ old.inferenceActive = run.inferenceActive ∧
        old.status = run.status ∧ old.finishedAt = run.finishedAt) : s'.StatusLaw := by
  intro j run hrow hq
  rw [statuses,hactions]
  rcases hruns j run hrow hq with hs | ⟨old,hold,hi,ha,hst,hf⟩
  · exact hs
  · have hset := h j old hold (by rw [hi]; exact hq)
    rw [RunRow.Settled,hi,ha,hst,hf] at hset
    exact hset

variable [ActionRuntime] {operation title summary capabilityId : String} {arguments : Dict}

theorem StatusLaw.interrupted (h : s.StatusLaw) {reason : String}
    (hc : s.interruptRun runId reason now = .ok s') : s'.StatusLaw := by
  rcases interruptRun_ok hc with ⟨rfl,_⟩ | ⟨run,t,u,_,_,rfl,hfold,hs⟩
  · exact h
  · have ht : (s.setRun runId (·.stop .interrupted)).SettledBut runId :=
      (h.but runId).onRun rfl rfl
    have hu : u.SettledBut runId := by
      refine ht.abandoned _ (fun id hid a ha => ?_) hfold
      obtain ⟨b,hb,hp⟩ := mem_ids.mp hid
      obtain rfl := Option.some.inj (hb.symm.trans ha)
      simp only [Bool.and_eq_true,beq_iff_eq] at hp
      exact hp.1
    have hv := hu.recompute now
    rcases hs with rfl | hs
    · exact hv
    · rcases noteInterruption_ok hs with rfl | ⟨row,_,rfl⟩
      · exact hv
      · exact hv.same rfl rfl

theorem StatusLaw.finished (h : s.StatusLaw) {result : CapabilityCallResult} {evidenceId : String}
    (hc : s.finishAction runId id result evidenceId now = .ok s') : s'.StatusLaw := by
  rcases finishAction_ok hc with ⟨a,_,_,rfl⟩ | ⟨t,hcomplete,rfl⟩
  · exact h.remarked (f := (·.remark "late_result_evidence_id" evidenceId)) (fun a => ⟨rfl,rfl⟩) id
  · have ht := h.completed hcomplete
    rcases noteStagedChange_eq t runId result with he | ⟨row,_,he⟩
    · rw [he]
      exact ht
    · rw [he]
      exact ht.same rfl rfl

theorem StatusLaw.prepared (h : s.StatusLaw)
    (hc : s.prepareProposal runId operation arguments title capabilityId now = .ok (s',id)) :
    s'.StatusLaw := by
  obtain ⟨_,_,_,capability,rfl⟩ := prepareProposal_ok hc
  refine SettledBut.recompute ?_ now
  exact (h.but runId).added (a := preparedAction id runId operation arguments title capability now)
    rfl rfl rfl

omit [ActionRuntime] in
theorem StatusLaw.created (h : s.StatusLaw) {row : RunRow}
    (hfinished : row.finishedAt = none) (hstatus : row.inferenceStatus ≠ .queued →
      row.status = .running ∧ row.inferenceActive = true)
    (hactions : ∀ a ∈ s.actions, a.runId < s.runs.length) : (s.addRun row).StatusLaw := by
  have hempty : s.statuses s.runs.length = [] := by
    rw [statuses,List.map_eq_nil_iff,List.filter_eq_nil_iff]
    intro a ha he
    have hlt := hactions a ha
    rw [beq_iff_eq.mp he] at hlt
    exact Nat.lt_irrefl _ hlt
  refine h.onRuns rfl fun j run hrow hq => ?_
  have hrow : (s.runs ++ [row])[j]? = some run := hrow
  rw [getElem?_insert] at hrow
  by_cases hj : j = s.runs.length
  · rw [if_pos hj] at hrow
    obtain rfl := Option.some.inj hrow
    obtain ⟨hs,ha⟩ := hstatus hq
    left
    subst hj
    rw [hempty]
    refine ⟨?_,?_⟩
    · simp [hs,ha,runPriority]
    · simp [hfinished,hs]
  · rw [if_neg hj] at hrow
    exact Or.inr ⟨run,hrow,rfl,rfl,rfl,rfl⟩

theorem StatusLaw.applied (h : s.StatusLaw) (hl : s.Linked) {op : Op}
    (hk : s.StatusKeeping (op,now)) (hc : s.apply op now = .ok s') : s'.StatusLaw := by
  cases op with
  | openTranscript row =>
    obtain rfl := Except.ok.inj hc
    exact h.same rfl rfl
  | document transcriptId state =>
    obtain rfl := Except.ok.inj hc
    exact h.same rfl rfl
  | createRun transcriptId intent kind =>
    obtain ⟨⟨t,i⟩,ht,rfl⟩ := map_accepted hc
    obtain ⟨_,rfl,_⟩ := createRun_ok ht
    exact h.created rfl (fun _ => ⟨rfl,rfl⟩) hl
  | queueRun transcriptId intent scheduleId scheduledFor snapshot =>
    obtain ⟨⟨t,i⟩,ht,rfl⟩ := map_accepted hc
    obtain ⟨row,_,_,hq,_,_,hf,_,_,_,rfl,_⟩ := queueRun_ok ht
    exact h.created hf (fun hne => absurd hq hne) hl
  | startRun runId =>
    obtain rfl := Except.ok.inj hc
    refine h.onRuns rfl fun j run hrow hq => ?_
    by_cases hj : runId = j
    · subst hj
      simp only [startRun,setRun,getElem?_modify_self] at hrow
      obtain ⟨old,hold,rfl⟩ := Option.map_eq_some_iff.mp hrow
      by_cases ho : old.inferenceStatus = .queued
      · obtain ⟨hempty,hfinished⟩ := hk old hold ho
        left
        rw [hempty]
        simp [RunRow.Settled,ho,runPriority,hfinished]
      · right
        exact ⟨old,hold,by simp [ho],by simp [ho],by simp [ho],by simp [ho]⟩
    · simp only [startRun,setRun,getElem?_modify_ne _ _ hj] at hrow
      exact Or.inr ⟨run,hrow,rfl,rfl,rfl,rfl⟩
  | heartbeat runId =>
    obtain rfl := Except.ok.inj hc
    refine h.onRuns rfl fun j run hrow _ => Or.inr ?_
    by_cases hj : runId = j
    · subst hj
      simp only [heartbeat,setRun,getElem?_modify_self] at hrow
      obtain ⟨old,hold,rfl⟩ := Option.map_eq_some_iff.mp hrow
      refine ⟨old,hold,?_⟩
      split
      · exact ⟨rfl,rfl,rfl,rfl⟩
      · exact ⟨rfl,rfl,rfl,rfl⟩
    · simp only [heartbeat,setRun,getElem?_modify_ne _ _ hj] at hrow
      exact ⟨run,hrow,rfl,rfl,rfl,rfl⟩
  | finishRun runId succeeded =>
    rcases finishRun_ok hc with rfl | ⟨run,_,_,_,rfl⟩
    · exact h
    · have hbut : (s.setRun runId
          (·.stop (if succeeded then .succeeded else .failed))).SettledBut runId :=
        (h.but runId).onRun rfl rfl
      exact hbut.recompute now
  | interruptRun runId reason => exact h.interrupted hc
  | expireRun runId cutoff => exact absurd hk fun hk => hk
  | prepareProposal runId operation arguments title capabilityId =>
    obtain ⟨⟨t,i⟩,ht,rfl⟩ := map_accepted hc
    exact h.prepared ht
  | beginExecution actionId reviewed =>
    obtain ⟨⟨t,proposal⟩,ht,rfl⟩ := map_accepted hc
    obtain ⟨a,hrow,_,_,_,rfl⟩ := beginExecution_ok ht
    have hbut : (s.setAction actionId (·.begin now)).SettledBut a.runId :=
      (h.but a.runId).changed rfl (Changes.modify hrow (·.begin now)) rfl rfl
    exact hbut.recompute now
  | beginAutomaticExecution runId operation arguments summary capabilityId =>
    obtain ⟨⟨t,i⟩,ht,rfl⟩ := map_accepted hc
    obtain ⟨_,_,_,rfl⟩ := beginAutomaticExecution_ok ht
    exact h.entered rfl rfl fun run hrun hq => runPriority_executing (hk run hrun hq)
  | recordExecution runId operation arguments status summary output =>
    obtain ⟨⟨t,i⟩,ht,rfl⟩ := map_accepted hc
    obtain ⟨_,_,rfl⟩ := recordExecution_ok ht
    refine h.entered rfl rfl fun run hrun hq => ?_
    by_cases hs : status = "succeeded"
    · simp only [recordedAction,if_pos hs]
      exact runPriority_succeeded
    · simp only [recordedAction,if_neg hs]
      rcases hk with hk | hk
      · exact absurd hk hs
      · exact runPriority_failed (hk run hrun hq)
  | cancel actionId => exact h.cancelled hc
  | supersede actionId =>
    obtain ⟨t,hcancel,rfl⟩ := supersede_ok hc
    exact (h.cancelled hcancel).remarked
      (f := (·.remark "cancel_reason" "superseded_by_current_auto_authority"))
      (fun a => ⟨rfl,rfl⟩) actionId
  | complete actionId status result externalId => exact h.completed hc
  | finishAction runId actionId result evidenceId => exact h.finished hc
  | reconcileStaleExecution actionId staleBefore =>
    rcases reconcileStaleExecution_ok hc with rfl | hd
    · exact h
    · exact h.doubted hd
  | acknowledgeUncertain actionId =>
    obtain ⟨a,i,_,_,_,rfl⟩ := acknowledgeUncertain_ok hc
    have hsame : (s.setAttention i (·.resolve now)).StatusLaw := h.same rfl rfl
    exact hsame.remarked
      (f := (·.remark "owner_acknowledged_at" (PyRuntime.isoformat now))) (fun a => ⟨rfl,rfl⟩)
      actionId
  | dismissInterruption attentionId =>
    rcases dismissInterruption_ok hc with rfl | ⟨row,_,_,rfl⟩
    · exact h
    · exact h.same rfl rfl
  | dismissInformationalNotices =>
    obtain rfl := Except.ok.inj hc
    exact h.same rfl rfl
  | ownerMessage transcriptId =>
    obtain rfl := Except.ok.inj hc
    exact h.same rfl rfl
  | stallAttention transcriptId runId title detail =>
    obtain rfl := Except.ok.inj hc
    simp only [stallAttention]
    split
    · exact h
    · exact h.same rfl rfl
  | resolveStallAttention transcriptId =>
    obtain rfl := Except.ok.inj hc
    exact h.same rfl rfl

theorem kept_statusLaw (h : Trace.Reach step StatusKeeping (· = {}) s) :
    s.StatusLaw ∧ s.Linked := by
  refine h.invariant (I := fun s => s.StatusLaw ∧ s.Linked) (fun s hs => ?_) fun s e hs hk => ?_
  · rw [hs]
    exact ⟨fun id run hrun => (by simp at hrun),fun a ha => (by cases ha)⟩
  · refine ⟨?_,hs.2.step e⟩
    simp only [step]
    split
    · next t ht => exact hs.1.applied hs.2 hk ht
    · exact hs.1

/-- While every step that enters an action without computing the status of its run anew leaves
that status as it is, each run that has left the queue has the status its actions and its
inference amount to, and an end exactly when that status is final. -/
theorem run_status_follows_ledger (h : Trace.Reach step StatusKeeping (· = {}) s) {run : RunRow}
    (hrun : s.runs[id]? = some run) (hqueue : run.inferenceStatus ≠ .queued) :
    run.status = runPriority (s.statuses id) run.inferenceActive run.inferenceStatus ∧
      (run.finishedAt.isSome ↔
        run.status ∈ [RunStatus.succeeded,.failed,.cancelled,.interrupted]) :=
  (kept_statusLaw h).1 id run hrun hqueue

/-- A proposal that still waits when the inference of its run ends. -/
def waitingProposal : List (Op × Instant) := [
  (.createRun none "plan" .foreground,0),
  (.prepareProposal 0 "notes.write" [] "Write a note" "notes",1),
  (.finishRun 0 true,2)]

omit [ActionRuntime] in
theorem run_status_follows_ledger_waiting : letI := plainActions
    ∃ run, (ran waitingProposal).runs[0]? = some run ∧ run.status = .waitingForOwner ∧
      run.status = runPriority ((ran waitingProposal).statuses 0) run.inferenceActive
        run.inferenceStatus ∧ (run.finishedAt.isSome ↔
          run.status ∈ [RunStatus.succeeded,.failed,.cancelled,.interrupted]) := by
  have hstart : Trace.Reach (@step plainActions) StatusKeeping (· = {}) {} := .start rfl
  have hreach := @Trace.Reach.run _ _ _ _ _ _ hstart waitingProposal
    ⟨trivial,trivial,trivial,trivial⟩
  have hrun : (@ran plainActions waitingProposal).runs[0]? = some _ := rfl
  exact ⟨_,hrun,rfl,@run_status_follows_ledger _ 0 plainActions hreach _ hrun (by decide)⟩

/-- An automatic execution that starts while a proposal waits for the owner. -/
def overtakenProposal : List (Op × Instant) := [
  (.createRun none "plan" .foreground,0),
  (.prepareProposal 0 "notes.write" [] "Write a note" "notes",1),
  (.beginAutomaticExecution 0 "lights.on" [] "Switch the lights on" "lights",2)]

omit [ActionRuntime] in
theorem automatic_execution_unaccounted : letI := plainActions
    (ran overtakenProposal).Reachable ∧ ∃ run, (ran overtakenProposal).runs[0]? = some run ∧
      run.inferenceStatus ≠ .queued ∧ run.status ≠ runPriority
        ((ran overtakenProposal).statuses 0) run.inferenceActive run.inferenceStatus :=
  ⟨@ran_reachable plainActions _,_,rfl,by decide,by decide⟩

end Ledger
end Actions
end Atlas
