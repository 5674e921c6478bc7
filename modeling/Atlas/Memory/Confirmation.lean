import Atlas.Memory.Publications

/-! Owner confirmations survive retries: as long as no operation overwrites a recorded
assertion whose turn is still cited, every queued candidate cites admissible turns only, and
none is invalidated for missing evidence unless a cited turn was deleted. -/
namespace Atlas
namespace Memory

open RowTable

namespace Tables

variable {s : Tables}

/-- The candidate cites a turn that was deleted. -/
def CitesDeleted (s : Tables) (c : ℕ) : Prop :=
  ∃ e ∈ s.evidence, e.candidateId = c ∧ ∃ t, s.turns[e.turnId]? = some t ∧ t.deletedAt ≠ none

/-- A queued candidate whose evidence is not live cites a deleted turn. -/
theorem citesDeleted_of_dead (hw : Wellformed s) (ha : Admissible s) {c : ℕ} {row : CandidateRow}
    (hrow : s.candidates[c]? = some row) (hq : row.status.queued = true)
    (hdead : s.evidenceLive c row = false) : s.CitesDeleted c := by
  by_contra hnone
  have hlive : ∀ e ∈ s.evidence, e.candidateId = c → ∀ t, s.turns[e.turnId]? = some t →
      t.deletedAt = none := by
    intro e he hc t ht
    by_contra hd
    exact hnone ⟨e,he,hc,t,ht,hd⟩
  obtain ⟨e₀,he₀,hc₀⟩ := hw.citing c (Option.isSome_iff_exists.mpr ⟨row,hrow⟩)
  have hall : s.evidenceLive c row = true := by
    simp only [evidenceLive,Bool.and_eq_true]
    refine ⟨⟨?_,?_⟩,?_⟩
    · rcases hw.hash c row hrow with ⟨h,hh,hne⟩ | ⟨_,hi⟩
      · simp [hh,hne]
      · rw [hi] at hq
        cases hq
    · simp only [Bool.not_eq_true',List.isEmpty_eq_false_iff]
      exact List.ne_nil_of_mem (List.mem_filter.mpr ⟨he₀,by simp [hc₀]⟩)
    · simp only [evidenceAdmissible,List.all_eq_true]
      intro e he
      obtain ⟨hmem,hc⟩ := List.mem_filter.mp he
      have hc : e.candidateId = c := by simpa using hc
      obtain ⟨t,ht⟩ := Option.isSome_iff_exists.mp (hw.cited e hmem).2
      rw [ht]
      exact ha c row hrow hq e hmem hc t ht (hlive e hmem hc t ht)
  rw [hall] at hdead
  cases hdead

/-- Evidence and turns of a store, which the phases of `claim_batch` only read. -/
def sources (s : Tables) : List EvidenceRow × List TurnRow := (s.evidence,s.turns)

@[simp] theorem settle_sources (s : Tables) (c : ℕ) (now : Time) (memoryId : Option ℕ)
    (code resolution : Option String) :
    (s.settleExplicitObligation c now memoryId code resolution).sources = s.sources := by
  simp [sources]

@[simp] theorem setCandidate_sources (s : Tables) (c : ℕ) (f : CandidateRow → CandidateRow) :
    (s.setCandidate c f).sources = s.sources := rfl

theorem expireAwaiting_sources (s : Tables) (now : Time) (c : ℕ) (decision : DecisionJson)
    (clear : CandidateRow → CandidateRow) :
    (s.expireAwaiting now c decision clear).sources = s.sources := by
  unfold expireAwaiting
  split
  · rfl
  · split
    · rfl
    · simp

theorem expireObligation_sources (now : Time) (s : Tables) (id : ℕ) :
    (expireObligation now s id).sources = s.sources := by
  unfold expireObligation
  split
  · rfl
  · dsimp only
    split
    · rw [expireAwaiting_sources]
      rfl
    · split
      · rfl
      · split
        · rfl
        · rw [expireAwaiting_sources]
          rfl
    · rfl

theorem claimRow_sources (config : LeaseConfig) (now : Time) (s : Tables) (c : ℕ) :
    (s.claimRow config now c).1.sources = s.sources := by
  unfold claimRow
  split
  · rfl
  · split
    · simp only [leaseCandidate,setCandidate_sources]
      split <;> rfl
    · simp only [invalidateUnavailable,settle_sources]
      rfl

theorem exhausted_sources (s : Tables) (config : LeaseConfig) (locks : RowLocks) (now : Time) :
    (s.exhausted config locks now).sources = s.sources := by
  have hfold : ∀ (f : Tables → ℕ → Tables) (l : List ℕ) (t : Tables),
      (∀ u i, (f u i).sources = u.sources) → (l.foldl f t).sources = t.sources :=
    fun f l t hf => Trace.foldl_invariant (I := fun u : Tables => u.sources = t.sources) l
      (fun u i _ hu => (hf u i).trans hu) rfl
  refine (hfold _ _ _ fun u i => ?_).trans ((hfold _ _ _ fun u i => ?_).trans
    (hfold _ _ _ fun u i => expireObligation_sources now u i))
  · simp only [failExhausted,settle_sources]
    rfl
  · simp [expireRetained]

/-- An eligible candidate is invalidated only over dead evidence. -/
theorem claimRow_invalidates {config : LeaseConfig} {now : Time} {c : ℕ} {row row' : CandidateRow}
    (hrow : s.candidates[c]? = some row)
    (hrow' : (s.claimRow config now c).1.candidates[c]? = some row')
    (hi : row'.status = .invalidated) : s.evidenceLive c row = false := by
  simp only [claimRow,hrow] at hrow'
  split at hrow'
  · simp only [leaseCandidate,setCandidate,getElem?_modify_self] at hrow'
    obtain ⟨r,_,rfl⟩ := Option.map_eq_some_iff.mp hrow'
    cases hi
  · next hdead => simpa using hdead

/-- The last phase invalidates a candidate only over dead evidence. -/
theorem claimRows_invalidates (config : LeaseConfig) (now : Time) {rows : List ℕ} (hnd : rows.Nodup)
    {c : ℕ} {row row' : CandidateRow} (hrow : s.candidates[c]? = some row)
    (hrow' : (s.claimRows config now rows).1.candidates[c]? = some row')
    (hs : row.status ≠ .invalidated) (hi : row'.status = .invalidated) :
    c ∈ rows ∧ s.evidenceLive c row = false := by
  have hrows := Trace.foldl_rows (I := fun t : Tables => t.sources = s.sources) (k := fun i => i)
    (g := fun (t : Tables) (i : ℕ) => t.candidates[i]?)
    (f := fun (t : Tables) (i : ℕ) => (t.claimRow config now i).1)
    (R := fun i before after => ∀ r r', before = some r → after = some r' →
      r'.status = .invalidated → s.evidenceLive i r = false)
    rows (by rwa [List.map_id']) (fun t i j _ hj => claimRow_frame config now t i hj)
    (fun t i ht => (claimRow_sources config now t i).trans ht) (fun t i _ ht r r' hr hr' hi => ?_)
    rfl c
  · rw [claimRows_fst] at hrow'
    rcases hrows with ⟨_,he⟩ | ⟨i,hmem,rfl,hR⟩
    · rw [hrow',hrow] at he
      cases he
      exact absurd hi hs
    · exact ⟨hmem,hR row row' hrow hrow' hi⟩
  · have hev : t.evidence = s.evidence := congrArg Prod.fst ht
    have htu : t.turns = s.turns := congrArg Prod.snd ht
    have hdead := claimRow_invalidates hr hr' hi
    simpa only [evidenceLive,evidenceOf,evidenceAdmissible,hev,htu] using hdead

theorem CitesDeleted.congr {t : Tables} {c : ℕ} (h : t.CitesDeleted c) (hs : t.sources = s.sources) :
    s.CitesDeleted c := by
  have hev : t.evidence = s.evidence := congrArg Prod.fst hs
  have htu : t.turns = s.turns := congrArg Prod.snd hs
  rwa [CitesDeleted,hev,htu] at h

/-- A candidate that `claim_batch` invalidates cites a deleted turn. -/
theorem claimBatch_invalidates (hw : Wellformed s) (ha : Admissible s) {config : LeaseConfig}
    {limit : ℕ} {locks : RowLocks} {now : Time} {c : ℕ} {row row' : CandidateRow}
    (hrow : s.candidates[c]? = some row)
    (hrow' : (s.claimBatch config limit locks now).1.candidates[c]? = some row')
    (hs : row.status ≠ .invalidated) (hi : row'.status = .invalidated) : s.CitesDeleted c := by
  let P : Policy := ⟨fun _ y => y = .expired ∨ y = .failed,True,True⟩
  have hc : Chain P s (s.exhausted config locks now) :=
    ((expireDueObligations_chain (P := P) (Or.inl rfl) s now locks).trans
      (expireRetained_phase (P := P) (Or.inl rfl) _ now locks)).trans
        (failExhausted_phase (P := P) (fun _ _ => Or.inr rfl) _ config.clamped now locks)
  have hboth : Wellformed (s.exhausted config locks now) ∧ Admissible (s.exhausted config locks now) :=
    hc.invariant (I := fun t => Wellformed t ∧ Admissible t)
      (fun t t' ht hm => ⟨ht.1.micro hm,ht.2.micro ht.1 trivial hm⟩) ⟨hw,ha⟩
  obtain ⟨row₃,hrow₃,hs₃,_⟩ := hc.row (fun _ _ _ _ h => h) hrow
  have hne : row₃.status ≠ .invalidated := by
    rcases hs₃ with hs₃ | hs₃ | hs₃ <;> rw [hs₃] <;> first | exact hs | nofun
  rw [claimBatch_fst] at hrow'
  obtain ⟨hmem,hdead⟩ := claimRows_invalidates _ _ (nodup_eligibleRows _ _ _ _ _) hrow₃ hrow' hne hi
  obtain ⟨r,hr,he⟩ := eligibleRows_spec hmem
  cases Option.some.inj (hr.symm.trans hrow₃)
  exact (citesDeleted_of_dead hboth.1 hboth.2 hrow₃ (eligible_spec he).1 hdead).congr
    (s.exhausted_sources config locks now)

end Tables

/-- The operations that look at a candidate's evidence and may find it gone. -/
def Op.evaluates : Op → Bool
  | .claimBatch .. | .publish .. => true
  | _ => false

section

variable [PyRuntime]

theorem admissible_step {w : State} {op : Op} (hs : Sound w.data) (hl : Legal w op) (hh : Home w op)
    (h : Admissible w.data) : Admissible (step w op).data := by
  have hc : Chain ⟨fun _ _ => True,False,True⟩ w.data (step w op).data :=
    step_chain hs hl (fun _ _ _ => trivial) (by cases op <;> simp [Answers]) nofun fun _ => hh
  exact (hc.invariant (I := fun t => Wellformed t ∧ Admissible t)
    (fun t t' ht hm => ⟨ht.1.micro hm,ht.2.micro ht.1 trivial hm⟩) ⟨hs.wellformed,h⟩).2

omit [PyRuntime] in
theorem Initial.admissible {w : State} (h : Initial w) : Admissible w.data := by
  intro c row hrow
  rw [h.no_candidate] at hrow
  cases hrow

theorem reachable_admissible {w : State} (h : Reachable Home w) : Admissible w.data :=
  reachable_invariant (fun _ => Initial.admissible) (fun _ _ hs hl hh => admissible_step hs hl hh) h

/-- A candidate that `claim_batch` or `publish` invalidates cites a deleted turn. -/
theorem evaluation_invalidates {w : State} {op : Op} (hs : Sound w.data) (ha : Admissible w.data)
    (hl : Legal w op) (he : op.evaluates = true) {c : ℕ} {row row' : CandidateRow}
    (hrow : w.data.candidates[c]? = some row) (hrow' : (step w op).data.candidates[c]? = some row')
    (hne : row.status ≠ .invalidated) (hi : row'.status = .invalidated) : w.data.CitesDeleted c := by
  have hsame : (step w op).data.candidates = w.data.candidates → w.data.CitesDeleted c := by
    intro hc
    rw [hc] at hrow'
    cases Option.some.inj (hrow'.symm.trans hrow)
    exact absurd hi hne
  cases op with
  | claimBatch config limit locks now =>
    rcases transact_cases w fun s => .ok (s.claimBatch config limit locks now) with
      ⟨e,hw⟩ | ⟨s,r,hok,_,hw⟩
    · exact hsame (by rw [step,stepLoaded,hw])
    · rw [step,stepLoaded,hw,show s = (w.data.claimBatch config limit locks now).1 from
        (congrArg Prod.fst (Except.ok.inj hok)).symm] at hrow'
      exact Tables.claimBatch_invalidates hs.wellformed ha hrow hrow' hne hi
  | publish config claim snapshot decision operationId now =>
    rcases publish_cases w config claim snapshot decision operationId now with hw | ⟨pub,hp⟩
    · exact hsame (congrArg Tables.candidates hw)
    · rcases Tables.publishAndSettle_ends hs (hl claim rfl) hp with
        hw | ⟨r,a,hf,⟨_,attempts,hw⟩ | ⟨_,hends⟩⟩
      · exact hsame (congrArg Tables.candidates hw)
      · have hc : (publish w config claim snapshot decision operationId now).world.data.candidates =
          w.data.candidates := by rw [hw]
        exact hsame hc
      · by_cases hc : c = claim.candidateId
        · subst hc
          cases Option.some.inj (hrow.symm.trans hf.candidate)
          obtain ⟨r',hr',hout⟩ := hends.row
          cases Option.some.inj (hrow'.symm.trans hr')
          rcases hout with hpub | ⟨_,hdead⟩
          · rw [hi] at hpub
            cases hpub
          · exact Tables.citesDeleted_of_dead hs.wellformed ha hrow (by rw [hf.status]; rfl) hdead
        · have := hends.others c hc
          rw [show step w (.publish config claim snapshot decision operationId now) =
            (publish w config claim snapshot decision operationId now).world from rfl,this] at hrow'
          cases Option.some.inj (hrow'.symm.trans hrow)
          exact absurd hi hne
  | _ => cases he

/-- Queued candidates cite admissible turns, and evidence is only lost by deletion. -/
theorem confirmation_kept {w : State} (h : Reachable Home w) : Admissible w.data ∧
    ∀ op, op.evaluates = true → Legal w op → ∀ (c : ℕ) (row row' : CandidateRow),
      w.data.candidates[c]? = some row → (step w op).data.candidates[c]? = some row' →
      row.status ≠ .invalidated → row'.status = .invalidated → w.data.CitesDeleted c :=
  ⟨reachable_admissible h,fun _ he hl _ _ _ hrow hrow' hne hi => evaluation_invalidates
    (reachable_sound h) (reachable_admissible h) hl he hrow hrow' hne hi⟩

end

instance (s : Tables) : Decidable (Admissible s) := by
  unfold Admissible
  infer_instance

instance (s : Tables) (c : ℕ) : Decidable (s.CitesDeleted c) := by
  unfold Tables.CitesDeleted
  infer_instance

/-- A confirmed candidate back in a worker's hands. -/
def confirmedCommand [PyRuntime] : List Op :=
  awaitingCommand ++ [confirmation awaitingCommand 1 (.uuid 1) 5,.claimBatch {} 1 {} 6]

theorem confirmation_kept_once :
    letI := plainRuntime
    (ran confirmedCommand).data.evidence.length = 2 ∧ Admissible (ran confirmedCommand).data := by
  refine And.imp_right (fun hrun => (@confirmation_kept plainRuntime _
    (@ran_reachable plainRuntime _ _ hrun)).1) ?_
  rw [plainRuntime_eq]
  decide +kernel

/-- Another memory command commits while the worker evaluates the confirmed candidate, whose
publication then conflicts and is requeued. -/
def conflictedConfirmation [PyRuntime] : List Op :=
  confirmedCommand ++ [Op.createOwnerChat none 7,.retire {content := some "owns a cat"} none 8,
    .publish {} ⟨0,1,1,2⟩ (firstSnapshot 1 0) createDecision (.uuid 2) 9,
    .requeueAfterVersionConflict ⟨0,1,1,2⟩ (firstSnapshot 1 0) 10]

/-- The requeue forgets the assertion, and the next claim finds the evidence inadmissible
although no turn was deleted. -/
theorem confirmation_lost :
    letI := plainRuntime
    let w := ran conflictedConfirmation
    let op := Op.claimBatch {} 1 {} 11
    (Reachable (fun _ _ => True) w ∧ ¬Admissible w.data) ∧ op.evaluates = true ∧ Legal w op ∧
      (∃ row, w.data.candidates[0]? = some row ∧ row.status = .pending) ∧
      (∃ row, (step w op).data.candidates[0]? = some row ∧ row.status = .invalidated) ∧
      ¬w.data.CitesDeleted 0 := by
  refine And.imp_left (And.imp_left (@ran_reachable plainRuntime _ _)) ?_
  rw [plainRuntime_eq]
  decide +kernel

end Memory
end Atlas
