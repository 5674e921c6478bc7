import Atlas.Memory.EvidenceIndex

/-! Reconcilable evidence stays unique: what enters the reconcilable set looks for a candidate with
its evidence first, or cites a turn that no other candidate cites, except the owner's retry. -/
namespace Atlas
namespace Memory

open RowTable

namespace Tables

section

variable [PyRuntime] {s s' : Tables}

theorem enqueueMany_proposes (s : Tables) (proposals : List RawCandidate) (source : IntakeSource) :
    (UniqueEvidence s.candidates → UniqueEvidence (s.enqueueMany proposals source).candidates) ∧
      (s.Hashed → (s.enqueueMany proposals source).Hashed) := by
  unfold enqueueMany
  induction proposals.take 8 generalizing s with
  | nil => exact ⟨id,id⟩
  | cons raw rest ih =>
    rw [List.foldl_cons]
    split
    · next s₁ c created he =>
      obtain ⟨candidate,_,he⟩ := @bind_ok _ _ raw.validate _ _ he
      have hrest := ih s₁
      exact ⟨fun hu => hrest.1 (enqueue_unique hu he),fun hs => hrest.2 (hs.enqueue he)⟩
    · exact ih s

omit [PyRuntime] in
theorem retryCandidate_changes {c : ℕ} {row : CandidateRow} (hrow : s.candidates[c]? = some row)
    (obligationId : ℕ) (obligation : ObligationRow) (source : OwnerSource) :
    ∃ row', Changes s.candidates (s.retryCandidate obligationId c obligation source).candidates c
        row row' ∧ row'.status = .pending ∧ row'.evidenceSetHash = row.evidenceSetHash :=
  ⟨_,changes_setCandidate hrow rfl _,rfl,rfl⟩

omit [PyRuntime] in
theorem retryCandidate_digestsKept {c : ℕ} {row : CandidateRow} (hrow : s.candidates[c]? = some row)
    (obligationId : ℕ) (obligation : ObligationRow) (source : OwnerSource) :
    DigestsKept False s (s.retryCandidate obligationId c obligation source) := by
  obtain ⟨row',hw,_,hh⟩ := s.retryCandidate_changes hrow obligationId obligation source
  exact .change hw rfl hh nofun

omit [PyRuntime] in
theorem retriedCandidate_row {arguments : ResolveArguments} {p : ℕ × CandidateRow}
    (h : s.retriedCandidate arguments = some p) : s.candidates[p.1]? = some p.2 := by
  unfold retriedCandidate at h
  split at h
  · cases h
  · split at h
    · exact subject_row (Option.filter_eq_some_iff.mp h).1
    · cases h

theorem requeuedCandidate_row {arguments : ResolveArguments} {p : ℕ × CandidateRow}
    (h : s.requeuedCandidate arguments = some p) : s.candidates[p.1]? = some p.2 :=
  retriedCandidate_row (Option.filter_eq_some_iff.mp h).1

/-- The owner's retry brings the candidate back, whoever may have its evidence. -/
theorem resolveObligationIn_requeues {arguments : ResolveArguments} {p : ℕ × CandidateRow}
    (h : s.requeuedCandidate arguments = some p) (source : OwnerSource) (now : Time) :
    ∃ obligation r, s.resolveObligationIn arguments source now =
      .ok (s.retryCandidate arguments.obligationId p.1 obligation source,r) := by
  obtain ⟨hretried,hfull⟩ := Option.filter_eq_some_iff.mp h
  unfold retriedCandidate at hretried
  split at hretried
  · cases hretried
  · next obligation ho =>
    split at hretried
    · next hcond =>
      obtain ⟨hpend,hex,hsub,hret⟩ := hcond
      obtain ⟨hsubject,hlive⟩ := Option.filter_eq_some_iff.mp hretried
      simp only [Bool.and_eq_true,beq_iff_eq] at hlive hfull
      obtain ⟨⟨hcontent,hprint⟩,hversion⟩ := hfull
      split at hversion
      · next text htext =>
        rw [beq_iff_eq] at hversion
        have hin : s.resolveObligationIn arguments source now =
            s.retryExplicitObligation arguments obligation source now := by
          simp [resolveObligationIn,ho,hpend,hex]
        refine ⟨obligation,{result := "requeued_for_reconciliation",candidateId := some p.1},?_⟩
        rw [hin,retryExplicitObligation,if_neg (not_not.mpr hret),if_neg (not_not.mpr hsub),hsubject]
        dsimp only
        rw [if_neg (by rw [hlive.1]; decide),if_neg (not_not.mpr hlive.1),htext]
        change (if _ then _ else _) = _
        rw [if_neg (not_not.mpr hversion),if_neg]
        simp [hlive.2,Option.isSome_iff_ne_none.mp hcontent,Option.isSome_iff_ne_none.mp hprint]
      · cases hversion
    · cases hretried

end

end Tables

section

variable [PyRuntime] {w : State}

/-- A transaction of the operation would put two reconcilable candidates under one digest, which
the index refuses. -/
def IndexViolated (w : State) (op : Op) : Prop :=
  ∃ s', Body id w.data op s' ∧ ¬UniqueEvidence s'.candidates

/-- The operations that bring a candidate into the reconcilable set or back into it. -/
def Op.reconciles : Op → Bool
  | .enqueueMany .. | .remember .. | .correct .. | .resolveObligation .. |
    .requeueAfterVersionConflict .. | .releaseAfterConflict .. | .releaseFailed .. => true
  | _ => false

/-- The owner's retry of a failed candidate whose evidence another candidate has by now. -/
def RetryClaimed (w : State) : Op → Prop
  | .resolveObligation arguments _ _ _ => ∃ p, w.data.requeuedCandidate arguments = some p ∧
      ∃ (j : ℕ) (b : CandidateRow) (hash : String), j ≠ p.1 ∧ w.data.candidates[j]? = some b ∧
        b.status.reconcilable = true ∧ b.evidenceSetHash = some hash ∧
        p.2.evidenceSetHash = some hash
  | _ => False

/-- Digests distinguish the evidence sets the operation leaves. -/
def NoCollision (w : State) (op : Op) : Prop := ∀ s', Body id w.data op s' → s'.DigestsDistinct

omit [PyRuntime] in
theorem requeueAfterVersionConflict_unique {s : Tables} {claim : CandidateLease}
    {snapshot : EvaluationSnapshot} {now : Time} (hi : Issued s claim)
    (hu : UniqueEvidence s.candidates) :
    UniqueEvidence (s.requeueAfterVersionConflict claim snapshot now).candidates := by
  have hc : Chain calm s (s.requeueAfterVersionConflict claim snapshot now) :=
    Tables.requeueAfterVersionConflict_chain hi (fun _ => rfl) nofun
  exact (hc.calm (Tables.footing_evidence (s.requeueAfterVersionConflict_footing ..))).unique hu

omit [PyRuntime] in
theorem releaseAfterConflict_unique {s : Tables} {maxAttempts : ℕ} {claim : CandidateLease}
    {code : String} {now : Time} (hi : Issued s claim) (hu : UniqueEvidence s.candidates) :
    UniqueEvidence (s.releaseAfterConflict maxAttempts claim code now).candidates := by
  have hc : Chain calm s (s.releaseAfterConflict maxAttempts claim code now) :=
    Tables.releaseAfterConflict_chain hi (fun _ => rfl) fun _ => rfl
  exact (hc.calm (Tables.footing_evidence (s.releaseAfterConflict_footing ..))).unique hu

omit [PyRuntime] in
theorem releaseFailed_unique {s : Tables} {maxAttempts : ℕ} {claim : CandidateLease}
    {code : String} {now : Time} (hi : Issued s claim) (hu : UniqueEvidence s.candidates) :
    UniqueEvidence (Tables.releaseFailed s s maxAttempts claim code now).candidates := by
  have hc : Chain calm s (Tables.releaseFailed s s maxAttempts claim code now) :=
    Tables.releaseFailed_chain hi (fun _ => rfl) fun _ => rfl
  exact (hc.calm (Tables.footing_evidence (Tables.releaseFailed_footing ..))).unique hu

/-- What the operations that cite evidence do to digests. -/
theorem Body.hashed {loaded : Tables → Tables} {s s' : Tables} {op : Op} (h : Body loaded s op s')
    (hop : op.cites = true) (hs : s.Hashed) : s'.Hashed := by
  cases h with
  | enqueueMany => exact (s.enqueueMany_proposes _ _).2 hs
  | intakeFailed =>
    exact (@Tables.DigestsKept.of_rows False s (s.recordExplicitIntakeFailure _ _ _ _).1 rfl
      rfl).hashed hs
  | remember h => exact (Tables.queueExplicitContentCommandIn_proposes h).hashed hs
  | correct h => exact (Tables.queueExplicitContentCommandIn_proposes h).hashed hs
  | resolveConflict h => exact (Tables.resolveConflictMutate_proposes h).hashed hs
  | resolveReview h =>
    have hf := Tables.resolveReviewMutate_frame h
    exact (@Tables.DigestsKept.of_rows False _ _ hf.candidates hf.evidence).hashed hs
  | resolveObligationIn h =>
    rcases Tables.resolveObligationIn_cases h with hk | ⟨p,obligation,hp,rfl⟩ | ⟨c,row,row',hc⟩
    · exact hk.hashed hs
    · exact (Tables.retryCandidate_digestsKept (Tables.requeuedCandidate_row hp) ..).hashed hs
    · exact hc.hashed hs
  | began hc | failed hc => cases op <;> cases hc <;> cases hop
  | _ => cases hop

theorem reachable_hashed {ok : State → Op → Prop} (h : Reachable ok w) : w.data.Hashed := by
  refine reachable_invariant (fun w hw => ?_) (fun w op hs hl _ hh => ?_) h
  · refine ⟨?_,?_,?_⟩
    · simp [hw.evidence]
    · simp [hw.evidence]
    · simp [hw.candidates]
  · by_cases hop : op.cites = true
    · have hrun : ∀ s', Committed id op w.data s' → s'.Hashed := by
        intro s' hc
        induction hc with
        | refl => exact hh
        | tail _ hb ih => exact hb.1.hashed hop ih
      exact hrun _ (stepLoaded_committed id w op)
    · exact (step_digestsKept hs hl (Bool.eq_false_iff.mpr hop)).hashed hh

/-- The owner's retry of a candidate is the only way to a second one for an evidence set. -/
theorem Body.unique {s' : Tables} {op : Op} (h : Body id w.data op s') (hop : op.reconciles = true)
    (hs : Sound w.data) (hh : w.data.Hashed) (hl : Legal w op) (hfree : s'.DigestsDistinct)
    (hr : ¬RetryClaimed w op) : UniqueEvidence s'.candidates := by
  have hu := uniqueEvidence_of_consistent hs.consistent
  cases h with
  | enqueueMany => exact (w.data.enqueueMany_proposes _ _).1 hu
  | intakeFailed => exact hu
  | remember h => exact (Tables.queueExplicitContentCommandIn_proposes h).unique hu
  | correct h => exact (Tables.queueExplicitContentCommandIn_proposes h).unique hu
  | requeueAfterVersionConflict => exact requeueAfterVersionConflict_unique (hl _ rfl) hu
  | releaseAfterConflict => exact releaseAfterConflict_unique (hl _ rfl) hu
  | releaseFailed => exact releaseFailed_unique (hl _ rfl) hu
  | resolveConflict h => exact (Tables.resolveConflictMutate_proposes h).unique hu
  | resolveReview h =>
    rw [(Tables.resolveReviewMutate_frame h).candidates]
    exact hu
  | resolveObligationIn h =>
    rcases Tables.resolveObligationIn_cases h with hk | ⟨p,obligation,hp,rfl⟩ | ⟨c,row,row',hc⟩
    · exact hk.unique hu
    · obtain ⟨row',hw,hpend,hhash⟩ := w.data.retryCandidate_changes
        (Tables.requeuedCandidate_row hp) _ obligation _
      refine (hu.change hw (by rw [hpend]; rfl)).mpr fun j b hash hj hb hbr hbh heq => ?_
      exact hr ⟨p,hp,j,b,hash,hj,hb,hbr,hbh,hhash ▸ heq⟩
    · exact hc.unique hh hs.wellformed hu hfree
  | began hc | failed hc => cases op <;> cases hc <;> cases hop
  | _ => cases hop

/-- A retry whose candidate's evidence is another's by now leaves two of them. -/
theorem RetryClaimed.violated {arguments : ResolveArguments} {transcriptId : Option ℕ}
    {operationId : OperationId} {now : Time} (hu : UniqueEvidence w.data.candidates)
    (h : RetryClaimed w (.resolveObligation arguments transcriptId operationId now))
    (source : OwnerSource) : ∃ s' r, w.data.resolveObligationIn arguments source now = .ok (s',r) ∧
      ¬UniqueEvidence s'.candidates := by
  obtain ⟨p,hp,j,b,hash,hj,hb,hbr,hbh,hph⟩ := h
  obtain ⟨obligation,r,hok⟩ := Tables.resolveObligationIn_requeues hp source now
  obtain ⟨row',hw,hpend,hhash⟩ := w.data.retryCandidate_changes
    (Tables.requeuedCandidate_row hp) arguments.obligationId obligation source
  refine ⟨_,r,hok,fun hbad => ?_⟩
  exact (hu.change hw (by rw [hpend]; rfl)).mp hbad j b hash hj hb hbr hbh (hhash.trans hph)

theorem requeuedCandidate_obligation {s : Tables} {arguments : ResolveArguments}
    {p : ℕ × CandidateRow} (h : s.requeuedCandidate arguments = some p) :
    ∃ obligation, s.obligations[arguments.obligationId]? = some obligation ∧
      obligation.kind.explicit = true ∧ arguments.decision = .retry := by
  have hretried := (Option.filter_eq_some_iff.mp h).1
  unfold Tables.retriedCandidate at hretried
  split at hretried
  · cases hretried
  · next obligation ho =>
    split at hretried
    · next hcond => exact ⟨obligation,ho,hcond.2.1,hcond.2.2.2⟩
    · cases hretried

/-- The owner is answered with the error of the index, and nothing is stored. -/
theorem RetryClaimed.refused {arguments : ResolveArguments} {transcriptId : Option ℕ}
    {operationId : OperationId} {now : Time} (hu : UniqueEvidence w.data.candidates)
    (h : RetryClaimed w (.resolveObligation arguments transcriptId operationId now)) :
    resolveObligation w arguments transcriptId operationId now = (w,.error integrityFailure) := by
  obtain ⟨s',r,hok,hv⟩ := h.violated hu (w.data.latestOwnerSource transcriptId)
  obtain ⟨p,hp,_⟩ := h
  obtain ⟨obligation,ho,hex,hret⟩ := requeuedCandidate_obligation hp
  have hkind : obligation.kind ≠ .memoryConflict ∧ obligation.kind ≠ .memoryReview := by
    constructor <;> (intro hk; rw [hk] at hex; cases hex)
  have hbad : s'.consistent ≠ true := fun hc => hv (uniqueEvidence_of_consistent hc)
  have htx : transact w (fun s => s.resolveObligationIn arguments
      (w.data.latestOwnerSource transcriptId) now) = (w,.error integrityFailure) := by
    simp [transact,checked,hok,hbad,Except.bind]
  unfold resolveObligation
  rw [ho]
  simp only [hkind.1,hkind.2,hret,OwnerDecision.conflict,if_false,Bool.false_eq_true,false_and,htx]
  rfl

/-- Evidence is unique among the reconcilable candidates of every reachable store, and a proposal,
an answer, a requeue or a release meets the index of the database exactly when the owner retries a
failed candidate whose evidence another candidate has by now. The owner is then answered with the
error of the index. -/
theorem reconcilable_evidence_unique (h : Reachable (fun _ _ => True) w) :
    UniqueEvidence w.data.candidates ∧
      (∀ op, op.reconciles = true → Legal w op → NoCollision w op →
        (IndexViolated w op ↔ RetryClaimed w op)) ∧
      ∀ arguments transcriptId operationId now,
        RetryClaimed w (.resolveObligation arguments transcriptId operationId now) →
          resolveObligation w arguments transcriptId operationId now =
            (w,.error integrityFailure) := by
  have hs := reachable_sound h
  have hu := uniqueEvidence_of_consistent hs.consistent
  refine ⟨hu,fun op hop hl hfree => ⟨fun ⟨s',hb,hv⟩ => ?_,fun hr => ?_⟩,fun _ _ _ _ hr => hr.refused hu⟩
  · by_contra hr
    exact hv (hb.unique hop hs (reachable_hashed h) hl (hfree s' hb) hr)
  · cases op with
    | resolveObligation arguments transcriptId operationId now =>
      obtain ⟨s',r,hok,hv⟩ := hr.violated hu (w.data.latestOwnerSource transcriptId)
      exact ⟨s',.resolveObligationIn hok,hv⟩
    | _ => exact absurd hr id

end

/-- A remembered wording whose candidate is claimed. -/
def rememberedClaimed : List Op :=
  [.getOrCreateActive 0,.appendTurn 0 .owner [textBlock "I like tea and mate"] 1,
    .remember {content := some "likes tea"} none 2,.claimBatch {} 1 {} 3]

theorem reconcilable_evidence_unique_release :
    letI := plainRuntime
    let w := ran rememberedClaimed
    UniqueEvidence w.data.candidates ∧
      ¬IndexViolated w (.releaseFailed 3 ⟨0,0,0,1⟩ "model_error" 4) := by
  obtain ⟨hrun,hl⟩ : letI := plainRuntime
      Trace.Allowed step (fun w op => Legal w op ∧ True) emptyStore rememberedClaimed ∧
        Legal (ran rememberedClaimed) (.releaseFailed 3 ⟨0,0,0,1⟩ "model_error" 4) := by
    rw [plainRuntime_eq]
    decide +kernel
  have hmain := @reconcilable_evidence_unique plainRuntime _ (@ran_reachable plainRuntime _ _ hrun)
  refine ⟨hmain.1,fun hv => ?_⟩
  apply (hmain.2.1 (.releaseFailed 3 ⟨0,0,0,1⟩ "model_error" 4) rfl hl ?_).mp hv
  intro s' hb
  have hev : s'.evidence = [⟨0,0,"owner",0,""⟩] := by
    cases hb with
    | releaseFailed =>
      rw [plainRuntime_eq]
      decide +kernel
    | intakeFailed hc | began hc | failed hc => cases hc
  have hrest : ∀ i, s'.cited (i + 1) = [] := fun i => by simp [Tables.cited,Tables.evidenceOf,hev]
  have hzero : s'.cited 0 = [(0,"")] := by simp [Tables.cited,Tables.evidenceOf,hev]
  intro i j h
  rcases i with _ | i <;> rcases j with _ | j <;> simp only [hrest,hzero] at h ⊢
  · exact absurd h (by decide +kernel)
  · exact absurd h (by decide +kernel)

/-- The turn is remembered once more after its candidate has failed. -/
def rememberedAgain : List Op :=
  rememberedClaimed ++
    [Op.releaseFailed 1 ⟨0,0,0,1⟩ "model_error" 4,.remember {content := some "likes mate"} none 5]

/-- The owner's retry of the candidate that failed. -/
def failedRetry : ResolveArguments :=
  letI := plainRuntime
  { obligationId := 0
    decision := .retry
    reviewVersion := ((ran rememberedAgain).data.candidates[0]?).map fun row =>
      candidateReviewVersion 0 row "likes tea" }

/-- The owner's retry meets the index: the other candidate waits with the same evidence. -/
theorem retry_meets_index :
    letI := plainRuntime
    let w := ran rememberedAgain
    Reachable (fun _ _ => True) w ∧ Legal w (.resolveObligation failedRetry none (.uuid 0) 6) ∧
      IndexViolated w (.resolveObligation failedRetry none (.uuid 0) 6) ∧
      (resolveObligation w failedRetry none (.uuid 0) 6).2 = .error integrityFailure := by
  obtain ⟨hrun,p,hp,hne,b,hb,hbr,hsome,hsame⟩ : letI := plainRuntime
    Trace.Allowed step (fun w op => Legal w op ∧ True) emptyStore rememberedAgain ∧
      ∃ p : ℕ × CandidateRow, (ran rememberedAgain).data.requeuedCandidate failedRetry = some p ∧
        (1 ≠ p.1 ∧ ∃ b : CandidateRow, (ran rememberedAgain).data.candidates[1]? = some b ∧
          (b.status.reconcilable = true ∧ b.evidenceSetHash.isSome = true ∧
            p.2.evidenceSetHash = b.evidenceSetHash)) := by
    rw [failedRetry,plainRuntime_eq]
    decide +kernel
  have hr := @ran_reachable plainRuntime (fun _ _ => True) rememberedAgain hrun
  have hu := uniqueEvidence_of_consistent (@reachable_sound plainRuntime _ _ hr).consistent
  obtain ⟨hash,hh⟩ := Option.isSome_iff_exists.mp hsome
  have hclaimed : @RetryClaimed plainRuntime (@ran plainRuntime rememberedAgain)
      (.resolveObligation failedRetry none (.uuid 0) 6) :=
    ⟨p,hp,1,b,hash,hne,hb,hbr,hh,hsame.trans hh⟩
  obtain ⟨s',r,hok,hv⟩ := @RetryClaimed.violated plainRuntime _ _ _ _ _ hu hclaimed (none,none)
  refine ⟨hr,nofun,⟨s',@Body.resolveObligationIn plainRuntime _ _ _ _ _ _ _ _ _ hok,hv⟩,?_⟩
  exact congrArg Prod.snd (@RetryClaimed.refused plainRuntime _ _ _ _ _ hu hclaimed)

end Memory
end Atlas
