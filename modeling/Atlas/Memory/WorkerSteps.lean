import Atlas.Memory.LeaseSteps

/-! The worker's steps between claim and publication as runs of the candidate automaton. -/
namespace Atlas
namespace Memory

open RowTable

/-- The fence of a claim: its candidate is leased with its token, and its attempt is open at
the candidate's version. -/
structure Fence (s : Tables) (claim : CandidateLease) (row : CandidateRow) (a : AttemptRow) : Prop where
  candidate : s.candidates[claim.candidateId]? = some row
  attempt : s.attempts[claim.attemptId]? = some a
  status : row.status = .leased
  token : row.leaseToken = some claim.leaseToken
  opened : a.completedAt = none
  version : row.stateVersion = a.candidateStateVersion

theorem Issued.owner {s : Tables} {claim : CandidateLease} (h : Issued s claim) {a : AttemptRow}
    (ha : s.attempts[claim.attemptId]? = some a) :
    a.candidateId = claim.candidateId ∧ a.leaseToken = claim.leaseToken := by
  obtain ⟨a',ha',hc,ht⟩ := h
  cases Option.some.inj (ha.symm.trans ha')
  exact ⟨hc,ht⟩

namespace Tables

variable {P : Policy} {s s' : Tables} {claim : CandidateLease} {row : CandidateRow} {a : AttemptRow}

theorem holdsClaim_fence (hc : s.candidates[claim.candidateId]? = some row)
    (ha : s.attempts[claim.attemptId]? = some a) (h : holdsClaim claim row a = true) :
    Fence s claim row a := by
  simp only [holdsClaim,Bool.and_eq_true,beq_iff_eq,Option.isNone_iff_eq_none] at h
  exact ⟨hc,ha,h.1.1.2,h.1.2,h.1.1.1,h.2⟩

theorem lockedLiveClaim_fence {now : Time} (h : s.lockedLiveClaim claim now = .ok (row,a)) :
    Fence s claim row a := by
  unfold lockedLiveClaim at h
  split at h
  · next hc ha =>
    split at h
    · next hp =>
      cases h
      exact holdsClaim_fence hc ha hp.1
    · cases h
  · cases h

theorem lockedLiveClaim_ok {now : Time} (hc : s.candidates[claim.candidateId]? = some row)
    (ha : s.attempts[claim.attemptId]? = some a) (hh : holdsClaim claim row a = true)
    (ht : a.leaseToken = claim.leaseToken) (hl : row.leasedUntil.any (now < ·) = true)
    (hi : row.invalidatedAt = none) (he : s.evidenceLive claim.candidateId row = true) :
    s.lockedLiveClaim claim now = .ok (row,a) := by
  simp only [lockedLiveClaim,hc,ha]
  rw [if_pos ⟨hh,ht,hl,hi,he⟩]

theorem advancing_eq {f : AttemptRow → AttemptRow} (h : s.advancing claim row a f = .ok s') :
    s' = ((s.setCandidate claim.candidateId fun r => {r with
      stateVersion := row.stateVersion + 1}).setAttempt claim.attemptId fun a => {a with
        candidateStateVersion := row.stateVersion + 1}).setAttempt claim.attemptId f := by
  obtain ⟨s₁,h₁,rfl⟩ := map_ok h
  unfold advanceCandidateState at h₁
  split at h₁
  · cases h₁
  · cases h₁
    rfl

/-- A step that keeps the claim and moves both rows to the next version. -/
theorem advancing_chain {f : AttemptRow → AttemptRow} (hi : Issued s claim) (hf : Fence s claim row a)
    (h : s.advancing claim row a f = .ok s')
    (hk : ∀ a, (f a).candidateId = a.candidateId ∧ (f a).leaseToken = a.leaseToken ∧
      (f a).candidateStateVersion = a.candidateStateVersion) : Chain P s s' := by
  cases advancing_eq h
  have hat : Changes s.attempts _ claim.attemptId a _ :=
    (Changes.modify hf.attempt fun a => {a with
      candidateStateVersion := row.stateVersion + 1}).trans
      (Changes.modify (by rw [getElem?_modify_self,hf.attempt]; rfl) f)
  have hk' := hk {a with candidateStateVersion := row.stateVersion + 1}
  refine .single (RowChange.live (c := claim.candidateId)
    ⟨.modify hf.candidate _,rfl,rfl,.refl _,.same rfl rfl rfl rfl rfl rfl,?_⟩ ?_)
  · exact .work claim.attemptId a _ hat (hi.owner hf.attempt).1 hk'.1 hk'.2.1 hf.opened
      hf.version.symm hk'.2.2 (Nat.lt_succ_self _) rfl rfl rfl
  · change row.status.terminal = false
    rw [hf.status]
    rfl

theorem persistReading_chain {snapshot : EvaluationSnapshot} {reading : IndependentReading}
    {model : Option String} {now : Time} {id : ℕ} (hi : Issued s claim)
    (h : s.persistReading claim snapshot reading model now = .ok (s',id)) : Chain P s s' := by
  obtain ⟨⟨row,a⟩,hl,h⟩ := bind_ok h
  dsimp only at h
  split at h
  · cases h
    exact .refl
  · obtain ⟨s₁,hs,h⟩ := bind_ok h
    cases h
    exact (advancing_chain hi (lockedLiveClaim_fence hl) hs fun _ => ⟨rfl,rfl,rfl⟩).then_core rfl

theorem persistComparison_chain {readingId : ℕ} {comparison : ComparisonVerdict} {now : Time} {id : ℕ}
    (hi : Issued s claim) (h : s.persistComparison claim readingId comparison now = .ok (s',id)) :
    Chain P s s' := by
  obtain ⟨⟨row,a⟩,hl,h⟩ := bind_ok h
  dsimp only at h
  split at h
  · cases h
  · split at h
    · cases h
      exact .refl
    · obtain ⟨s₁,hs,h⟩ := bind_ok h
      cases h
      exact (advancing_chain hi (lockedLiveClaim_fence hl) hs fun _ => ⟨rfl,rfl,rfl⟩).then_core rfl

theorem persistReconciliation_chain {comparisonId : ℕ} {snapshot : EvaluationSnapshot}
    {relation : MemoryRelationDecision} {now : Time} {id : ℕ} (hi : Issued s claim)
    (h : s.persistReconciliation claim comparisonId snapshot relation now = .ok (s',id)) :
    Chain P s s' := by
  obtain ⟨⟨row,a⟩,hl,h⟩ := bind_ok h
  dsimp only at h
  split at h
  · cases h
  · obtain ⟨s₁,hs,h⟩ := bind_ok h
    cases h
    exact (advancing_chain hi (lockedLiveClaim_fence hl) hs fun _ => ⟨rfl,rfl,rfl⟩).then_core rfl

theorem persistPolicy_chain {recordId : ℕ} {policy : String} {reason : Option String} {now : Time}
    {id : ℕ} (hi : Issued s claim) (h : s.persistPolicy claim recordId policy reason now = .ok (s',id)) :
    Chain P s s' := by
  obtain ⟨⟨row,a⟩,hl,h⟩ := bind_ok h
  dsimp only at h
  split at h
  · cases h
    exact .refl
  · obtain ⟨s₁,hs,h⟩ := bind_ok h
    cases h
    exact (advancing_chain hi (lockedLiveClaim_fence hl) hs fun _ => ⟨rfl,rfl,rfl⟩).then_core rfl

/-- A claim's candidate leaves the lease while its attempt is closed. -/
theorem RowChange.released {row' : CandidateRow} {a' : AttemptRow} (hi : Issued s claim)
    (hf : Fence s claim row a) (hc : Changes s.candidates s'.candidates claim.candidateId row row')
    (ha : Changes s.attempts s'.attempts claim.attemptId a a') (he : s'.evidence = s.evidence)
    (ht : s'.turns = s.turns) (ho : s'.obligations = s.obligations) (hn : s'.nextToken = s.nextToken)
    (hcl : a'.candidateId = a.candidateId ∧ a'.leaseToken = a.leaseToken ∧ a'.completedAt ≠ none)
    (hv : row.stateVersion ≤ row'.stateVersion)
    (hm : RowMove P s claim.candidateId row row') :
    RowChange P claim.candidateId row row' s s' where
  change := hc
  evidence := he
  turns := ht
  obligations := ho ▸ .refl _
  columns := hm
  attempts := .close claim.attemptId a a' ha (hi.owner hf.attempt).1 hcl.1 hcl.2.1 hf.opened hcl.2.2
    hf.version.symm hv hn

theorem finish_chain {status : CandidateStatus} {decision code : String} {semantic : Option String}
    {now : Time} {u : Unit} (hi : Issued s claim)
    (h : s.finish claim status decision code semantic now = .ok (s',u))
    (hm : P.moves .leased status) (hq : status.queued = false) : Chain P s s' := by
  obtain ⟨⟨row,a⟩,hl,h⟩ := bind_ok h
  dsimp only at h
  obtain ⟨s₁,hs,h⟩ := bind_ok h
  have hf := lockedLiveClaim_fence hl
  cases advancing_eq hs
  cases h
  apply Relation.ReflTransGen.single
  apply RowChange.settle
  refine RowChange.released hi hf (.modify_twice hf.candidate _ _) (.modify_twice hf.attempt _ _) rfl
    rfl rfl rfl ⟨rfl,rfl,Option.some_ne_none now⟩ (Nat.le_succ _) ?_
  refine .leave (by simp [hf.status]) (by rw [hf.status]; exact hm) ?_ rfl rfl rfl ?_
  · rintro rfl
    cases hq
  · intro hq'
    rw [show status.queued = true from hq'] at hq
    cases hq

theorem requeueAfterVersionConflict_chain {snapshot : EvaluationSnapshot} {now : Time}
    (hi : Issued s claim) (hm : P.moves .leased .pending)
    (hh : P.home → ∀ row a, Fence s claim row a → s.Homely claim.candidateId row) :
    Chain P s (s.requeueAfterVersionConflict claim snapshot now) := by
  unfold requeueAfterVersionConflict
  split
  · next row a hc ha =>
    split
    · exact .refl
    · next hp =>
      have hf := holdsClaim_fence hc ha (by simpa using hp)
      apply Relation.ReflTransGen.single
      apply RowChange.live
      · refine RowChange.released hi hf (.modify hc _) (.modify ha _) rfl rfl rfl rfl
          ⟨rfl,rfl,Option.some_ne_none now⟩ (Nat.le_succ _) ?_
        exact .leave (by simp [hf.status]) (by rw [hf.status]; exact hm) (by simp) rfl rfl rfl
          fun _ hp => hh hp row a hf
      · rfl
  · exact .refl

theorem requeueOrFail_move (hp : P.moves .leased .pending) (hx : P.moves .leased .failed) (s : Tables)
    (c : ℕ) (hs : row.status = .leased) (maxAttempts : ℕ) (now : Time) (code : Option String) :
    RowMove P s c row (CandidateRow.requeueOrFail
      {row with stateVersion := row.stateVersion + 1} maxAttempts now code) := by
  unfold CandidateRow.requeueOrFail
  dsimp only
  split
  · exact .leave (by simp [hs]) (by rw [hs]; exact hx) (by simp) rfl rfl rfl
      (by simp [CandidateStatus.queued])
  · exact
      { move := Or.inr (by rw [hs]; exact hp)
        transcript := rfl
        hash := rfl
        payload := fun _ hv => by rw [hs] at hv; cases hv
        stamped := id
        stamp := Or.inl
        leased := fun hl => by cases hl
        assertion := fun _ => Or.inl ⟨by rw [hs]; rfl,rfl⟩ }

theorem requeueOrFail_version (row : CandidateRow) (maxAttempts : ℕ) (now : Time)
    (code : Option String) : row.stateVersion ≤ (CandidateRow.requeueOrFail
      {row with stateVersion := row.stateVersion + 1} maxAttempts now code).stateVersion := by
  unfold CandidateRow.requeueOrFail
  dsimp only
  split <;> exact Nat.le_succ _

theorem requeueOrFail_live (row : CandidateRow) (maxAttempts : ℕ) (now : Time)
    (code : Option String) :
    (CandidateRow.requeueOrFail row maxAttempts now code).status.terminal = false := by
  unfold CandidateRow.requeueOrFail
  dsimp only
  split <;> rfl

theorem settleIfFailed_frame (s : Tables) (c : ℕ) (row : CandidateRow) (now : Time)
    (code : Option String) : Frame s (s.settleIfFailed c row now code) := by
  unfold settleIfFailed
  split
  · exact s.settle_frame c now none _ none
  · exact .refl s

theorem releaseAfterConflict_chain {maxAttempts : ℕ} {code : String} {now : Time}
    (hi : Issued s claim) (hp : P.moves .leased .pending) (hx : P.moves .leased .failed) :
    Chain P s (s.releaseAfterConflict maxAttempts claim code now) := by
  unfold releaseAfterConflict
  split
  · next row a hc ha =>
    split
    · exact .refl
    · next hh =>
      have hf := holdsClaim_fence hc ha (by simpa using hh)
      refine Relation.ReflTransGen.trans (.single ?_) (settleIfFailed_frame _ _ _ _ _).chain
      apply RowChange.live
      · exact RowChange.released hi hf (.modify hc _) (.modify ha _) rfl rfl rfl rfl
          ⟨rfl,rfl,Option.some_ne_none now⟩ (requeueOrFail_version ..)
          (requeueOrFail_move hp hx s _ hf.status ..)
      · exact requeueOrFail_live ..
  · exact .refl

/-- A failure release looks at two rows only of what it read. -/
theorem releaseFailed_congr {read : Tables} {maxAttempts : ℕ} {code : String} {now : Time}
    (hc : read.candidates[claim.candidateId]? = s.candidates[claim.candidateId]?)
    (ha : read.attempts[claim.attemptId]? = s.attempts[claim.attemptId]?) :
    releaseFailed read s maxAttempts claim code now = releaseFailed s s maxAttempts claim code now := by
  simp only [releaseFailed,hc,ha]

theorem flush_requeueOrFail (row : CandidateRow) (maxAttempts : ℕ) (now : Time)
    (code : Option String) :
    row.flush (CandidateRow.requeueOrFail
      {row with stateVersion := row.stateVersion + 1} maxAttempts now code) row =
      CandidateRow.requeueOrFail
        {row with stateVersion := row.stateVersion + 1} maxAttempts now code := by
  unfold CandidateRow.requeueOrFail CandidateRow.flush
  dsimp only
  split <;> simp

theorem flush_releasedAttempt (a : AttemptRow) (status : String) (error code : Option String)
    (now : Time) :
    a.flush (releasedAttempt a status error code now) a = releasedAttempt a status error code now := by
  simp [AttemptRow.flush,releasedAttempt]

theorem releaseFailed_chain {maxAttempts : ℕ} {code : String} {now : Time} (hi : Issued s claim)
    (hp : P.moves .leased .pending) (hx : P.moves .leased .failed) :
    Chain P s (releaseFailed s s maxAttempts claim code now) := by
  unfold releaseFailed
  split
  · next row a hc ha =>
    split
    · exact .refl
    · next hh =>
      have hf := holdsClaim_fence hc ha (by simpa using hh)
      have hrow := Changes.modify hc fun r => row.flush (CandidateRow.requeueOrFail
        {row with stateVersion := row.stateVersion + 1} maxAttempts now (some code)) r
      have hatt := Changes.modify ha fun r =>
        a.flush (releasedAttempt a "failed" (some code) (some code) now) r
      rw [flush_requeueOrFail] at hrow
      rw [flush_releasedAttempt] at hatt
      refine Relation.ReflTransGen.trans (.single ?_) (settleIfFailed_frame _ _ _ _ _).chain
      apply RowChange.live
      · exact RowChange.released hi hf hrow hatt rfl rfl rfl rfl
          ⟨rfl,rfl,Option.some_ne_none now⟩ (requeueOrFail_version ..)
          (requeueOrFail_move hp hx s _ hf.status ..)
      · exact requeueOrFail_live ..
  · exact .refl

end Tables

end Memory
end Atlas
