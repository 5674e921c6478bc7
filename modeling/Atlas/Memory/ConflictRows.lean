import Atlas.Memory.ChatErasure

/-! The conflicts of the store: a publication opens one, expiry leaves it unresolved, the purge of
its candidate blanks it, an owner's decision ends it, and nothing else touches it. -/
namespace Atlas
namespace Memory

open RowTable

/-- What becomes of a conflict without a decision. -/
inductive ConflictRow.Follows (k k' : ConflictRow) : Prop
  | kept : k' = k → Follows k k'
  | expired (at_ : Option Time) : k.status = "open" →
      k' = {k with status := "expired_unresolved", resolvedAt := at_} → Follows k k'
  | purged : k'.candidateId = k.candidateId → k'.targetMemoryId = k.targetMemoryId → k'.Blank →
      Follows k k'

namespace ConflictRow.Follows

variable {k k' k'' : ConflictRow}

theorem same (h : k.Follows k') :
    k'.candidateId = k.candidateId ∧ k'.targetMemoryId = k.targetMemoryId := by
  cases h with
  | kept h => rw [h]; exact ⟨rfl,rfl⟩
  | expired at_ _ h => rw [h]; exact ⟨rfl,rfl⟩
  | purged hc ht _ => exact ⟨hc,ht⟩

theorem trans (h : k.Follows k') (h' : k'.Follows k'') : k.Follows k'' := by
  cases h' with
  | kept h' => exact h' ▸ h
  | expired at_ ho h' =>
    cases h with
    | kept h =>
      subst h
      exact .expired at_ ho h'
    | expired _ _ h =>
      rw [h] at ho
      simp at ho
    | purged _ _ hb => exact absurd (hb.2.1.symm.trans ho) (by decide)
  | purged hc ht hb => exact .purged (hc.trans h.same.1) (ht.trans h.same.2) hb

/-- A conflict that was decided or purged stays so. -/
theorem not_resolvable (h : k.Follows k') (hk : k.resolvable = false) : k'.resolvable = false := by
  cases h with
  | kept h => exact h ▸ hk
  | expired at_ ho _ => rw [ConflictRow.resolvable,ho] at hk; cases hk
  | purged _ _ hb => exact hb.not_resolvable

/-- A conflict stays open to the owner unless it is purged. -/
theorem resolvable (h : k.Follows k') (hk : k.resolvable = true) : k'.resolvable = true ∨ k'.Blank := by
  cases h with
  | kept h => exact Or.inl (h ▸ hk)
  | expired at_ ho h => exact Or.inl (by rw [h]; rfl)
  | purged _ _ hb => exact Or.inr hb

end ConflictRow.Follows

/-- The conflicts of a store after a change that decides none. -/
def ConflictsFollow (t t' : List ConflictRow) : Prop :=
  ∀ (i : ℕ) (k : ConflictRow), t[i]? = some k → ∃ k', t'[i]? = some k' ∧ k.Follows k'

/-- The conflicts as they were, apart from new ones and expired ones. -/
def ConflictsStay (t t' : List ConflictRow) : Prop :=
  ∀ (i : ℕ) (k : ConflictRow), t[i]? = some k → ∃ k', t'[i]? = some k' ∧ k.Follows k' ∧
    (k.resolvable = true → k'.resolvable = true)

namespace ConflictsStay

variable {t t' t'' : List ConflictRow}

theorem of_eq (h : t' = t) : ConflictsStay t t' := fun _ k hk =>
  ⟨k,h ▸ hk,.kept rfl,id⟩

theorem refl (t : List ConflictRow) : ConflictsStay t t := of_eq rfl

theorem trans (h : ConflictsStay t t') (h' : ConflictsStay t' t'') : ConflictsStay t t'' := by
  intro i k hk
  obtain ⟨k',hk',hf,hr⟩ := h i k hk
  obtain ⟨k'',hk'',hf',hr'⟩ := h' i k' hk'
  exact ⟨k'',hk'',hf.trans hf',hr' ∘ hr⟩

theorem append (t u : List ConflictRow) : ConflictsStay t (t ++ u) := fun i k hk => by
  refine ⟨k,?_,.kept rfl,id⟩
  rw [List.getElem?_append_left (List.getElem?_eq_some_iff.mp hk).1]
  exact hk

theorem follow (h : ConflictsStay t t') : ConflictsFollow t t' := fun i k hk =>
  let ⟨k',hk',hf,_⟩ := h i k hk
  ⟨k',hk',hf⟩

end ConflictsStay

theorem ConflictsFollow.trans {t t' t'' : List ConflictRow} (h : ConflictsFollow t t')
    (h' : ConflictsFollow t' t'') : ConflictsFollow t t'' := by
  intro i k hk
  obtain ⟨k',hk',hf⟩ := h i k hk
  obtain ⟨k'',hk'',hf'⟩ := h' i k' hk'
  exact ⟨k'',hk'',hf.trans hf'⟩

namespace Tables

variable {s s' : Tables}

theorem docket_conflicts (h : s'.docket = s.docket) : s'.conflicts = s.conflicts := by
  simp only [docket,shelf,Prod.mk.injEq] at h
  exact h.1.2.2.2

theorem expireAwaiting_conflicts (s : Tables) (now : Time) (d : ℕ) (decision : DecisionJson)
    (clear : CandidateRow → CandidateRow) :
    (s.expireAwaiting now d decision clear).conflicts = s.conflicts := by
  unfold expireAwaiting
  split
  · rfl
  · split
    · rfl
    · rw [settle_conflicts]
      rfl

theorem setConflict_stays {id : ℕ} {k : ConflictRow} (hk : s.conflicts[id]? = some k)
    {f : ConflictRow → ConflictRow} (hf : k.Follows (f k))
    (hr : k.resolvable = true → (f k).resolvable = true) :
    ConflictsStay s.conflicts (s.setConflict id f).conflicts := by
  intro i x hx
  by_cases hi : id = i
  · subst hi
    cases Option.some.inj (hk.symm.trans hx)
    refine ⟨f k,?_,hf,hr⟩
    rw [setConflict,getElem?_modify_self,hk]
    rfl
  · refine ⟨x,?_,.kept rfl,fun h => h⟩
    rw [setConflict,getElem?_modify_ne _ _ hi]
    exact hx

/-- Expiry leaves an open conflict unresolved, which the owner may still decide. -/
theorem expireObligation_conflicts (now : Time) (s : Tables) (id : ℕ) :
    ConflictsStay s.conflicts (expireObligation now s id).conflicts := by
  unfold expireObligation
  split
  · exact .refl _
  · dsimp only
    split
    · exact .of_eq (expireAwaiting_conflicts ..)
    · split
      · exact .refl _
      · next conflict hk =>
        split
        · exact .refl _
        · next hopen =>
          rw [expireAwaiting_conflicts]
          exact setConflict_stays hk (.expired _ (not_not.mp hopen) rfl) fun _ => rfl
    · exact .refl _

theorem claimRow_conflicts (config : LeaseConfig) (now : Time) (s : Tables) (d : ℕ) :
    (s.claimRow config now d).1.conflicts = s.conflicts := by
  unfold claimRow
  split
  · rfl
  · split
    · unfold leaseCandidate
      extract_lets s₁ number token attempt s₂
      have h₁ : s₁.conflicts = s.conflicts := by
        dsimp only [s₁]
        split <;> rfl
      exact h₁
    · exact settle_conflicts ..

theorem claimBatch_conflicts (s : Tables) (config : LeaseConfig) (limit : ℕ) (locks : RowLocks)
    (now : Time) : ConflictsStay s.conflicts (s.claimBatch config limit locks now).1.conflicts := by
  have hrel : ∀ (f : Tables → ℕ → Tables)
      (_ : ∀ t a, ConflictsStay t.conflicts (f t a).conflicts) (as : List ℕ) (t : Tables),
      ConflictsStay t.conflicts (as.foldl f t).conflicts := fun f hf as t =>
    Trace.foldl_rel (R := fun a b : Tables => ConflictsStay a.conflicts b.conflicts)
      (fun _ => .refl _) (fun h h' => h.trans h') as hf t
  have h₁ : ConflictsStay s.conflicts (s.expiredObligations locks now).conflicts :=
    hrel _ (fun t id => expireObligation_conflicts now t id) _ s
  have h₂ : ConflictsStay (s.expiredObligations locks now).conflicts
      (s.expiredRetention locks now).conflicts :=
    hrel (expireRetained now) (fun t d => .of_eq (settle_conflicts ..)) _ _
  have h₃ : ConflictsStay (s.expiredRetention locks now).conflicts
      (s.exhausted config locks now).conflicts :=
    hrel (failExhausted now) (fun t d => .of_eq (settle_conflicts ..)) _ _
  rw [claimBatch_fst,claimRows_fst]
  refine ((h₁.trans h₂).trans h₃).trans ?_
  exact hrel _ (fun t d => .of_eq (claimRow_conflicts config.clamped now t d)) _ _

section

variable {claim : CandidateLease}

theorem finish_conflicts {status : CandidateStatus} {decision code : String}
    {semantic : Option String} {now : Time} {u : Unit}
    (h : s.finish claim status decision code semantic now = .ok (s',u)) :
    s'.conflicts = s.conflicts := by
  obtain ⟨⟨row,a⟩,_,h⟩ := bind_ok h
  dsimp only at h
  obtain ⟨s₁,hs,h⟩ := bind_ok h
  have hadv := docket_conflicts (advancing_docket hs)
  cases h
  rw [settle_conflicts]
  exact hadv

theorem persistReading_conflicts {snapshot : EvaluationSnapshot} {reading : IndependentReading}
    {model : Option String} {now : Time} {id : ℕ}
    (h : s.persistReading claim snapshot reading model now = .ok (s',id)) :
    s'.conflicts = s.conflicts := by
  obtain ⟨⟨row,a⟩,_,h⟩ := bind_ok h
  dsimp only at h
  split at h
  · cases h
    rfl
  · obtain ⟨s₁,hs,h⟩ := bind_ok h
    have hadv := docket_conflicts (advancing_docket hs)
    cases h
    exact hadv

theorem persistComparison_conflicts {readingId : ℕ} {comparison : ComparisonVerdict} {now : Time}
    {id : ℕ} (h : s.persistComparison claim readingId comparison now = .ok (s',id)) :
    s'.conflicts = s.conflicts := by
  obtain ⟨⟨row,a⟩,_,h⟩ := bind_ok h
  dsimp only at h
  split at h
  · cases h
  · split at h
    · cases h
      rfl
    · obtain ⟨s₁,hs,h⟩ := bind_ok h
      have hadv := docket_conflicts (advancing_docket hs)
      cases h
      exact hadv

theorem persistReconciliation_conflicts {comparisonId : ℕ} {snapshot : EvaluationSnapshot}
    {relation : MemoryRelationDecision} {now : Time} {id : ℕ}
    (h : s.persistReconciliation claim comparisonId snapshot relation now = .ok (s',id)) :
    s'.conflicts = s.conflicts := by
  obtain ⟨⟨row,a⟩,_,h⟩ := bind_ok h
  dsimp only at h
  split at h
  · cases h
  · obtain ⟨s₁,hs,h⟩ := bind_ok h
    have hadv := docket_conflicts (advancing_docket hs)
    cases h
    exact hadv

theorem persistPolicy_conflicts {recordId : ℕ} {policy : String} {reason : Option String}
    {now : Time} {id : ℕ} (h : s.persistPolicy claim recordId policy reason now = .ok (s',id)) :
    s'.conflicts = s.conflicts := by
  obtain ⟨⟨row,a⟩,_,h⟩ := bind_ok h
  dsimp only at h
  split at h
  · cases h
    rfl
  · obtain ⟨s₁,hs,h⟩ := bind_ok h
    have hadv := docket_conflicts (advancing_docket hs)
    cases h
    exact hadv

theorem requeueAfterVersionConflict_conflicts (s : Tables) (claim : CandidateLease)
    (snapshot : EvaluationSnapshot) (now : Time) :
    (s.requeueAfterVersionConflict claim snapshot now).conflicts = s.conflicts := by
  unfold requeueAfterVersionConflict
  split
  · split <;> rfl
  · rfl

theorem settleIfFailed_conflicts (s : Tables) (d : ℕ) (row : CandidateRow) (now : Time)
    (code : Option String) : (s.settleIfFailed d row now code).conflicts = s.conflicts := by
  unfold settleIfFailed
  split
  · exact settle_conflicts ..
  · rfl

theorem releaseAfterConflict_conflicts (s : Tables) (maxAttempts : ℕ) (claim : CandidateLease)
    (code : String) (now : Time) :
    (s.releaseAfterConflict maxAttempts claim code now).conflicts = s.conflicts := by
  unfold releaseAfterConflict
  split
  · split
    · rfl
    · exact settleIfFailed_conflicts ..
  · rfl

theorem releaseFailed_conflicts (read s : Tables) (maxAttempts : ℕ) (claim : CandidateLease)
    (code : String) (now : Time) :
    (releaseFailed read s maxAttempts claim code now).conflicts = s.conflicts := by
  unfold releaseFailed
  split
  · split
    · rfl
    · exact settleIfFailed_conflicts ..
  · rfl

end

theorem resolveCommandObligation_conflicts {commandId : ℕ} {code : String}
    {resolution : ResolutionJson} {now : Time}
    (h : s.resolveCommandObligation commandId code resolution now = .ok s') :
    s'.conflicts = s.conflicts := by
  obtain ⟨id?,_,h⟩ := map_ok h
  split at h <;> (cases h; rfl)

theorem applyCommand_conflicts {commandId : ℕ} {target replacement : Option ℕ} {now : Time}
    (h : s.applyCommand commandId target replacement now = .ok s') : s'.conflicts = s.conflicts :=
  (resolveCommandObligation_conflicts h).trans rfl

theorem failCommand_conflicts {commandId : ℕ} {e : Failure} {now : Time}
    (h : s.failCommand commandId e now = .ok s') : s'.conflicts = s.conflicts :=
  (resolveCommandObligation_conflicts h).trans rfl

theorem restoreMutate_conflicts {memoryId : ℕ} {now : Time} {commandId : ℕ} {applied : Applied}
    (h : s.restoreMutate memoryId now commandId = .ok (s',applied)) : s'.conflicts = s.conflicts := by
  unfold restoreMutate at h
  split at h
  · cases h
  · split at h
    · cases h
    · split at h
      · obtain ⟨s₁,ha,h⟩ := bind_ok h
        cases h
        exact applyCommand_conflicts ha
      · split at h
        · cases h
        · split at h
          · cases h
          · split at h
            · cases h
            · obtain ⟨s₁,ha,h⟩ := bind_ok h
              cases h
              exact (applyCommand_conflicts ha).trans rfl

theorem purgeCandidate_conflicts (operationId : OperationId) (now : Time) (scrub : Bool) (s : Tables)
    (p : ℕ × CandidateRow) : (purgeCandidate operationId now scrub s p).conflicts = s.conflicts := by
  unfold purgeCandidate
  dsimp only
  split <;> exact settle_conflicts ..

theorem rejectConflicting_conflicts (s : Tables) (d : ℕ) (decision : DecisionJson) (code : String)
    (resolution : Option String) (now : Time) :
    (s.rejectConflicting d decision code resolution now).conflicts = s.conflicts := by
  unfold rejectConflicting
  split
  · rfl
  · split
    · rfl
    · exact settle_conflicts ..

/-- The purge blanks the conflicts of the candidates it selected. -/
theorem tombstoneCandidateDerivatives_conflicts (s : Tables) (operationId : OperationId)
    (candidateIds : List ℕ) (now : Time) :
    ConflictsFollow s.conflicts
      (s.tombstoneCandidateDerivatives operationId candidateIds now).conflicts := by
  intro i k hk
  unfold tombstoneCandidateDerivatives
  dsimp only
  rw [List.getElem?_map,hk]
  refine ⟨_,rfl,?_⟩
  dsimp only
  split
  · exact .purged rfl rfl ⟨rfl,rfl,Option.some_ne_none now⟩
  · exact .kept rfl

variable [PyRuntime]

theorem redactedTurns_conflicts (operationId : OperationId) (now : Time)
    (content redactContent : Option String) (rows : List CandidateRow) (s : Tables) :
    (rows.foldl (redactEvidenceTurn operationId now content redactContent) s).conflicts =
      s.conflicts := by
  refine Trace.foldl_invariant (I := fun t : Tables => t.conflicts = s.conflicts) _ ?_ rfl
  intro t row _ ht
  exact (docket_conflicts (redactEvidenceTurn_docket ..)).trans ht

theorem invalidateCandidates_conflicts (loaded : Tables → Tables) (s : Tables)
    (operationId : OperationId) (turnIds candidateIds : List ℕ)
    (content redactContent : Option String) (scrub : Bool) (now : Time) :
    ConflictsFollow s.conflicts (s.invalidateCandidates loaded operationId turnIds candidateIds content
      redactContent scrub now).1.conflicts ∧
    (scrub = false → (s.invalidateCandidates loaded operationId turnIds candidateIds content
      redactContent scrub now).1.conflicts = s.conflicts) := by
  unfold invalidateCandidates
  extract_lets read selected redacted evidenceTurns purged
  have hred : redacted.conflicts = s.conflicts := by
    dsimp only [redacted]
    split
    · exact redactedTurns_conflicts ..
    · rfl
  have hpurged : purged.conflicts = redacted.conflicts :=
    Trace.foldl_invariant (I := fun t : Tables => t.conflicts = redacted.conflicts) _
      (fun t p _ ht => (purgeCandidate_conflicts operationId now scrub t p).trans ht) rfl
  have hsame := hpurged.trans hred
  dsimp only
  split
  · next hs =>
    refine ⟨?_,fun hf => absurd hs (by rw [hf]; decide)⟩
    rw [← hsame]
    exact tombstoneCandidateDerivatives_conflicts purged operationId selected now
  · exact ⟨(ConflictsStay.of_eq hsame).follow,fun _ => hsame⟩

theorem retireMutate_conflicts {loaded : Tables → Tables} {memoryId : Option ℕ}
    {content : Option String} {source : OwnerSource} {now : Time} {commandId : ℕ} {applied : Applied}
    (h : s.retireMutate loaded memoryId content source now commandId = .ok (s',applied)) :
    s'.conflicts = s.conflicts := by
  obtain ⟨target,_,h⟩ := bind_ok h
  split at h
  · obtain ⟨s₁,ha,h⟩ := bind_ok h
    cases h
    exact applyCommand_conflicts ha
  · obtain ⟨⟨s₁,id,result⟩,hr,h⟩ := bind_ok h
    obtain ⟨s₂,ha,h⟩ := bind_ok h
    cases h
    refine (applyCommand_conflicts ha).trans (Eq.trans ?_ (docket_conflicts (retireRow_docket hr)))
    exact (invalidateCandidates_conflicts ..).2 rfl

theorem deleteMutate_conflicts {loaded : Tables → Tables} {memoryId : Option ℕ}
    {content : Option String} {scope : String} {source : OwnerSource} {now : Time} {commandId : ℕ}
    {applied : Applied}
    (h : s.deleteMutate loaded memoryId content scope source now commandId = .ok (s',applied)) :
    ConflictsFollow s.conflicts s'.conflicts := by
  obtain ⟨id,_,ha⟩ | ⟨target,selected,s₁,d,affected,found,_,hd,hdel⟩ := deleteMutate_cases h
  · exact (ConflictsStay.of_eq (applyCommand_conflicts ha)).follow
  · obtain ⟨t,id,ht,ha⟩ := hdel.applied
    have hs' := (applyCommand_conflicts ha).trans (docket_conflicts ht)
    rw [hs',← docket_conflicts (deletionSources_docket hd)]
    exact (invalidateCandidates_conflicts ..).1

theorem queueExplicitContentCommandIn_conflicts {e : ExplicitCommand} {source : OwnerSource}
    {now : Time} {q : Queued} (h : s.queueExplicitContentCommandIn e source now = .ok (s',q)) :
    s'.conflicts = s.conflicts := by
  obtain ⟨transcriptId,turnId,candidate,s₁,created,target,rfl,hv,he,s₂,hg,_,_,rfl⟩ :=
    queueExplicitContentCommandIn_cases h
  have h₁ : s₁.conflicts = s.conflicts := by
    obtain ⟨refs,_,_,_,⟨_,rfl,_⟩ | ⟨_,_,_,_,_,rfl⟩⟩ := enqueue_cases he <;> rfl
  exact (docket_conflicts (correctionGuardRow_docket hg)).trans h₁

omit [PyRuntime] in
theorem rejectReview_conflicts (s : Tables) (obligationId targetId : ℕ) (now : Time) :
    (s.rejectReview obligationId targetId now).conflicts = s.conflicts := rfl

theorem confirmReview_conflicts {obligationId targetId : ℕ} {asserted : String} {now : Time}
    (h : s.confirmReview obligationId targetId asserted now = .ok s') :
    s'.conflicts = s.conflicts := by
  unfold confirmReview at h
  extract_lets fingerprint at h
  split at h
  · cases h
  · obtain ⟨⟨s₁,transcriptId,turnId⟩,ht,h⟩ := bind_ok h
    have hsame := docket_conflicts (appendOwnerAssertionTurn_docket ht)
    cases h
    exact hsame

theorem resolveReviewMutate_conflicts {arguments : ResolveArguments} {now : Time}
    {r : Bool × Resolution} (h : s.resolveReviewMutate arguments now = .ok (s',r)) :
    s'.conflicts = s.conflicts := by
  unfold resolveReviewMutate at h
  split at h
  · cases h
  · split at h
    · cases h
      rfl
    · split at h
      · cases h
      · split at h
        · cases h
        · split at h
          · cases h
          · obtain ⟨text,_,h⟩ := bind_ok h
            dsimp only at h
            split at h
            · cases h
              rfl
            · split at h
              · cases h
                rfl
              · obtain ⟨asserted,_,h⟩ := bind_ok h
                obtain ⟨s₁,hc,h⟩ := bind_ok h
                cases h
                exact confirmReview_conflicts hc

theorem resolveCandidate_conflicts {arguments : ResolveArguments} {obligation : ObligationRow}
    {source : OwnerSource} {now : Time} {r : Resolution}
    (h : s.resolveCandidate arguments obligation source now = .ok (s',r)) :
    s'.conflicts = s.conflicts := by
  unfold resolveCandidate at h
  split at h
  · cases h
  · split at h
    · cases h
    · obtain ⟨text,_,h⟩ := bind_ok h
      dsimp only at h
      split at h
      · cases h
        rfl
      · split at h
        · cases h
          exact settle_conflicts ..
        · split at h
          · obtain ⟨s₁,hc,h⟩ := bind_ok h
            cases h
            obtain ⟨asserted,_,hc⟩ := bind_ok hc
            obtain ⟨⟨s₂,transcriptId,turnId⟩,ht,hc⟩ := bind_ok hc
            have hsame := docket_conflicts (appendOwnerAssertionTurn_docket ht)
            cases hc
            exact hsame
          · cases h
            exact settle_conflicts ..

theorem resolveObligationIn_conflicts {arguments : ResolveArguments} {source : OwnerSource}
    {now : Time} {r : Resolution}
    (h : s.resolveObligationIn arguments source now = .ok (s',r)) : s'.conflicts = s.conflicts := by
  unfold resolveObligationIn at h
  split at h
  · cases h
  · split at h
    · cases h
      rfl
    · split at h
      · unfold retryExplicitObligation at h
        split at h
        · cases h
        · split at h
          · cases h
          · split at h
            · cases h
            · split at h
              · cases h
                rfl
              · split at h
                · cases h
                  rfl
                · obtain ⟨text,_,h⟩ := bind_ok h
                  dsimp only at h
                  split at h
                  · cases h
                    rfl
                  · split at h
                    · cases h
                      exact settle_conflicts ..
                    · cases h
                      rfl
      · split at h
        · cases h
        · exact resolveCandidate_conflicts h

end Tables

namespace Publication

variable [PyRuntime] {p : Publication} {s : Tables}

omit [PyRuntime] in
/-- A publication opens a conflict at most. -/
theorem conflict_conflicts {r : Tables × Published} (h : p.conflict s = .ok r) :
    ConflictsStay s.conflicts r.1.conflicts := by
  unfold conflict at h
  split at h
  · cases h
    exact .refl _
  · split at h
    · cases h
      exact .refl _
    · split at h
      · cases h
      · obtain ⟨content,_,h⟩ := bind_ok h
        extract_lets conflictId obligationId conflict obligation s₁ at h
        cases h
        exact .append s.conflicts [conflict]

theorem groundLegacy_conflicts {content : String} {r : Tables × Published}
    (h : p.groundLegacy s content = .ok r) : r.1.conflicts = s.conflicts := by
  unfold groundLegacy at h
  split at h
  · cases h
    rfl
  · split at h
    · cases h
      rfl
    · split at h
      · cases h
        rfl
      · obtain ⟨review,_,h⟩ := bind_ok h
        cases h
        have hl := fun t : Tables => t.addCandidateLineage_docket
        refine (Tables.docket_conflicts (complete_docket ..)).trans ?_
        split
        · exact Tables.docket_conflicts (hl (s.setMemory _ _) _ _)
        · change (Tables.addCandidateLineage _ _ _).1.conflicts = _
          exact Tables.docket_conflicts (hl (s.setMemory _ _) _ _)

theorem write_conflicts {r : Tables × Published} (h : p.write s = .ok r) :
    r.1.conflicts = s.conflicts := by
  obtain ⟨content,_,h⟩ := bind_ok h
  dsimp only at h
  split at h
  · cases h
    rfl
  · split at h
    · exact groundLegacy_conflicts h
    · cases h
      exact Tables.docket_conflicts (p.historicalPredecessor_docket s content _)
    · cases h
      exact Tables.docket_conflicts (p.create_docket s content)
    · cases h
      exact Tables.docket_conflicts (p.replace_docket s content)
    · cases h
      exact Tables.docket_conflicts (p.replace_docket s content)
    · cases h
      rfl

theorem decide_conflicts {config : PublisherConfig} {r : Tables × Published}
    (h : p.decide config s = .ok r) : ConflictsStay s.conflicts r.1.conflicts := by
  unfold decide at h
  extract_lets sourceStale durable at h
  split at h
  · cases h
    exact .refl _
  · split at h
    · cases h
      exact .refl _
    · split at h
      · cases h
        exact .refl _
      · split at h
        · cases h
          exact .refl _
        · split at h
          · cases h
            exact .refl _
          · split at h
            · cases h
              exact .refl _
            · split at h
              · cases h
                exact .refl _
              · exact conflict_conflicts h
              · cases h
                exact .of_eq (Tables.docket_conflicts (p.equivalent_docket s))
              · exact .of_eq (write_conflicts h)

end Publication

namespace Tables

variable [PyRuntime] {s s' : Tables}

theorem publishAndSettle_conflicts {config : PublisherConfig} {claim : CandidateLease}
    {snapshot : EvaluationSnapshot} {decision : ReconciliationDecision} {operationId : OperationId}
    {now : Time} {pub : Published}
    (h : s.publishAndSettle config claim snapshot decision operationId now = .ok (s',pub)) :
    ConflictsStay s.conflicts s'.conflicts := by
  obtain ⟨r,hp,hr⟩ := map_ok h
  have hs' : s'.conflicts = r.1.conflicts := by
    split at hr
    · cases hr
      exact settle_conflicts ..
    · cases hr
      rfl
  rw [hs']
  unfold publishMutate at hp
  split at hp
  · cases hp
  · extract_lets candidate s₁ close at hp
    clear_value candidate
    split at hp
    · cases hp
      exact .refl _
    · dsimp only at hp
      split at hp
      · cases hp
        exact .refl _
      · split at hp
        · cases hp
          split <;> exact .refl _
        · split at hp
          · cases hp
            exact .refl _
          · split at hp
            · cases hp
              exact .refl _
            · obtain ⟨s₂,hadv,hp⟩ := bind_ok hp
              cases advanceCandidateState_eq hadv
              refine ConflictsStay.trans ?_ (Publication.decide_conflicts hp)
              exact .of_eq rfl

/-- The conflict an answered obligation is about. -/
def decidedConflictRow (s : Tables) (arguments : ResolveArguments) : Option (ℕ × ConflictRow) :=
  (s.obligations[arguments.obligationId]?).bind fun obligation =>
    obligation.subjectId.bind fun id => (s.conflicts[id]?).map fun c => (id,c)

/-- A decision that takes effect: the conflict was resolvable, its target active, and the presented
version the current one. -/
structure Decision (s s' : Tables) (arguments : ResolveArguments) (c : ℕ) (k k' : ConflictRow)
    (target : DurableMemoryRow) : Prop where
  subject : s.decidedConflictRow arguments = some (c,k)
  resolvable : k.resolvable = true
  active : s.memories[k.targetMemoryId]? = some target ∧ target.status = .active ∧
    target.content.isSome = true
  version : ∃ version, conflictReviewVersion c k target s.candidates[k.candidateId]? = .ok version ∧
    arguments.reviewVersion = some version
  change : RowTable.Changes s.conflicts s'.conflicts c k k'
  decided : k'.resolvable = false ∧ k'.candidateId = k.candidateId ∧
    k'.targetMemoryId = k.targetMemoryId

omit [PyRuntime] in
theorem resolved_not_resolvable (d : OwnerDecision) : ("resolved_" ++ d.value == "open" ||
    "resolved_" ++ d.value == "expired_unresolved") = false := by
  cases d <;> decide

omit [PyRuntime] in
theorem keepCurrent_conflicts (s : Tables) (obligationId conflictId : ℕ) (conflict : ConflictRow)
    (source : OwnerSource) (now : Time) :
    (s.keepCurrent obligationId conflictId conflict source now).conflicts =
      (s.setConflict conflictId fun c => {c with
        status := "resolved_keep_current"
        resolvedAt := some now}).conflicts := by
  unfold keepCurrent
  extract_lets s₁
  have hrejected : s₁.conflicts = _ := rejectConflicting_conflicts ..
  clear_value s₁
  exact hrejected

/-- An owner's answer to a conflict leaves the store as it is, or decides the conflict. -/
theorem resolveConflictMutate_decision {arguments : ResolveArguments} {changeType : String}
    {source : OwnerSource} {now : Time} {mutated : Bool} {r : Resolution}
    (h : s.resolveConflictMutate arguments changeType source now = .ok (s',mutated,r)) :
    mutated = false ∧ s' = s ∨
      mutated = true ∧ ∃ c k k' target, Decision s s' arguments c k k' target := by
  unfold resolveConflictMutate at h
  split at h
  · cases h
  · next obligation ho =>
    split at h
    · cases h
    · split at h
      · cases h
      · next conflictId conflict hsubject =>
        have hdecided : s.decidedConflictRow arguments = some (conflictId,conflict) := by
          rw [decidedConflictRow,ho]
          exact hsubject
        have hk : s.conflicts[conflictId]? = some conflict := by
          obtain ⟨id,_,hid⟩ := Option.bind_eq_some_iff.mp hsubject
          obtain ⟨k,hk,he⟩ := Option.map_eq_some_iff.mp hid
          cases he
          exact hk
        split at h
        · cases h
          exact Or.inl ⟨rfl,rfl⟩
        · next hr =>
          split at h
          · cases h
          · next target htarget =>
            obtain ⟨hm,hactive⟩ := Option.filter_eq_some_iff.mp htarget
            obtain ⟨version,hv,h⟩ := bind_ok h
            split at h
            · cases h
              exact Or.inl ⟨rfl,rfl⟩
            · next hpresented =>
              obtain ⟨_,_,h⟩ := bind_ok h
              have hwrap : ∀ k', RowTable.Changes s.conflicts s'.conflicts conflictId conflict k' →
                  k'.resolvable = false ∧ k'.candidateId = conflict.candidateId ∧
                    k'.targetMemoryId = conflict.targetMemoryId →
                  ∃ c k k' target, Decision s s' arguments c k k' target := fun k' hw hk' =>
                ⟨conflictId,conflict,k',target,hdecided,by simpa using hr,
                  ⟨hm,by simpa using hactive⟩,⟨version,hv,not_not.mp hpresented⟩,hw,hk'⟩
              split at h
              · cases h
                refine Or.inr ⟨rfl,hwrap {conflict with
                  status := "resolved_keep_current"
                  resolvedAt := some now} ?_ ⟨rfl,rfl,rfl⟩⟩
                rw [keepCurrent_conflicts]
                exact .modify hk _
              · obtain ⟨⟨s₁,q⟩,hq,h⟩ := bind_ok h
                cases h
                obtain ⟨replacement,_,hq⟩ := bind_ok hq
                obtain ⟨⟨s₂,queued⟩,hin,hq⟩ := bind_ok hq
                cases hq
                have hs₂ := queueExplicitContentCommandIn_conflicts hin
                refine Or.inr ⟨rfl,hwrap {conflict with
                  status := "resolved_" ++ arguments.decision.value
                  resolvedAt := some now} ?_ ⟨resolved_not_resolvable _,rfl,rfl⟩⟩
                rw [← hs₂] at hk ⊢
                refine (congrArg (RowTable.Changes s₂.conflicts · conflictId conflict _)
                  (rejectConflicting_conflicts ..)).mpr ?_
                exact .modify hk _

end Tables

end Memory
end Atlas
