import Atlas.Memory.ConflictRows

/-! The transcripts of the store with their turns, chunks and cursors. Chats, purges and the owner's
confirmations write them, and every other function leaves them as they are. -/
namespace Atlas
namespace Memory

open RowTable

namespace Tables

/-- The tables about what was said, and how far it was indexed and searched for memories. -/
def chronicle (s : Tables) := (s.transcripts,s.turns,s.chunks,s.indexStates,s.discoveries)

variable {s s' : Tables}

theorem settle_chronicle (s : Tables) (d : ℕ) (now : Time) (memoryId : Option ℕ)
    (code resolution : Option String) :
    (s.settleExplicitObligation d now memoryId code resolution).chronicle = s.chronicle := by
  obtain ⟨_,_,h⟩ := s.settle_eq d now memoryId code resolution
  rw [h]
  rfl

theorem expireAwaiting_chronicle (s : Tables) (now : Time) (d : ℕ) (decision : DecisionJson)
    (clear : CandidateRow → CandidateRow) :
    (s.expireAwaiting now d decision clear).chronicle = s.chronicle := by
  unfold expireAwaiting
  split
  · rfl
  · split
    · rfl
    · exact settle_chronicle ..

theorem expireObligation_chronicle (now : Time) (s : Tables) (id : ℕ) :
    (expireObligation now s id).chronicle = s.chronicle := by
  unfold expireObligation
  split
  · rfl
  · dsimp only
    split
    · exact expireAwaiting_chronicle ..
    · split
      · rfl
      · split
        · rfl
        · exact expireAwaiting_chronicle ..
    · rfl

theorem claimRow_chronicle (config : LeaseConfig) (now : Time) (s : Tables) (d : ℕ) :
    (s.claimRow config now d).1.chronicle = s.chronicle := by
  unfold claimRow
  split
  · rfl
  · split
    · unfold leaseCandidate
      extract_lets s₁ number token attempt s₂
      have h₁ : s₁.chronicle = s.chronicle := by
        dsimp only [s₁]
        split <;> rfl
      exact h₁
    · exact settle_chronicle ..

theorem claimBatch_chronicle (s : Tables) (config : LeaseConfig) (limit : ℕ) (locks : RowLocks)
    (now : Time) : (s.claimBatch config limit locks now).1.chronicle = s.chronicle := by
  have hkeep : ∀ (f : Tables → ℕ → Tables) (_ : ∀ t a, (f t a).chronicle = t.chronicle)
      (as : List ℕ) (t : Tables), (as.foldl f t).chronicle = t.chronicle := fun f hf as t =>
    Trace.foldl_invariant (I := fun u : Tables => u.chronicle = t.chronicle) _
      (fun u a _ hu => (hf u a).trans hu) rfl
  have h₁ : (s.expiredObligations locks now).chronicle = s.chronicle :=
    hkeep _ (fun t id => expireObligation_chronicle now t id) _ s
  have h₂ : (s.expiredRetention locks now).chronicle = s.chronicle :=
    (hkeep (expireRetained now) (fun t d => settle_chronicle ..) _ _).trans h₁
  have h₃ : (s.exhausted config locks now).chronicle = s.chronicle :=
    (hkeep (failExhausted now) (fun t d => settle_chronicle ..) _ _).trans h₂
  rw [claimBatch_fst,claimRows_fst]
  exact (hkeep _ (fun t d => claimRow_chronicle config.clamped now t d) _ _).trans h₃

section

variable {claim : CandidateLease}

theorem advancing_chronicle {row : CandidateRow} {a : AttemptRow} {f : AttemptRow → AttemptRow}
    (h : s.advancing claim row a f = .ok s') : s'.chronicle = s.chronicle := by
  cases advancing_eq h
  rfl

theorem finish_chronicle {status : CandidateStatus} {decision code : String}
    {semantic : Option String} {now : Time} {u : Unit}
    (h : s.finish claim status decision code semantic now = .ok (s',u)) :
    s'.chronicle = s.chronicle := by
  obtain ⟨⟨row,a⟩,_,h⟩ := bind_ok h
  dsimp only at h
  obtain ⟨s₁,hs,h⟩ := bind_ok h
  have hadv := advancing_chronicle hs
  cases h
  exact (settle_chronicle ..).trans hadv

theorem persistReading_chronicle {snapshot : EvaluationSnapshot} {reading : IndependentReading}
    {model : Option String} {now : Time} {id : ℕ}
    (h : s.persistReading claim snapshot reading model now = .ok (s',id)) :
    s'.chronicle = s.chronicle := by
  obtain ⟨⟨row,a⟩,_,h⟩ := bind_ok h
  dsimp only at h
  split at h
  · cases h
    rfl
  · obtain ⟨s₁,hs,h⟩ := bind_ok h
    have hadv := advancing_chronicle hs
    cases h
    exact hadv

theorem persistComparison_chronicle {readingId : ℕ} {comparison : ComparisonVerdict} {now : Time}
    {id : ℕ} (h : s.persistComparison claim readingId comparison now = .ok (s',id)) :
    s'.chronicle = s.chronicle := by
  obtain ⟨⟨row,a⟩,_,h⟩ := bind_ok h
  dsimp only at h
  split at h
  · cases h
  · split at h
    · cases h
      rfl
    · obtain ⟨s₁,hs,h⟩ := bind_ok h
      have hadv := advancing_chronicle hs
      cases h
      exact hadv

theorem persistReconciliation_chronicle {comparisonId : ℕ} {snapshot : EvaluationSnapshot}
    {relation : MemoryRelationDecision} {now : Time} {id : ℕ}
    (h : s.persistReconciliation claim comparisonId snapshot relation now = .ok (s',id)) :
    s'.chronicle = s.chronicle := by
  obtain ⟨⟨row,a⟩,_,h⟩ := bind_ok h
  dsimp only at h
  split at h
  · cases h
  · obtain ⟨s₁,hs,h⟩ := bind_ok h
    have hadv := advancing_chronicle hs
    cases h
    exact hadv

theorem persistPolicy_chronicle {recordId : ℕ} {policy : String} {reason : Option String}
    {now : Time} {id : ℕ} (h : s.persistPolicy claim recordId policy reason now = .ok (s',id)) :
    s'.chronicle = s.chronicle := by
  obtain ⟨⟨row,a⟩,_,h⟩ := bind_ok h
  dsimp only at h
  split at h
  · cases h
    rfl
  · obtain ⟨s₁,hs,h⟩ := bind_ok h
    have hadv := advancing_chronicle hs
    cases h
    exact hadv

theorem requeueAfterVersionConflict_chronicle (s : Tables) (claim : CandidateLease)
    (snapshot : EvaluationSnapshot) (now : Time) :
    (s.requeueAfterVersionConflict claim snapshot now).chronicle = s.chronicle := by
  unfold requeueAfterVersionConflict
  split
  · split <;> rfl
  · rfl

theorem settleIfFailed_chronicle (s : Tables) (d : ℕ) (row : CandidateRow) (now : Time)
    (code : Option String) : (s.settleIfFailed d row now code).chronicle = s.chronicle := by
  unfold settleIfFailed
  split
  · exact settle_chronicle ..
  · rfl

theorem releaseAfterConflict_chronicle (s : Tables) (maxAttempts : ℕ) (claim : CandidateLease)
    (code : String) (now : Time) :
    (s.releaseAfterConflict maxAttempts claim code now).chronicle = s.chronicle := by
  unfold releaseAfterConflict
  split
  · split
    · rfl
    · exact settleIfFailed_chronicle ..
  · rfl

theorem releaseFailed_chronicle (read s : Tables) (maxAttempts : ℕ) (claim : CandidateLease)
    (code : String) (now : Time) :
    (releaseFailed read s maxAttempts claim code now).chronicle = s.chronicle := by
  unfold releaseFailed
  split
  · split
    · rfl
    · exact settleIfFailed_chronicle ..
  · rfl

end

theorem resolveCommandObligation_chronicle {commandId : ℕ} {code : String}
    {resolution : ResolutionJson} {now : Time}
    (h : s.resolveCommandObligation commandId code resolution now = .ok s') :
    s'.chronicle = s.chronicle := by
  obtain ⟨id?,_,h⟩ := map_ok h
  split at h <;> (cases h; rfl)

theorem applyCommand_chronicle {commandId : ℕ} {target replacement : Option ℕ} {now : Time}
    (h : s.applyCommand commandId target replacement now = .ok s') : s'.chronicle = s.chronicle :=
  (resolveCommandObligation_chronicle h).trans rfl

theorem failCommand_chronicle {commandId : ℕ} {e : Failure} {now : Time}
    (h : s.failCommand commandId e now = .ok s') : s'.chronicle = s.chronicle :=
  (resolveCommandObligation_chronicle h).trans rfl

theorem restoreMutate_chronicle {memoryId : ℕ} {now : Time} {commandId : ℕ} {applied : Applied}
    (h : s.restoreMutate memoryId now commandId = .ok (s',applied)) : s'.chronicle = s.chronicle := by
  unfold restoreMutate at h
  split at h
  · cases h
  · split at h
    · cases h
    · split at h
      · obtain ⟨s₁,ha,h⟩ := bind_ok h
        cases h
        exact applyCommand_chronicle ha
      · split at h
        · cases h
        · split at h
          · cases h
          · split at h
            · cases h
            · obtain ⟨s₁,ha,h⟩ := bind_ok h
              cases h
              exact (applyCommand_chronicle ha).trans rfl

theorem purgeCandidate_chronicle (operationId : OperationId) (now : Time) (scrub : Bool) (s : Tables)
    (p : ℕ × CandidateRow) : (purgeCandidate operationId now scrub s p).chronicle = s.chronicle := by
  unfold purgeCandidate
  dsimp only
  split <;> exact settle_chronicle ..

theorem rejectConflicting_chronicle (s : Tables) (d : ℕ) (decision : DecisionJson) (code : String)
    (resolution : Option String) (now : Time) :
    (s.rejectConflicting d decision code resolution now).chronicle = s.chronicle := by
  unfold rejectConflicting
  split
  · rfl
  · split
    · rfl
    · exact settle_chronicle ..

theorem tombstoneCandidateDerivatives_chronicle (s : Tables) (operationId : OperationId)
    (candidateIds : List ℕ) (now : Time) :
    (s.tombstoneCandidateDerivatives operationId candidateIds now).chronicle = s.chronicle := rfl

theorem recordExplicitIntakeFailure_chronicle (s : Tables) (operation : String)
    (source : OwnerSource) (reason : String) (now : Time) :
    (s.recordExplicitIntakeFailure operation source reason now).1.chronicle = s.chronicle := rfl

theorem beginCommand_chronicle (s : Tables) (operation : String) (arguments : Dict)
    (source : OwnerSource) : (s.beginCommand operation arguments source).1.chronicle = s.chronicle :=
  rfl

theorem addCandidateLineage_chronicle (s : Tables) (memoryId d : ℕ) :
    (s.addCandidateLineage memoryId d).1.chronicle = s.chronicle := by
  unfold addCandidateLineage
  dsimp only
  split <;> rfl

theorem createActive_chronicle [PyRuntime] (s : Tables) (content : String) (row : DurableMemoryRow) :
    (s.createActive content row).1.chronicle = s.chronicle := by
  unfold createActive
  dsimp only
  split <;> rfl

variable [PyRuntime]

theorem createGuard_chronicle {content : String} {status : MemoryStatus} {recordKind : String}
    {source : OwnerSource} {now : Time} {r : ℕ × Bool}
    (h : s.createGuard content status recordKind source now = .ok (s',r)) :
    s'.chronicle = s.chronicle := by
  unfold createGuard at h
  extract_lets fingerprint guardRow at h
  split at h
  · cases h
  · split at h
    · cases h
      rfl
    · cases h
      rfl

theorem correctionGuardRow_chronicle {e : ExplicitCommand} {source : OwnerSource} {now : Time}
    {target : Option ℕ} (h : s.correctionGuardRow e source now = .ok (s',target)) :
    s'.chronicle = s.chronicle := by
  unfold correctionGuardRow at h
  split at h
  · cases h
    rfl
  · split at h
    · cases h
      rfl
    · obtain ⟨⟨s₁,r⟩,hg,h⟩ := map_ok h
      cases h
      exact createGuard_chronicle hg

theorem enqueue_chronicle {candidate : MemoryCandidate} {source : IntakeSource} {d : ℕ}
    {created : Bool} (h : s.enqueue candidate source = .ok (s',d,created)) :
    s'.chronicle = s.chronicle := by
  obtain ⟨refs,_,_,_,⟨_,rfl,_⟩ | ⟨_,_,_,_,_,rfl⟩⟩ := enqueue_cases h <;> rfl

theorem enqueueMany_chronicle (s : Tables) (proposals : List RawCandidate) (source : IntakeSource) :
    (s.enqueueMany proposals source).chronicle = s.chronicle := by
  refine Trace.foldl_invariant (I := fun t : Tables => t.chronicle = s.chronicle) _ ?_ rfl
  intro t raw _ ht
  split
  · next s' d created h =>
    cases hv : raw.validate with
    | error e => simp [hv,Except.bind] at h
    | ok candidate => exact (enqueue_chronicle (by simpa [hv,Except.bind] using h)).trans ht
  · exact ht

theorem queueExplicitContentCommandIn_chronicle {e : ExplicitCommand} {source : OwnerSource}
    {now : Time} {q : Queued} (h : s.queueExplicitContentCommandIn e source now = .ok (s',q)) :
    s'.chronicle = s.chronicle := by
  obtain ⟨transcriptId,turnId,candidate,s₁,created,target,rfl,hv,he,s₂,hg,_,_,rfl⟩ :=
    queueExplicitContentCommandIn_cases h
  exact (correctionGuardRow_chronicle hg).trans (enqueue_chronicle he)

theorem retireRow_chronicle {target : RetireTarget} {source : OwnerSource} {now : Time} {r : ℕ × String}
    (h : s.retireRow target source now = .ok (s',r)) : s'.chronicle = s.chronicle := by
  unfold retireRow at h
  split at h
  · cases h
    rfl
  · cases h
    rfl
  · obtain ⟨⟨s₁,r₁⟩,hg,h⟩ := map_ok h
    cases h
    exact createGuard_chronicle hg

end Tables

namespace Publication

variable {p : Publication} {s : Tables}

theorem complete_chronicle (p : Publication) (s : Tables) (decision result : String)
    (target : Option ℕ) : (p.complete s decision result target).chronicle = s.chronicle := rfl

theorem equivalent_chronicle (p : Publication) (s : Tables) :
    (p.equivalent s).1.chronicle = s.chronicle := by
  unfold equivalent
  split
  · rfl
  · split
    · rfl
    · refine (complete_chronicle ..).trans ?_
      split
      · exact s.addCandidateLineage_chronicle _ _
      · exact s.addCandidateLineage_chronicle _ _

variable [PyRuntime]

theorem historicalPredecessor_chronicle (p : Publication) (s : Tables) (content : String)
    (restriction : Option (ℕ × DurableMemoryRow)) :
    (p.historicalPredecessor s content restriction).1.chronicle = s.chronicle := by
  unfold historicalPredecessor
  split
  · rfl
  · split
    · rfl
    · split
      · rfl
      · split
        · split
          · rfl
          · exact (complete_chronicle ..).trans (s.addCandidateLineage_chronicle _ _)
        · exact (complete_chronicle ..).trans
            (Tables.addCandidateLineage_chronicle {s with memories := _} _ _)

theorem create_chronicle (p : Publication) (s : Tables) (content : String) :
    (p.create s content).1.chronicle = s.chronicle := by
  unfold create
  split
  · rfl
  · extract_lets target guardId row
    split
    · rfl
    · have hkept := s.createActive_chronicle content {row with
        supersedesId := guardId
        validFrom := if p.corrects then none else row.validFrom}
      revert hkept
      generalize s.createActive content _ = r
      obtain ⟨s',memoryId,created⟩ := r
      intro hkept
      dsimp only
      split
      · rfl
      · refine (complete_chronicle ..).trans ?_
        clear_value guardId
        cases guardId with
        | none => exact (s'.addCandidateLineage_chronicle _ _).trans hkept
        | some id => exact (s'.addCandidateLineage_chronicle _ _).trans hkept

theorem replace_chronicle (p : Publication) (s : Tables) (content : String) :
    (p.replace s content).1.chronicle = s.chronicle := by
  unfold replace
  split
  · rfl
  · next targetId target _ =>
    extract_lets explicitTarget row
    split
    · rfl
    · split
      · rfl
      · split
        · split <;> rfl
        · have hkept := s.createActive_chronicle content {row with
            supersedesId := some targetId
            validFrom := if p.corrects then none else row.validFrom}
          revert hkept
          generalize s.createActive content _ = r
          obtain ⟨s',replacementId,created⟩ := r
          intro hkept
          dsimp only
          split
          · rfl
          · exact (complete_chronicle ..).trans
              ((Tables.addCandidateLineage_chronicle (s'.setMemory targetId _) _ _).trans hkept)

omit [PyRuntime] in
theorem conflict_chronicle {r : Tables × Published} (h : p.conflict s = .ok r) :
    r.1.chronicle = s.chronicle := by
  unfold conflict at h
  split at h
  · cases h
    rfl
  · split at h
    · cases h
      rfl
    · split at h
      · cases h
      · obtain ⟨content,_,h⟩ := bind_ok h
        extract_lets conflictId obligationId conflict obligation s₁ at h
        cases h
        rfl

theorem groundLegacy_chronicle {content : String} {r : Tables × Published}
    (h : p.groundLegacy s content = .ok r) : r.1.chronicle = s.chronicle := by
  unfold groundLegacy at h
  split at h
  · cases h
    rfl
  · split at h
    · cases h
      rfl
    · split at h
      · cases h
        rfl
      · obtain ⟨review,_,h⟩ := bind_ok h
        cases h
        have hl := fun t : Tables => t.addCandidateLineage_chronicle
        refine (complete_chronicle ..).trans ?_
        split
        · exact hl (s.setMemory _ _) _ _
        · change (Tables.addCandidateLineage _ _ _).1.chronicle = _
          exact hl (s.setMemory _ _) _ _

theorem write_chronicle {r : Tables × Published} (h : p.write s = .ok r) :
    r.1.chronicle = s.chronicle := by
  obtain ⟨content,_,h⟩ := bind_ok h
  dsimp only at h
  split at h
  · cases h
    rfl
  · split at h
    · exact groundLegacy_chronicle h
    · cases h
      exact (p.historicalPredecessor_chronicle s content _)
    · cases h
      exact (p.create_chronicle s content)
    · cases h
      exact (p.replace_chronicle s content)
    · cases h
      exact (p.replace_chronicle s content)
    · cases h
      rfl

theorem decide_chronicle {config : PublisherConfig} {r : Tables × Published}
    (h : p.decide config s = .ok r) : r.1.chronicle = s.chronicle := by
  unfold decide at h
  extract_lets sourceStale durable at h
  split at h
  · cases h
    rfl
  · split at h
    · cases h
      rfl
    · split at h
      · cases h
        rfl
      · split at h
        · cases h
          rfl
        · split at h
          · cases h
            rfl
          · split at h
            · cases h
              rfl
            · split at h
              · cases h
                rfl
              · exact conflict_chronicle h
              · cases h
                exact p.equivalent_chronicle s
              · exact write_chronicle h

end Publication

namespace Tables

variable [PyRuntime] {s s' : Tables}

theorem publishAndSettle_chronicle {config : PublisherConfig} {claim : CandidateLease}
    {snapshot : EvaluationSnapshot} {decision : ReconciliationDecision} {operationId : OperationId}
    {now : Time} {pub : Published}
    (h : s.publishAndSettle config claim snapshot decision operationId now = .ok (s',pub)) :
    s'.chronicle = s.chronicle := by
  obtain ⟨r,hp,hr⟩ := map_ok h
  have hs' : s'.chronicle = r.1.chronicle := by
    split at hr
    · cases hr
      exact settle_chronicle ..
    · cases hr
      rfl
  rw [hs']
  unfold publishMutate at hp
  split at hp
  · cases hp
  · extract_lets candidate s₁ close at hp
    clear_value candidate
    split at hp
    · cases hp
      rfl
    · dsimp only at hp
      split at hp
      · cases hp
        rfl
      · split at hp
        · cases hp
          split <;> rfl
        · split at hp
          · cases hp
            rfl
          · split at hp
            · cases hp
              rfl
            · obtain ⟨s₂,hadv,hp⟩ := bind_ok hp
              cases advanceCandidateState_eq hadv
              exact (Publication.decide_chronicle hp).trans rfl

end Tables

end Memory
end Atlas
