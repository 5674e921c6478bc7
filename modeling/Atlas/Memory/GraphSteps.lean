import Atlas.Memory.Runs

/-! The operations that leave the memory graph alone: durable memories and their provenance are
written by the publisher and by owner lifecycle commands only. -/
namespace Atlas
namespace Memory

open RowTable

namespace Tables

/-- The memories and the edges between them and their sources. -/
def graph (s : Tables) : List DurableMemoryRow × List ProvenanceRow := (s.memories,s.provenance)

theorem graph_memories {s s' : Tables} (h : s'.graph = s.graph) : s'.memories = s.memories :=
  congrArg Prod.fst h

theorem graph_provenance {s s' : Tables} (h : s'.graph = s.graph) : s'.provenance = s.provenance :=
  congrArg Prod.snd h

/-- The evidence, the turns and the graph, which most operations only read. -/
def footing (s : Tables) : List EvidenceRow × List TurnRow × List DurableMemoryRow × List ProvenanceRow :=
  (s.evidence,s.turns,s.graph)

theorem footing_evidence {s s' : Tables} (h : s'.footing = s.footing) : s'.evidence = s.evidence :=
  congrArg Prod.fst h

theorem footing_turns {s s' : Tables} (h : s'.footing = s.footing) : s'.turns = s.turns :=
  congrArg (·.2.1) h

theorem footing_graph {s s' : Tables} (h : s'.footing = s.footing) : s'.graph = s.graph :=
  congrArg (·.2.2) h

@[simp] theorem settle_footing (s : Tables) (c : ℕ) (now : Time) (memoryId : Option ℕ)
    (code resolution : Option String) :
    (s.settleExplicitObligation c now memoryId code resolution).footing = s.footing := by
  obtain ⟨_,_,h⟩ := s.settle_eq c now memoryId code resolution
  rw [h]
  rfl

variable {s s' : Tables}

theorem getOrCreateActive_footing (s : Tables) (now : Time) :
    (s.getOrCreateActive now).1.footing = s.footing := by
  unfold getOrCreateActive
  split <;> rfl

theorem activateOwnerChat_footing {chatId id : ℕ} {now : Time}
    (h : s.activateOwnerChat chatId now = .ok (s',id)) : s'.footing = s.footing := by
  unfold activateOwnerChat at h
  split at h
  · cases h
  · split at h
    · cases h
      rfl
    · cases h
      rfl

theorem appendTurn_graph {transcriptId turnId : ℕ} {actor : Actor} {blocks : List Json} {now : Time}
    (h : s.appendTurn transcriptId actor blocks now = .ok (s',turnId)) : s'.graph = s.graph := by
  unfold appendTurn at h
  split at h
  · cases h
  · cases h
    rfl

theorem deleteOwnerChat_graph {chatId id : ℕ} {now : Time}
    (h : s.deleteOwnerChat chatId now = .ok (s',id)) : s'.graph = s.graph := by
  unfold deleteOwnerChat at h
  split at h
  · cases h
  · extract_lets s₁ at h
    split at h
    · rw [show s' = (s₁.getOrCreateActive now).1 from (congrArg Prod.fst (Except.ok.inj h)).symm,
        footing_graph (getOrCreateActive_footing ..)]
      rfl
    · split at h
      · cases h
        rfl
      · cases h
        rfl

section

variable [PyRuntime]

theorem enqueue_graph {candidate : MemoryCandidate} {source : IntakeSource} {c : ℕ}
    {created : Bool} (h : s.enqueue candidate source = .ok (s',c,created)) : s'.graph = s.graph := by
  obtain ⟨_,_,_,_,⟨_,rfl,_⟩ | ⟨_,_,_,_,_,rfl⟩⟩ := enqueue_cases h <;> rfl

theorem enqueueMany_graph (s : Tables) (proposals : List RawCandidate) (source : IntakeSource) :
    (s.enqueueMany proposals source).graph = s.graph := by
  refine Trace.foldl_invariant (I := fun t : Tables => t.graph = s.graph) _ ?_ rfl
  intro t raw _ ht
  split
  · next s' c created h =>
    obtain ⟨candidate,_,h⟩ := bind_ok h
    exact (enqueue_graph h).trans ht
  · exact ht

end

theorem expireAwaiting_footing (s : Tables) (now : Time) (c : ℕ) (decision : DecisionJson)
    (clear : CandidateRow → CandidateRow) :
    (s.expireAwaiting now c decision clear).footing = s.footing := by
  unfold expireAwaiting
  split
  · rfl
  · split
    · rfl
    · rw [settle_footing]
      rfl

theorem expireObligation_footing (now : Time) (s : Tables) (id : ℕ) :
    (expireObligation now s id).footing = s.footing := by
  unfold expireObligation
  split
  · rfl
  · dsimp only
    split
    · rw [expireAwaiting_footing]
      rfl
    · split
      · rfl
      · split
        · rfl
        · rw [expireAwaiting_footing]
          rfl
    · rfl

theorem claimRow_footing (config : LeaseConfig) (now : Time) (s : Tables) (c : ℕ) :
    (s.claimRow config now c).1.footing = s.footing := by
  unfold claimRow
  split
  · rfl
  · split
    · unfold leaseCandidate
      dsimp only
      split <;> rfl
    · rw [invalidateUnavailable,settle_footing]
      rfl

/-- A loop whose body leaves part of the tables alone. -/
theorem foldl_view {α β : Type*} (view : Tables → β) {f : Tables → α → Tables} (l : List α)
    (hf : ∀ t a, view (f t a) = view t) (s : Tables) : view (l.foldl f s) = view s :=
  Trace.foldl_invariant (I := fun t : Tables => view t = view s) l
    (fun t a _ ht => (hf t a).trans ht) rfl

theorem claimBatch_footing (s : Tables) (config : LeaseConfig) (limit : ℕ) (locks : RowLocks)
    (now : Time) : (s.claimBatch config limit locks now).1.footing = s.footing := by
  rw [claimBatch_fst,claimRows_fst,foldl_view footing _ fun t c => claimRow_footing config.clamped now t c,
    exhausted,expiredRetention,expiredObligations,expireDueObligations]
  rw [foldl_view footing _ fun t c => ?_,foldl_view footing _ fun t c => ?_,
    foldl_view footing _ fun t id => expireObligation_footing now t id]
  · rw [expireRetained,settle_footing]
    rfl
  · rw [failExhausted,settle_footing]
    rfl

theorem advancing_footing {claim : CandidateLease} {row : CandidateRow} {a : AttemptRow}
    {f : AttemptRow → AttemptRow} (h : s.advancing claim row a f = .ok s') : s'.footing = s.footing := by
  rw [advancing_eq h]
  rfl

section

variable {claim : CandidateLease} {now : Time}

theorem persistReading_footing {snapshot : EvaluationSnapshot} {reading : IndependentReading}
    {model : Option String} {id : ℕ}
    (h : s.persistReading claim snapshot reading model now = .ok (s',id)) : s'.footing = s.footing := by
  obtain ⟨⟨row,a⟩,_,h⟩ := bind_ok h
  dsimp only at h
  split at h
  · cases h
    rfl
  · obtain ⟨s₁,hs,h⟩ := bind_ok h
    cases h
    have hg := advancing_footing hs
    exact hg

theorem persistComparison_footing {readingId id : ℕ} {comparison : ComparisonVerdict}
    (h : s.persistComparison claim readingId comparison now = .ok (s',id)) : s'.footing = s.footing := by
  obtain ⟨⟨row,a⟩,_,h⟩ := bind_ok h
  dsimp only at h
  split at h
  · cases h
  · split at h
    · cases h
      rfl
    · obtain ⟨s₁,hs,h⟩ := bind_ok h
      cases h
      have hg := advancing_footing hs
      exact hg

theorem persistReconciliation_footing {comparisonId id : ℕ} {snapshot : EvaluationSnapshot}
    {relation : MemoryRelationDecision}
    (h : s.persistReconciliation claim comparisonId snapshot relation now = .ok (s',id)) :
    s'.footing = s.footing := by
  obtain ⟨⟨row,a⟩,_,h⟩ := bind_ok h
  dsimp only at h
  split at h
  · cases h
  · obtain ⟨s₁,hs,h⟩ := bind_ok h
    cases h
    have hg := advancing_footing hs
    exact hg

theorem persistPolicy_footing {recordId id : ℕ} {policy : String} {reason : Option String}
    (h : s.persistPolicy claim recordId policy reason now = .ok (s',id)) : s'.footing = s.footing := by
  obtain ⟨⟨row,a⟩,_,h⟩ := bind_ok h
  dsimp only at h
  split at h
  · cases h
    rfl
  · obtain ⟨s₁,hs,h⟩ := bind_ok h
    cases h
    have hg := advancing_footing hs
    exact hg

theorem finish_footing {status : CandidateStatus} {decision code : String} {semantic : Option String}
    {u : Unit} (h : s.finish claim status decision code semantic now = .ok (s',u)) :
    s'.footing = s.footing := by
  obtain ⟨⟨row,a⟩,_,h⟩ := bind_ok h
  dsimp only at h
  obtain ⟨s₁,hs,h⟩ := bind_ok h
  cases h
  rw [settle_footing]
  have hg := advancing_footing hs
  exact hg

theorem requeueAfterVersionConflict_footing (s : Tables) (claim : CandidateLease)
    (snapshot : EvaluationSnapshot) (now : Time) :
    (s.requeueAfterVersionConflict claim snapshot now).footing = s.footing := by
  unfold requeueAfterVersionConflict
  split
  · split <;> rfl
  · rfl

theorem settleIfFailed_footing (s : Tables) (c : ℕ) (row : CandidateRow) (now : Time)
    (code : Option String) : (s.settleIfFailed c row now code).footing = s.footing := by
  unfold settleIfFailed
  split
  · exact settle_footing ..
  · rfl

theorem releaseAfterConflict_footing (s : Tables) (maxAttempts : ℕ) (claim : CandidateLease)
    (code : String) (now : Time) :
    (s.releaseAfterConflict maxAttempts claim code now).footing = s.footing := by
  unfold releaseAfterConflict
  split
  · split
    · rfl
    · dsimp only
      rw [settleIfFailed_footing]
      rfl
  · rfl

theorem releaseFailed_footing (read s : Tables) (maxAttempts : ℕ) (claim : CandidateLease)
    (code : String) (now : Time) :
    (releaseFailed read s maxAttempts claim code now).footing = s.footing := by
  unfold releaseFailed
  split
  · split
    · rfl
    · dsimp only
      rw [settleIfFailed_footing]
      rfl
  · rfl

end

theorem resolveCommandObligation_footing {commandId : ℕ} {code : String} {resolution : ResolutionJson}
    {now : Time} (h : s.resolveCommandObligation commandId code resolution now = .ok s') :
    s'.footing = s.footing := by
  obtain ⟨id?,_,h⟩ := map_ok h
  split at h <;> (cases h; rfl)

theorem applyCommand_footing {commandId : ℕ} {target replacement : Option ℕ} {now : Time}
    (h : s.applyCommand commandId target replacement now = .ok s') : s'.footing = s.footing :=
  (resolveCommandObligation_footing h).trans rfl

theorem failCommand_footing {commandId : ℕ} {e : Failure} {now : Time}
    (h : s.failCommand commandId e now = .ok s') : s'.footing = s.footing :=
  (resolveCommandObligation_footing h).trans rfl

section

variable [PyRuntime]

omit [PyRuntime] in
theorem purgeCandidate_footing (operationId : OperationId) (now : Time) (scrub : Bool) (s : Tables)
    (p : ℕ × CandidateRow) : (purgeCandidate operationId now scrub s p).footing = s.footing := by
  unfold purgeCandidate
  dsimp only
  split
  · exact (settle_footing ..).trans rfl
  · exact (settle_footing ..).trans rfl

theorem redactEvidenceTurn_graph (operationId : OperationId) (now : Time)
    (content redactContent : Option String) (s : Tables) (row : CandidateRow) :
    (redactEvidenceTurn operationId now content redactContent s row).graph = s.graph := by
  unfold redactEvidenceTurn
  split
  · rfl
  · split
    · rfl
    · dsimp only
      split <;> rfl

theorem invalidateCandidates_graph (loaded : Tables → Tables) (s : Tables) (operationId : OperationId)
    (turnIds candidateIds : List ℕ) (content redactContent : Option String) (scrub : Bool)
    (now : Time) : (s.invalidateCandidates loaded operationId turnIds candidateIds content
      redactContent scrub now).1.graph = s.graph := by
  unfold invalidateCandidates
  extract_lets read selected redacted evidenceTurns purged
  have hred : redacted.graph = s.graph := by
    dsimp only [redacted]
    split
    · exact foldl_view graph _ (fun t row => redactEvidenceTurn_graph operationId now content
        redactContent t row) s
    · rfl
  have hpurged : purged.graph = redacted.graph :=
    foldl_view graph _ (fun t p =>
      footing_graph (purgeCandidate_footing operationId now scrub t p)) redacted
  dsimp only
  split
  · exact hpurged.trans hred
  · exact hpurged.trans hred

theorem deletionSources_graph {operationId : OperationId} {scope : String} {target : Option ℕ}
    {selected : Option String} {now : Time} {d : DeletionSources}
    (h : s.deletionSources operationId scope target selected now = .ok (s',d)) :
    s'.graph = s.graph := by
  obtain ⟨⟨affected,preserved⟩,_,h⟩ := bind_ok h
  obtain ⟨⟨s₁,redacted⟩,hr,h⟩ := bind_ok h
  cases h
  unfold redactSources at hr
  split at hr
  · cases hr
    rfl
  · split at hr
    · cases hr
      rfl
    · extract_lets r at hr
      split at hr
      · cases hr
      · rw [show s' = r.1 from (congrArg Prod.fst (Except.ok.inj hr)).symm]
        rfl

omit [PyRuntime] in
theorem invalidateTranscriptDerivatives_footing (s : Tables) (turnIds : List ℕ) (now : Time) :
    (s.invalidateTranscriptDerivatives turnIds now).footing = s.footing := by
  unfold invalidateTranscriptDerivatives
  split
  · rfl
  · extract_lets rows transcripts
    change Tables.footing (List.foldl _ s transcripts) = s.footing
    refine foldl_view footing _ (fun t id => ?_) s
    split <;> rfl

omit [PyRuntime] in
theorem appendOwnerAssertionTurn_graph {content : String} {now : Time} {transcriptId turnId : ℕ}
    (h : s.appendOwnerAssertionTurn content now = .ok (s',transcriptId,turnId)) :
    s'.graph = s.graph := by
  obtain ⟨⟨s₁,id⟩,ha,h⟩ := bind_ok h
  cases h
  exact (appendTurn_graph ha).trans rfl

end

theorem rejectConflicting_footing (s : Tables) (c : ℕ) (decision : DecisionJson) (code : String)
    (resolution : Option String) (now : Time) :
    (s.rejectConflicting c decision code resolution now).footing = s.footing := by
  unfold rejectConflicting
  split
  · rfl
  · split
    · rfl
    · exact (settle_footing ..).trans rfl

section

variable [PyRuntime]

theorem resolveCandidate_graph {arguments : ResolveArguments} {obligation : ObligationRow}
    {source : OwnerSource} {now : Time} {r : Resolution}
    (h : s.resolveCandidate arguments obligation source now = .ok (s',r)) : s'.graph = s.graph := by
  unfold resolveCandidate at h
  split at h
  · cases h
  · split at h
    · cases h
    · obtain ⟨text,_,h⟩ := bind_ok h
      dsimp only at h
      split at h
      · cases h
        rfl
      · split at h
        · cases h
          exact (footing_graph (settle_footing ..)).trans rfl
        · split at h
          · obtain ⟨s₁,hc,h⟩ := bind_ok h
            cases h
            obtain ⟨asserted,_,hc⟩ := bind_ok hc
            obtain ⟨⟨s₂,transcriptId,turnId⟩,ha,hc⟩ := bind_ok hc
            cases hc
            exact (appendOwnerAssertionTurn_graph ha : s₂.graph = s.graph)
          · cases h
            exact (footing_graph (settle_footing ..)).trans rfl

theorem retryExplicitObligation_graph {arguments : ResolveArguments} {obligation : ObligationRow}
    {source : OwnerSource} {now : Time} {r : Resolution}
    (h : s.retryExplicitObligation arguments obligation source now = .ok (s',r)) :
    s'.graph = s.graph := by
  unfold retryExplicitObligation at h
  split at h
  · cases h
  · split at h
    · cases h
    · split at h
      · cases h
      · split at h
        · cases h
          rfl
        · split at h
          · cases h
            rfl
          · obtain ⟨text,_,h⟩ := bind_ok h
            dsimp only at h
            split at h
            · cases h
              rfl
            · split at h
              · cases h
                exact (footing_graph (settle_footing ..)).trans rfl
              · cases h
                rfl

theorem resolveObligationIn_graph {arguments : ResolveArguments} {source : OwnerSource} {now : Time}
    {r : Resolution} (h : s.resolveObligationIn arguments source now = .ok (s',r)) :
    s'.graph = s.graph := by
  unfold resolveObligationIn at h
  split at h
  · cases h
  · split at h
    · cases h
      rfl
    · split at h
      · exact retryExplicitObligation_graph h
      · split at h
        · cases h
        · exact resolveCandidate_graph h

end

end Tables

end Memory
end Atlas
