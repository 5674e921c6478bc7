import Atlas.Memory.DerivativeSteps

/-! Publications, intake, owner commands and decisions add nothing to the derivatives of a
candidate that no worker holds and no intake can meet. -/
namespace Atlas
namespace Memory

open RowTable

namespace Tables

variable {c : ℕ} {s s' : Tables}

/-- An invalidated candidate without content. -/
def Resting (s : Tables) (c : ℕ) : Prop :=
  ∃ row, s.candidates[c]? = some row ∧ row.status = .invalidated ∧ row.content = none

theorem Resting.ne_of_status (hc : s.Resting c) {d : ℕ} {row : CandidateRow}
    (hrow : s.candidates[d]? = some row) (hs : row.status ≠ .invalidated) : d ≠ c := by
  obtain ⟨rest,hrest,hi,_⟩ := hc
  rintro rfl
  cases Option.some.inj (hrow.symm.trans hrest)
  exact hs hi

theorem addCandidateLineage_docket (s : Tables) (memoryId d : ℕ) :
    (s.addCandidateLineage memoryId d).1.docket = s.docket := by
  unfold addCandidateLineage
  dsimp only
  split <;> rfl

theorem createActive_docket [PyRuntime] (s : Tables) (content : String) (row : DurableMemoryRow) :
    (s.createActive content row).1.docket = s.docket := by
  unfold createActive
  dsimp only
  split <;> rfl

end Tables

namespace Publication

variable {p : Publication} {c : ℕ} {s : Tables}

theorem awaitOwner_dormant (hne : p.candidateId ≠ c) (s : Tables) :
    Dormant c s (p.awaitOwner s).1 := by
  refine .addObligation rfl rfl ?_
  rintro (⟨_,h⟩ | ⟨h,_⟩)
  · exact hne (Option.some.inj h)
  · cases h

/-- A conflict is added about the candidate that is published. -/
theorem conflict_dormant [PyRuntime] (hne : p.candidateId ≠ c) {r : Tables × Published}
    (h : p.conflict s = .ok r) : Dormant c s r.1 := by
  unfold conflict at h
  split at h
  · cases h
    exact .of_eq rfl
  · split at h
    · cases h
      exact .of_eq rfl
    · split at h
      · cases h
      · obtain ⟨content,_,h⟩ := bind_ok h
        extract_lets conflictId obligationId conflict obligation s₁ at h
        cases h
        refine @Dormant.trans _ s {s with conflicts := s.conflicts ++ [conflict]} _
          ⟨fun r hr _ => Or.inl hr,fun r hr _ => Or.inl hr,fun r hr _ => Or.inl hr,
            fun i k hk hck => ?_,fun o ho ha hp => ⟨o,ho,ha.imp_right ?_,hp⟩⟩
          (.addObligation rfl rfl ?_)
        · rw [getElem?_insert] at hk
          split at hk
          · cases hk
            exact absurd hck hne
          · exact ⟨k,hk,hck,Or.inl rfl⟩
        · rintro ⟨ht,i,hi,k,hk,hck⟩
          rw [getElem?_insert] at hk
          split at hk
          · cases hk
            exact absurd hck hne
          · exact ⟨ht,i,hi,k,hk,hck⟩
        · rintro (⟨h,_⟩ | ⟨_,i,hi,k,hk,hck⟩)
          · cases h
          · cases hi
            cases Option.some.inj (List.getElem?_concat_length.symm.trans hk)
            exact hne hck

theorem complete_docket (p : Publication) (s : Tables) (decision result : String)
    (target : Option ℕ) : (p.complete s decision result target).docket = s.docket := rfl

theorem equivalent_docket (p : Publication) (s : Tables) :
    (p.equivalent s).1.docket = s.docket := by
  unfold equivalent
  split
  · rfl
  · split
    · rfl
    · refine (complete_docket ..).trans ?_
      split
      · exact s.addCandidateLineage_docket _ _
      · exact s.addCandidateLineage_docket _ _

variable [PyRuntime]

theorem groundLegacy_dormant {content : String} {r : Tables × Published}
    (h : p.groundLegacy s content = .ok r) : Dormant c s r.1 := by
  unfold groundLegacy at h
  split at h
  · cases h
    exact .of_eq rfl
  · split at h
    · cases h
      exact .of_eq rfl
    · split at h
      · cases h
        exact .of_eq rfl
      · obtain ⟨review,_,h⟩ := bind_ok h
        cases h
        have hl := fun t : Tables => t.addCandidateLineage_docket
        refine Dormant.trans ?_ (.of_eq (complete_docket ..))
        split
        · exact .of_eq (hl (s.setMemory _ _) _ _)
        · refine Dormant.trans (.of_eq ?_) (.setObligation _ _ _ fun o => by exact ⟨⟨rfl,rfl⟩,nofun⟩)
          exact hl (s.setMemory _ _) _ _

theorem historicalPredecessor_docket (p : Publication) (s : Tables) (content : String)
    (restriction : Option (ℕ × DurableMemoryRow)) :
    (p.historicalPredecessor s content restriction).1.docket = s.docket := by
  unfold historicalPredecessor
  split
  · rfl
  · split
    · rfl
    · split
      · rfl
      · split
        · split
          · rfl
          · exact (complete_docket ..).trans (s.addCandidateLineage_docket _ _)
        · exact (complete_docket ..).trans
            (Tables.addCandidateLineage_docket {s with memories := _} _ _)

theorem create_docket (p : Publication) (s : Tables) (content : String) :
    (p.create s content).1.docket = s.docket := by
  unfold create
  split
  · rfl
  · extract_lets target guardId row
    split
    · rfl
    · have hdocket := s.createActive_docket content {row with
        supersedesId := guardId
        validFrom := if p.corrects then none else row.validFrom}
      revert hdocket
      generalize s.createActive content _ = r
      obtain ⟨s',memoryId,created⟩ := r
      intro hdocket
      dsimp only
      split
      · rfl
      · refine (complete_docket ..).trans ?_
        clear_value guardId
        cases guardId with
        | none => exact (s'.addCandidateLineage_docket _ _).trans hdocket
        | some id => exact (s'.addCandidateLineage_docket _ _).trans hdocket

theorem replace_docket (p : Publication) (s : Tables) (content : String) :
    (p.replace s content).1.docket = s.docket := by
  unfold replace
  split
  · rfl
  · next targetId target _ =>
    extract_lets explicitTarget row
    split
    · rfl
    · split
      · rfl
      · split
        · split <;> rfl
        · have hdocket := s.createActive_docket content {row with
            supersedesId := some targetId
            validFrom := if p.corrects then none else row.validFrom}
          revert hdocket
          generalize s.createActive content _ = r
          obtain ⟨s',replacementId,created⟩ := r
          intro hdocket
          dsimp only
          split
          · rfl
          · exact (complete_docket ..).trans
              ((Tables.addCandidateLineage_docket (s'.setMemory targetId _) _ _).trans hdocket)

theorem write_dormant {r : Tables × Published} (h : p.write s = .ok r) : Dormant c s r.1 := by
  obtain ⟨content,_,h⟩ := bind_ok h
  dsimp only at h
  split at h
  · cases h
    exact .of_eq rfl
  · split at h
    · exact groundLegacy_dormant h
    · cases h
      exact .of_eq (p.historicalPredecessor_docket s content _)
    · cases h
      exact .of_eq (p.create_docket s content)
    · cases h
      exact .of_eq (p.replace_docket s content)
    · cases h
      exact .of_eq (p.replace_docket s content)
    · cases h
      exact .of_eq rfl

theorem decide_dormant (hne : p.candidateId ≠ c) {config : PublisherConfig} {r : Tables × Published}
    (h : p.decide config s = .ok r) : Dormant c s r.1 := by
  unfold decide at h
  extract_lets sourceStale durable at h
  split at h
  · cases h
    exact .of_eq rfl
  · split at h
    · cases h
      exact .of_eq rfl
    · split at h
      · cases h
        exact .of_eq rfl
      · split at h
        · cases h
          exact .of_eq rfl
        · split at h
          · cases h
            exact .of_eq rfl
          · split at h
            · cases h
              exact .of_eq rfl
            · split at h
              · cases h
                exact awaitOwner_dormant hne s
              · exact conflict_dormant hne h
              · cases h
                exact .of_eq (p.equivalent_docket s)
              · exact write_dormant h

end Publication

namespace Tables

variable {c : ℕ} {s s' : Tables} {claim : CandidateLease}

/-- A publication of another candidate. -/
theorem publishAndSettle_dormant [PyRuntime] {config : PublisherConfig} {snapshot : EvaluationSnapshot}
    {decision : ReconciliationDecision} {operationId : OperationId} {now : Time} {pub : Published}
    (hne : claim.candidateId ≠ c)
    (h : s.publishAndSettle config claim snapshot decision operationId now = .ok (s',pub)) :
    Dormant c s s' := by
  obtain ⟨r,hp,hr⟩ := map_ok h
  have hs' : Dormant c r.1 s' := by
    split at hr
    · cases hr
      exact settle_dormant ..
    · cases hr
      exact .refl _
  refine Dormant.trans ?_ hs'
  unfold publishMutate at hp
  split at hp
  · cases hp
  · extract_lets candidate s₁ close at hp
    clear_value candidate
    split at hp
    · cases hp
      exact .refl s
    · dsimp only at hp
      split at hp
      · cases hp
        exact .of_eq rfl
      · split at hp
        · cases hp
          split <;> exact .of_eq rfl
        · split at hp
          · cases hp
            exact .of_eq rfl
          · split at hp
            · cases hp
              exact .of_eq rfl
            · obtain ⟨s₂,hadv,hp⟩ := bind_ok hp
              cases advanceCandidateState_eq hadv
              have hdecide := Publication.decide_dormant (c := c) (by exact hne) hp
              refine Dormant.trans ?_ hdecide
              exact .of_eq rfl

theorem activateOwnerChat_docket {chatId id : ℕ} {now : Time}
    (h : s.activateOwnerChat chatId now = .ok (s',id)) : s'.docket = s.docket := by
  unfold activateOwnerChat at h
  split at h
  · cases h
  · split at h
    · cases h
      rfl
    · cases h
      rfl

theorem getOrCreateActive_docket (s : Tables) (now : Time) :
    (s.getOrCreateActive now).1.docket = s.docket := by
  unfold getOrCreateActive
  split <;> rfl

theorem appendTurn_docket {transcriptId turnId : ℕ} {actor : Actor} {blocks : List Json} {now : Time}
    (h : s.appendTurn transcriptId actor blocks now = .ok (s',turnId)) : s'.docket = s.docket := by
  unfold appendTurn at h
  split at h
  · cases h
  · cases h
    rfl

/-- The deletion of a chat leaves the derivatives of its candidates as they are. -/
theorem deleteOwnerChat_docket {chatId id : ℕ} {now : Time}
    (h : s.deleteOwnerChat chatId now = .ok (s',id)) : s'.docket = s.docket := by
  unfold deleteOwnerChat at h
  split at h
  · cases h
  · extract_lets s₁ at h
    have hs : s₁.docket = s.docket := rfl
    split at h
    · rw [show s' = (s₁.getOrCreateActive now).1 from (congrArg Prod.fst (Except.ok.inj h)).symm]
      exact (s₁.getOrCreateActive_docket now).trans hs
    · split at h
      · cases h
        rfl
      · cases h
        rfl

theorem appendOwnerAssertionTurn_docket {content : String} {now : Time} {transcriptId turnId : ℕ}
    (h : s.appendOwnerAssertionTurn content now = .ok (s',transcriptId,turnId)) :
    s'.docket = s.docket := by
  obtain ⟨⟨s₁,id⟩,ha,h⟩ := bind_ok h
  cases h
  exact (appendTurn_docket ha).trans rfl

theorem resolveCommandObligation_dormant {commandId : ℕ} {code : String}
    {resolution : ResolutionJson} {now : Time}
    (h : s.resolveCommandObligation commandId code resolution now = .ok s') : Dormant c s s' := by
  obtain ⟨id?,_,h⟩ := map_ok h
  split at h
  · cases h
    exact .refl s
  · cases h
    exact .setObligation _ _ _ fun o => ⟨⟨rfl,rfl⟩,nofun⟩

theorem applyCommand_dormant {commandId : ℕ} {target replacement : Option ℕ} {now : Time}
    (h : s.applyCommand commandId target replacement now = .ok s') : Dormant c s s' := by
  refine Dormant.trans ?_ (resolveCommandObligation_dormant h)
  exact .of_eq rfl

theorem failCommand_dormant {commandId : ℕ} {e : Failure} {now : Time}
    (h : s.failCommand commandId e now = .ok s') : Dormant c s s' := by
  refine Dormant.trans ?_ (resolveCommandObligation_dormant h)
  exact .of_eq rfl

theorem recordExplicitIntakeFailure_dormant (s : Tables) (operation : String) (source : OwnerSource)
    (reason : String) (now : Time) :
    Dormant c s (s.recordExplicitIntakeFailure operation source reason now).1 := by
  refine .addObligation rfl rfl ?_
  rintro (⟨h,_⟩ | ⟨h,_⟩)
  · cases h
  · cases h

variable [PyRuntime]

theorem createGuard_docket {content : String} {status : MemoryStatus} {recordKind : String}
    {source : OwnerSource} {now : Time} {r : ℕ × Bool}
    (h : s.createGuard content status recordKind source now = .ok (s',r)) :
    s'.docket = s.docket := by
  unfold createGuard at h
  extract_lets fingerprint guardRow at h
  split at h
  · cases h
  · split at h
    · cases h
      rfl
    · cases h
      rfl

theorem correctionGuardRow_docket {e : ExplicitCommand} {source : OwnerSource} {now : Time}
    {target : Option ℕ} (h : s.correctionGuardRow e source now = .ok (s',target)) :
    s'.docket = s.docket := by
  unfold correctionGuardRow at h
  split at h
  · cases h
    rfl
  · split at h
    · cases h
      rfl
    · obtain ⟨⟨s₁,r⟩,hg,h⟩ := map_ok h
      cases h
      exact createGuard_docket hg

/-- An intake gives its obligation to a new candidate or to one that can be reconciled. -/
theorem enqueue_target {candidate : MemoryCandidate} {source : IntakeSource} {d : ℕ} {created : Bool}
    (hc : s.Resting c) (h : s.enqueue candidate source = .ok (s',d,created)) :
    d ≠ c ∧ s'.docket = s.docket := by
  obtain ⟨refs,_,_,_,⟨hr,rfl,_⟩ | ⟨_,rfl,_,normalized,_,rfl⟩⟩ := enqueue_cases h
  · obtain ⟨row,hrow,hs,_⟩ := reconcilableByHash_spec hr
    refine ⟨hc.ne_of_status hrow fun hi => ?_,rfl⟩
    rw [hi] at hs
    cases hs
  · obtain ⟨row,hrow,_⟩ := hc
    exact ⟨Nat.ne_of_gt (List.getElem?_eq_some_iff.mp hrow).1,rfl⟩

theorem enqueueMany_docket (s : Tables) (proposals : List RawCandidate) (source : IntakeSource) :
    (s.enqueueMany proposals source).docket = s.docket := by
  refine Trace.foldl_invariant (I := fun t : Tables => t.docket = s.docket) _ ?_ rfl
  intro t raw _ ht
  split
  · next s' d created h =>
    cases hv : raw.validate with
    | error e => simp [hv,Except.bind] at h
    | ok candidate =>
      obtain ⟨refs,_,_,_,⟨_,rfl,_⟩ | ⟨_,_,_,_,_,rfl⟩⟩ :=
        @enqueue_cases t _ _ candidate _ _ _ (by simpa [hv,Except.bind] using h)
      · exact ht
      · exact ht
  · exact ht

theorem queueExplicitContentCommandIn_dormant {e : ExplicitCommand} {source : OwnerSource}
    {now : Time} {q : Queued} (hc : s.Resting c)
    (h : s.queueExplicitContentCommandIn e source now = .ok (s',q)) : Dormant c s s' := by
  obtain ⟨transcriptId,turnId,candidate,s₁,created,target,rfl,hv,he,s₂,hg,_,_,rfl⟩ :=
    queueExplicitContentCommandIn_cases h
  obtain ⟨hne,hs₁⟩ := enqueue_target hc he
  refine (Dormant.of_eq ((correctionGuardRow_docket hg).trans hs₁)).trans (.addObligation rfl rfl ?_)
  rintro (⟨_,h⟩ | ⟨h,_⟩)
  · exact hne (Option.some.inj h)
  · cases h

theorem retireRow_docket {target : RetireTarget} {source : OwnerSource} {now : Time} {r : ℕ × String}
    (h : s.retireRow target source now = .ok (s',r)) : s'.docket = s.docket := by
  unfold retireRow at h
  split at h
  · cases h
    rfl
  · cases h
    rfl
  · obtain ⟨⟨s₁,r₁⟩,hg,h⟩ := map_ok h
    cases h
    exact createGuard_docket hg

omit [PyRuntime] in
theorem restoreMutate_dormant {memoryId : ℕ} {now : Time} {commandId : ℕ} {applied : Applied}
    (h : s.restoreMutate memoryId now commandId = .ok (s',applied)) : Dormant c s s' := by
  unfold restoreMutate at h
  split at h
  · cases h
  · split at h
    · cases h
    · split at h
      · obtain ⟨s₁,ha,h⟩ := bind_ok h
        cases h
        exact applyCommand_dormant ha
      · split at h
        · cases h
        · split at h
          · cases h
          · split at h
            · cases h
            · obtain ⟨s₁,ha,h⟩ := bind_ok h
              cases h
              refine Dormant.trans ?_ (applyCommand_dormant ha)
              exact .of_eq rfl

omit [PyRuntime] in
theorem purgeCandidate_dormant (operationId : OperationId) (now : Time) (scrub : Bool) (s : Tables)
    (p : ℕ × CandidateRow) : Dormant c s (purgeCandidate operationId now scrub s p) := by
  have hs : Dormant c s ((s.setCandidate p.1 fun current =>
      p.2.flush (p.2.purged operationId now) current).settleExplicitObligation p.1 now none
        (some "evidence_purged") (some "evidence_purged")) :=
    settled_dormant p.1 now none _ _ rfl
  unfold purgeCandidate
  dsimp only
  split
  · exact hs.trans (.of_eq rfl)
  · exact hs

theorem redactEvidenceTurn_docket (operationId : OperationId) (now : Time)
    (content redactContent : Option String) (s : Tables) (row : CandidateRow) :
    (redactEvidenceTurn operationId now content redactContent s row).docket = s.docket := by
  unfold redactEvidenceTurn
  split
  · rfl
  · split
    · rfl
    · extract_lets values r
      split <;> rfl

omit [PyRuntime] in
theorem tombstonedConflict {operationId : OperationId} {candidateIds : List ℕ} {now : Time} {i : ℕ}
    {k : ConflictRow}
    (hk : (s.tombstoneCandidateDerivatives operationId candidateIds now).conflicts[i]? = some k) :
    ∃ k₀, s.conflicts[i]? = some k₀ ∧ k.candidateId = k₀.candidateId ∧ (k = k₀ ∨ k.Blank) := by
  unfold tombstoneCandidateDerivatives at hk
  dsimp only at hk
  rw [List.getElem?_map] at hk
  obtain ⟨k₀,hk₀,rfl⟩ := Option.map_eq_some_iff.mp hk
  refine ⟨k₀,hk₀,?_⟩
  split
  · exact ⟨rfl,Or.inr ⟨rfl,rfl,Option.some_ne_none now⟩⟩
  · exact ⟨rfl,Or.inl rfl⟩

omit [PyRuntime] in
/-- The purge tombstones the derivatives of the candidates it selected. -/
theorem tombstoneCandidateDerivatives_dormant (s : Tables) (operationId : OperationId)
    (candidateIds : List ℕ) (now : Time) :
    Dormant c s (s.tombstoneCandidateDerivatives operationId candidateIds now) where
  readings r hr _ := by
    obtain ⟨r₀,hr₀,rfl⟩ := List.mem_map.mp hr
    split
    · exact Or.inr ⟨⟨rfl,rfl,rfl,rfl,rfl,rfl⟩,Option.some_ne_none now⟩
    · exact Or.inl hr₀
  comparisons r hr _ := by
    obtain ⟨r₀,hr₀,rfl⟩ := List.mem_map.mp hr
    split
    · exact Or.inr ⟨⟨rfl,rfl,rfl,rfl⟩,Option.some_ne_none now⟩
    · exact Or.inl hr₀
  records r hr _ := by
    obtain ⟨r₀,hr₀,rfl⟩ := List.mem_map.mp hr
    split
    · exact Or.inr ⟨rfl,Option.some_ne_none now⟩
    · exact Or.inl hr₀
  conflicts i k hk hck := by
    obtain ⟨k₀,hk₀,he,ho⟩ := tombstonedConflict hk
    exact ⟨k₀,hk₀,he ▸ hck,ho.imp_right Or.inl⟩
  obligations o ho ha hp := by
    obtain ⟨o₀,ho₀,he⟩ := List.mem_map.mp ho
    obtain ⟨⟨ht,hi⟩,hs⟩ : (o.subjectType = o₀.subjectType ∧ o.subjectId = o₀.subjectId) ∧
        (o.status = .pending → o₀.status = .pending) := by
      rw [← he]
      split
      · split
        · exact ⟨⟨rfl,rfl⟩,nofun⟩
        · exact ⟨⟨rfl,rfl⟩,id⟩
      · exact ⟨⟨rfl,rfl⟩,id⟩
    refine ⟨o₀,ho₀,?_,hs hp⟩
    rw [About,ht,hi] at ha
    refine ha.imp_right fun ⟨ht,j,hj,k,hk,hck⟩ => ?_
    obtain ⟨k₀,hk₀,he,_⟩ := tombstonedConflict hk
    exact ⟨ht,j,hj,k₀,hk₀,he ▸ hck⟩

theorem invalidateCandidates_dormant (loaded : Tables → Tables) (s : Tables)
    (operationId : OperationId) (turnIds candidateIds : List ℕ)
    (content redactContent : Option String) (scrub : Bool) (now : Time) :
    Dormant c s (s.invalidateCandidates loaded operationId turnIds candidateIds content redactContent
      scrub now).1 := by
  unfold invalidateCandidates
  extract_lets read selected redacted evidenceTurns purged
  have hred : redacted.docket = s.docket := by
    dsimp only [redacted]
    split
    · refine Trace.foldl_invariant (I := fun t : Tables => t.docket = s.docket) _ ?_ rfl
      intro t row _ ht
      exact (redactEvidenceTurn_docket operationId now content redactContent t row).trans ht
    · rfl
  have hpurged : Dormant c redacted purged :=
    Trace.foldl_rel .refl .trans _ (fun t p => purgeCandidate_dormant operationId now scrub t p) _
  refine (Dormant.of_eq hred).trans (hpurged.trans ?_)
  dsimp only
  split
  · exact tombstoneCandidateDerivatives_dormant ..
  · exact .refl _

theorem retireMutate_dormant {loaded : Tables → Tables} {memoryId : Option ℕ}
    {content : Option String} {source : OwnerSource} {now : Time} {commandId : ℕ} {applied : Applied}
    (h : s.retireMutate loaded memoryId content source now commandId = .ok (s',applied)) :
    Dormant c s s' := by
  obtain ⟨target,ht,h⟩ := bind_ok h
  split at h
  · obtain ⟨s₁,ha,h⟩ := bind_ok h
    cases h
    exact applyCommand_dormant ha
  · obtain ⟨⟨s₁,id,result⟩,hr,h⟩ := bind_ok h
    have hpurge : Dormant c s₁ (s₁.invalidateCandidates loaded (.command commandId)
        (s₁.retiredSources id).1 [] (s₁.retiredSources id).2 none false now).1 :=
      invalidateCandidates_dormant ..
    obtain ⟨s₂,ha,h⟩ := bind_ok h
    cases h
    refine (Dormant.of_eq (retireRow_docket hr)).trans (hpurge.trans
      (Dormant.trans ?_ (applyCommand_dormant ha)))
    exact .of_eq rfl

theorem deletionSources_docket {operationId : OperationId} {scope : String} {target : Option ℕ}
    {selected : Option String} {now : Time} {d : DeletionSources}
    (h : s.deletionSources operationId scope target selected now = .ok (s',d)) :
    s'.docket = s.docket := by
  obtain ⟨⟨affected,preserved⟩,_,h⟩ := bind_ok h
  obtain ⟨⟨s₁,redacted⟩,hr,h⟩ := bind_ok h
  cases h
  unfold redactSources at hr
  split at hr
  · cases hr
    rfl
  · split at hr
    · cases hr
      rfl
    · extract_lets r at hr
      split at hr
      · cases hr
      · rw [show s' = r.1 from (congrArg Prod.fst (Except.ok.inj hr)).symm]
        rfl

theorem deleteMutate_dormant {loaded : Tables → Tables} {memoryId : Option ℕ}
    {content : Option String} {scope : String} {source : OwnerSource} {now : Time} {commandId : ℕ}
    {applied : Applied}
    (h : s.deleteMutate loaded memoryId content scope source now commandId = .ok (s',applied)) :
    Dormant c s s' := by
  obtain ⟨id,_,ha⟩ | ⟨target,selected,s₁,d,affected,found,_,hd,hdel⟩ := deleteMutate_cases h
  · exact applyCommand_dormant ha
  · obtain ⟨t,id,ht,ha⟩ := hdel.applied
    exact (Dormant.of_eq (deletionSources_docket hd)).trans ((invalidateCandidates_dormant ..).trans
      ((Dormant.of_eq ht).trans (applyCommand_dormant ha)))

omit [PyRuntime] in
/-- The resolution of an obligation together with changes of other tables. -/
theorem resolve_dormant {t : Tables} (h : t.docket = s.docket) (id : ℕ)
    (f : ObligationRow → ObligationRow) (hf : ∀ o, ((f o).subjectType = o.subjectType ∧
      (f o).subjectId = o.subjectId) ∧ ((f o).status = .pending → o.status = .pending)) :
    Dormant c s (t.setObligation id f) := (Dormant.of_eq h).trans (.setObligation t id f hf)

omit [PyRuntime] in
theorem rejectConflicting_dormant (s : Tables) (d : ℕ) (decision : DecisionJson) (code : String)
    (resolution : Option String) (now : Time) :
    Dormant c s (s.rejectConflicting d decision code resolution now) := by
  unfold rejectConflicting
  split
  · exact .refl s
  · split
    · exact .refl s
    · exact settled_dormant d now none _ _ rfl

omit [PyRuntime] in
theorem keepCurrent_dormant {conflictId : ℕ} {conflict : ConflictRow}
    (hk : s.conflicts[conflictId]? = some conflict) (hr : conflict.resolvable = true)
    (obligationId : ℕ) (source : OwnerSource) (now : Time) :
    Dormant c s (s.keepCurrent obligationId conflictId conflict source now) := by
  unfold keepCurrent
  extract_lets s₁
  have hconflict : Dormant c s (s.setConflict conflictId fun c => {c with
      status := "resolved_keep_current"
      resolvedAt := some now}) :=
    .setConflict _ _ _ (fun k hk' => Option.some.inj (hk.symm.trans hk') ▸ hr) fun _ => rfl
  have hreject : Dormant c s s₁ := hconflict.trans (rejectConflicting_dormant ..)
  refine hreject.trans ?_
  exact resolve_dormant (by rfl) _ _ fun o => by exact ⟨⟨rfl,rfl⟩,nofun⟩

omit [PyRuntime] in
theorem rejectReview_dormant (s : Tables) (obligationId targetId : ℕ) (now : Time) :
    Dormant c s (s.rejectReview obligationId targetId now) := by
  refine Dormant.trans (Dormant.setObligation s obligationId (fun o => {o with
    status := .resolved
    resolvedAt := some now
    resolutionCode := some "rejected"
    resolutionJson := {memoryId := some targetId}}) fun o => ⟨⟨rfl,rfl⟩,nofun⟩) ?_
  exact .of_eq rfl

theorem confirmReview_dormant {obligationId targetId : ℕ} {asserted : String} {now : Time}
    (h : s.confirmReview obligationId targetId asserted now = .ok s') : Dormant c s s' := by
  unfold confirmReview at h
  extract_lets fingerprint at h
  split at h
  · cases h
  · obtain ⟨⟨s₁,transcriptId,turnId⟩,ht,h⟩ := bind_ok h
    cases h
    refine (Dormant.of_eq (appendOwnerAssertionTurn_docket ht)).trans ?_
    exact resolve_dormant (by rfl) _ _ fun o => by exact ⟨⟨rfl,rfl⟩,nofun⟩

theorem resolveReviewMutate_dormant {arguments : ResolveArguments} {now : Time}
    {r : Bool × Resolution} (h : s.resolveReviewMutate arguments now = .ok (s',r)) :
    Dormant c s s' := by
  unfold resolveReviewMutate at h
  split at h
  · cases h
  · split at h
    · cases h
      exact .refl s
    · split at h
      · cases h
      · split at h
        · cases h
        · split at h
          · cases h
          · obtain ⟨text,_,h⟩ := bind_ok h
            dsimp only at h
            split at h
            · cases h
              exact .refl s
            · split at h
              · cases h
                exact rejectReview_dormant s _ _ now
              · obtain ⟨asserted,_,h⟩ := bind_ok h
                obtain ⟨s₁,hc,h⟩ := bind_ok h
                cases h
                exact confirmReview_dormant hc

/-- A decided conflict was resolvable, and its replacement is a command of its own. -/
theorem replaceInConflict_dormant {arguments : ResolveArguments} {changeType : String}
    {conflictId : ℕ} {conflict : ConflictRow} {target : DurableMemoryRow} {source : OwnerSource}
    {now : Time} {q : Queued} (hc : s.Resting c) (hk : s.conflicts[conflictId]? = some conflict)
    (hr : conflict.resolvable = true)
    (h : s.replaceInConflict arguments changeType conflictId conflict target source now =
      .ok (s',q)) : Dormant c s s' := by
  obtain ⟨replacement,_,h⟩ := bind_ok h
  obtain ⟨⟨s₁,queued⟩,hq,h⟩ := bind_ok h
  have hconf : s₁.conflicts = s.conflicts := by
    obtain ⟨_,_,_,s₂,_,_,_,_,he,s₃,hg,_,_,rfl⟩ := queueExplicitContentCommandIn_cases hq
    have h₃ := (correctionGuardRow_docket hg).trans (enqueue_target hc he).2
    simp only [docket,shelf,Prod.mk.injEq] at h₃
    exact h₃.1.2.2.2
  cases h
  have hconflict : Dormant c s₁ (s₁.setConflict conflictId fun c => {c with
      status := "resolved_" ++ arguments.decision.value
      resolvedAt := some now}) :=
    .setConflict _ _ _ (fun k hk' => by
      rw [hconf,hk] at hk'
      exact Option.some.inj hk' ▸ hr) fun _ => rfl
  exact (queueExplicitContentCommandIn_dormant hc hq).trans (hconflict.trans
    (Dormant.trans (rejectConflicting_dormant _ _ _ _ _ _)
      (.setObligation _ _ _ fun o => ⟨⟨rfl,rfl⟩,fun h => (by cases h)⟩)))

theorem resolveConflictMutate_dormant {arguments : ResolveArguments} {changeType : String}
    {source : OwnerSource} {now : Time} {r : Bool × Resolution} (hc : s.Resting c)
    (h : s.resolveConflictMutate arguments changeType source now = .ok (s',r)) :
    Dormant c s s' := by
  unfold resolveConflictMutate at h
  split at h
  · cases h
  · split at h
    · cases h
    · split at h
      · cases h
      · next conflictId conflict hsubject =>
        have hk : s.conflicts[conflictId]? = some conflict := by
          obtain ⟨id,_,hid⟩ := Option.bind_eq_some_iff.mp hsubject
          obtain ⟨k,hk,he⟩ := Option.map_eq_some_iff.mp hid
          cases he
          exact hk
        split at h
        · cases h
          exact .refl s
        · next hr =>
          have hr : conflict.resolvable = true := by simpa using hr
          split at h
          · cases h
          · obtain ⟨version,_,h⟩ := bind_ok h
            split at h
            · cases h
              exact .refl s
            · obtain ⟨_,_,h⟩ := bind_ok h
              split at h
              · cases h
                exact keepCurrent_dormant hk hr _ source now
              · obtain ⟨⟨s₁,q⟩,hq,h⟩ := bind_ok h
                cases h
                exact replaceInConflict_dormant hc hk hr hq

theorem resolveCandidate_dormant {arguments : ResolveArguments} {obligation : ObligationRow}
    {source : OwnerSource} {now : Time} {r : Resolution}
    (h : s.resolveCandidate arguments obligation source now = .ok (s',r)) : Dormant c s s' := by
  unfold resolveCandidate at h
  split at h
  · cases h
  · split at h
    · cases h
    · next d row hsubject =>
      obtain ⟨text,_,h⟩ := bind_ok h
      dsimp only at h
      split at h
      · cases h
        exact .refl s
      · split at h
        · cases h
          refine Dormant.trans (Dormant.setObligation s arguments.obligationId (fun o => {o with
            status := .resolved
            resolutionCode := some "expired_unconfirmed"
            resolutionJson := {}
            resolvedAt := some now}) fun o => ⟨⟨rfl,rfl⟩,nofun⟩) ?_
          exact settled_dormant d now none _ none rfl
        · split at h
          · obtain ⟨s₁,hc,h⟩ := bind_ok h
            cases h
            obtain ⟨asserted,_,hc⟩ := bind_ok hc
            obtain ⟨⟨s₂,transcriptId,turnId⟩,ht,hc⟩ := bind_ok hc
            cases hc
            refine (Dormant.of_eq (appendOwnerAssertionTurn_docket ht)).trans
              (Dormant.trans (resolve_dormant (t := {s₂ with evidence := _}) rfl
                arguments.obligationId _ ?_) (.of_eq rfl))
            exact fun o => ⟨⟨rfl,rfl⟩,nofun⟩
          · cases h
            refine Dormant.trans (Dormant.setObligation s arguments.obligationId (fun o => {o with
              status := .resolved
              resolvedAt := some now
              resolutionSourceTranscriptId := source.1
              resolutionSourceTurnId := source.2
              resolutionCode := some "rejected"
              resolutionJson := {candidateId := some d}}) fun o => ⟨⟨rfl,rfl⟩,nofun⟩) ?_
            exact settled_dormant d now none _ none rfl

theorem retryExplicitObligation_dormant {arguments : ResolveArguments} {obligation : ObligationRow}
    {source : OwnerSource} {now : Time} {r : Resolution}
    (h : s.retryExplicitObligation arguments obligation source now = .ok (s',r)) :
    Dormant c s s' := by
  unfold retryExplicitObligation at h
  split at h
  · cases h
  · split at h
    · cases h
    · split at h
      · cases h
      · next d row hsubject =>
        split at h
        · cases h
          exact .refl s
        · split at h
          · cases h
            exact .refl s
          · obtain ⟨text,_,h⟩ := bind_ok h
            dsimp only at h
            split at h
            · cases h
              exact .refl s
            · split at h
              · cases h
                exact settled_dormant d now none _ none rfl
              · cases h
                exact resolve_dormant (by rfl) _ _ fun o => by exact ⟨⟨rfl,rfl⟩,fun hp => hp⟩

theorem resolveObligationIn_dormant {arguments : ResolveArguments} {source : OwnerSource}
    {now : Time} {r : Resolution}
    (h : s.resolveObligationIn arguments source now = .ok (s',r)) : Dormant c s s' := by
  unfold resolveObligationIn at h
  split at h
  · cases h
  · split at h
    · cases h
      exact .refl s
    · split at h
      · exact retryExplicitObligation_dormant h
      · split at h
        · cases h
        · exact resolveCandidate_dormant h

end Tables

end Memory
end Atlas
