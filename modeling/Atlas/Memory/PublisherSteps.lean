import Atlas.Memory.WorkerSteps

/-! A publication as a run of the candidate automaton: it advances both rows, writes memories,
and closes the attempt together with the candidate's change of status. -/
namespace Atlas
namespace Memory

open RowTable

/-- Nothing happens to candidates, evidence, turns and attempts. -/
structure Quiet (s s' : Tables) : Prop where
  candidates : s'.candidates = s.candidates
  evidence : s'.evidence = s.evidence
  turns : s'.turns = s.turns
  attempts : s'.attempts = s.attempts
  nextToken : s'.nextToken = s.nextToken
  obligations : ObligationsKept s.obligations s'.obligations

namespace Quiet

variable {s s' s'' : Tables}

theorem of_core (h : s'.core = s.core) : Quiet s s' := by
  simp only [Tables.core,Core.mk.injEq] at h
  obtain ⟨hc,he,ht,ha,ho,hn⟩ := h
  exact ⟨hc,he,ht,ha,hn,ho ▸ .refl _⟩

theorem refl (s : Tables) : Quiet s s := of_core rfl

theorem trans (h : Quiet s s') (h' : Quiet s' s'') : Quiet s s'' :=
  ⟨h'.candidates.trans h.candidates,h'.evidence.trans h.evidence,h'.turns.trans h.turns,
    h'.attempts.trans h.attempts,h'.nextToken.trans h.nextToken,
    h.obligations.trans h'.obligations⟩

theorem frame (h : Quiet s s') : Frame s s' :=
  ⟨h.candidates,h.evidence,h.turns ▸ .refl _,h.attempts ▸ .refl _,h.nextToken,h.obligations⟩

theorem addObligation {o : ObligationRow}
    (hc : s'.core = {s.core with obligations := s.obligations ++ [o]})
    (h : ∀ d, o.explicitAbout d = false) : Quiet s s' := by
  simp only [Tables.core,Core.mk.injEq] at hc
  obtain ⟨hc,he,ht,ha,ho,hn⟩ := hc
  exact ⟨hc,he,ht,ha,hn,ho ▸ .append _ h⟩

theorem resolveObligation (s : Tables) (id : ℕ) (f : ObligationRow → ObligationRow)
    (h : ∀ o : ObligationRow, o.Resolves (f o)) : Quiet s (s.setObligation id f) :=
  ⟨rfl,rfl,rfl,rfl,rfl,.modify _ _ _ fun o _ => (h o).keeps⟩

end Quiet

namespace Tables

theorem addCandidateLineage_core (s : Tables) (memoryId c : ℕ) :
    (s.addCandidateLineage memoryId c).1.core = s.core := by
  unfold addCandidateLineage
  dsimp only
  split <;> rfl

theorem createActive_core [PyRuntime] (s : Tables) (content : String) (row : DurableMemoryRow) :
    (s.createActive content row).1.core = s.core := by
  unfold createActive
  dsimp only
  split <;> rfl

end Tables

/-- The statuses a publication can leave a leased candidate in. -/
def CandidateStatus.published : CandidateStatus → Bool
  | .pending | .retainedShortTerm | .awaitingOwner | .reconciled | .discarded | .blocked => true
  | _ => false

/-- What the end of an attempt does to its candidate's row. -/
structure Closing (f : CandidateRow → CandidateRow) (status : CandidateStatus)
    (decision : SemanticDecision) (outcome : PublicationOutcome) : Prop where
  published : status.published = true
  terminal : outcome.terminal = status.terminal
  content : ∀ row, (f row).content = row.content
  transcript : ∀ row, (f row).sourceTranscriptId = row.sourceTranscriptId
  hash : ∀ row, (f row).evidenceSetHash = row.evidenceSetHash
  invalidatedAt : ∀ row, (f row).invalidatedAt = row.invalidatedAt
  version : ∀ row, (f row).stateVersion = row.stateVersion
  requeued : status = .pending → ∀ row, (f row).decisionJson = row.decisionJson
  retained : status = .retainedShortTerm → decision = .retainShortTerm
  status : ∀ row, (f row).status = status

namespace Publication

/-- The result of a publication branch: other tables first, then the end of the attempt. -/
def Closes (p : Publication) (s : Tables) (r : Tables × Published) : Prop :=
  ∃ s₀ f status attempted target result, Quiet s s₀ ∧
    r.1 = p.close s₀ f attempted target result ∧
    Closing f status p.decision.decision r.2.outcome

variable {p : Publication} {s s₀ : Tables}

theorem Closes.intro {f : CandidateRow → CandidateRow} {attempted : String} {target : Option ℕ}
    {result : AttemptResult} {pub : Published} (h : Quiet s s₀) (status : CandidateStatus)
    (hf : Closing f status p.decision.decision pub.outcome) :
    p.Closes s (p.close s₀ f attempted target result,pub) :=
  ⟨s₀,f,status,attempted,target,result,h,rfl,hf⟩

theorem complete_closes (h : Quiet s s₀) (decision result : String) (target : Option ℕ)
    {pub : Published} (ho : pub.outcome.terminal = true) :
    p.Closes s (p.complete s₀ decision result target,pub) := by
  refine Closes.intro h (if decision = "discard" then .discarded else .reconciled) ?_
  refine ⟨?_,?_,fun _ => rfl,fun _ => rfl,fun _ => rfl,fun _ => rfl,fun _ => rfl,?_,?_,
    fun _ => rfl⟩ <;>
    split <;> simp [CandidateStatus.published,CandidateStatus.terminal,terminalResolution,ho]

theorem block_closes (h : Quiet s s₀) (code : String) : p.Closes s (p.block s₀ code) := by
  refine Closes.intro h .blocked ?_
  exact ⟨rfl,rfl,fun _ => rfl,fun _ => rfl,fun _ => rfl,fun _ => rfl,fun _ => rfl,nofun,nofun,
    fun _ => rfl⟩

theorem requeueSource_closes (s : Tables) : p.Closes s (p.requeueSource s) := by
  refine Closes.intro (.refl s) .pending ?_
  exact ⟨rfl,rfl,fun _ => rfl,fun _ => rfl,fun _ => rfl,fun _ => rfl,fun _ => rfl,fun _ _ => rfl,
    nofun,fun _ => rfl⟩

theorem retain_closes (config : PublisherConfig) (s : Tables)
    (hd : p.decision.decision = .retainShortTerm) : p.Closes s (p.retain config s) := by
  refine Closes.intro (.refl s) .retainedShortTerm ?_
  exact ⟨rfl,rfl,fun _ => rfl,fun _ => rfl,fun _ => rfl,fun _ => rfl,fun _ => rfl,nofun,fun _ => hd,
    fun _ => rfl⟩

theorem awaitOwner_closes (s : Tables) : p.Closes s (p.awaitOwner s) := by
  refine Closes.intro (.addObligation rfl fun d => ?_) .awaitingOwner ?_
  swap
  · exact ⟨rfl,rfl,fun _ => rfl,fun _ => rfl,fun _ => rfl,fun _ => rfl,fun _ => rfl,nofun,nofun,
      fun _ => rfl⟩
  refine explicitAbout_of_kind ?_ d
  dsimp only
  split <;> rfl

theorem conflict_closes [PyRuntime] {r : Tables × Published} (h : p.conflict s = .ok r) :
    p.Closes s r := by
  unfold conflict at h
  split at h
  · cases h
    exact block_closes (.refl s) _
  · split at h
    · cases h
      exact block_closes (.refl s) _
    · split at h
      · cases h
      · obtain ⟨content,_,h⟩ := bind_ok h
        cases h
        refine Closes.intro ?_ .awaitingOwner ?_
        swap
        · exact ⟨rfl,rfl,fun _ => rfl,fun _ => rfl,fun _ => rfl,fun _ => rfl,fun _ => rfl,nofun,nofun,
            fun _ => rfl⟩
        exact .addObligation rfl fun d => explicitAbout_of_kind rfl d

theorem equivalent_closes (s : Tables) : p.Closes s (p.equivalent s) := by
  unfold equivalent
  split
  · exact block_closes (.refl s) _
  · split
    · exact block_closes (.refl s) _
    · refine complete_closes (.of_core ?_) _ _ _ ?_
      · split
        · exact s.addCandidateLineage_core _ _
        · exact s.addCandidateLineage_core _ _
      · dsimp only
        split <;> rfl

variable [PyRuntime]

theorem groundLegacy_closes {content : String} {r : Tables × Published}
    (h : p.groundLegacy s content = .ok r) : p.Closes s r := by
  unfold groundLegacy at h
  split at h
  · cases h
    exact block_closes (.refl s) _
  · split at h
    · cases h
      exact block_closes (.refl s) _
    · split at h
      · cases h
        exact block_closes (.refl s) _
      · obtain ⟨review,_,h⟩ := bind_ok h
        cases h
        refine complete_closes ?_ _ _ _ rfl
        have hq : ∀ t : Tables, t.core = s.core → Quiet s t := fun t => .of_core
        split
        · exact hq _ (Tables.addCandidateLineage_core _ _ _)
        · refine Quiet.trans (hq _ ?_) (.resolveObligation _ _ _ fun _ => by exact ⟨rfl,fun _ => rfl⟩)
          exact Tables.addCandidateLineage_core _ _ _

theorem historicalPredecessor_closes (s : Tables) (content : String)
    (restriction : Option (ℕ × DurableMemoryRow)) :
    p.Closes s (p.historicalPredecessor s content restriction) := by
  unfold historicalPredecessor
  split
  · exact block_closes (.refl s) _
  · split
    · exact block_closes (.refl s) _
    · split
      · exact block_closes (.refl s) _
      · split
        · split
          · exact block_closes (.refl s) _
          · refine complete_closes (.of_core (s.addCandidateLineage_core _ _)) _ _ _ ?_
            dsimp only
            split <;> rfl
        · refine complete_closes (.of_core ?_) _ _ _ ?_
          · exact Tables.addCandidateLineage_core _ _ _
          · rfl

theorem create_closes (s : Tables) (content : String) : p.Closes s (p.create s content) := by
  unfold create
  split
  · exact block_closes (.refl s) _
  · extract_lets target guardId row
    split
    · exact block_closes (.refl s) _
    · have hcore := s.createActive_core content {row with
        supersedesId := guardId
        validFrom := if p.corrects then none else row.validFrom}
      revert hcore
      generalize s.createActive content _ = r
      obtain ⟨s',memoryId,created⟩ := r
      intro hcore
      dsimp only
      split
      · exact block_closes (.refl s) _
      · refine complete_closes (.of_core ?_) _ _ _ ?_
        · clear_value guardId
          cases guardId <;> exact (Tables.addCandidateLineage_core _ _ _).trans hcore
        · rfl

theorem replace_closes (s : Tables) (content : String) : p.Closes s (p.replace s content) := by
  unfold replace
  split
  · exact block_closes (.refl s) _
  · next targetId target _ =>
    extract_lets explicitTarget row
    split
    · exact block_closes (.refl s) _
    · split
      · exact block_closes (.refl s) _
      · split
        · split
          · exact block_closes (.refl s) _
          · exact block_closes (.refl s) _
        · have hcore := s.createActive_core content {row with
            supersedesId := some targetId
            validFrom := if p.corrects then none else row.validFrom}
          revert hcore
          generalize s.createActive content _ = r
          obtain ⟨s',replacementId,created⟩ := r
          intro hcore
          dsimp only
          split
          · exact block_closes (.refl s) _
          · refine complete_closes (.of_core ?_) _ _ _ ?_
            · exact (Tables.addCandidateLineage_core _ _ _).trans hcore
            · dsimp only
              split <;> rfl

theorem write_closes {r : Tables × Published} (h : p.write s = .ok r) : p.Closes s r := by
  obtain ⟨content,_,h⟩ := bind_ok h
  dsimp only at h
  split at h
  · cases h
    exact block_closes (.refl s) _
  · split at h
    · exact groundLegacy_closes h
    · cases h
      exact historicalPredecessor_closes s content _
    · cases h
      exact create_closes s content
    · cases h
      exact replace_closes s content
    · cases h
      exact replace_closes s content
    · cases h
      exact block_closes (.refl s) _

theorem decide_closes {config : PublisherConfig} {r : Tables × Published}
    (h : p.decide config s = .ok r) : p.Closes s r := by
  unfold decide at h
  extract_lets sourceStale durable at h
  split at h
  · cases h
    exact requeueSource_closes s
  · split at h
    · cases h
      exact complete_closes (.refl s) _ _ _ rfl
    · split at h
      · next hd =>
        cases h
        exact retain_closes config s hd
      · split at h
        · cases h
          exact block_closes (.refl s) _
        · split at h
          · cases h
            exact block_closes (.refl s) _
          · split at h
            · cases h
              exact block_closes (.refl s) _
            · split at h
              · cases h
                exact awaitOwner_closes s
              · exact conflict_closes h
              · cases h
                exact equivalent_closes s
              · exact write_closes h

omit [PyRuntime] in
/-- The end of a publication on a leased candidate at its attempt's version. -/
theorem closes_chain {P : Policy} {r : Tables × Published} {row : CandidateRow} {a : AttemptRow}
    (h : p.Closes s r) (hc : s.candidates[p.candidateId]? = some row)
    (ha : s.attempts[p.attemptId]? = some a) (howner : a.candidateId = p.candidateId)
    (hs : row.status = .leased) (hopen : a.completedAt = none)
    (hv : a.candidateStateVersion = row.stateVersion)
    (hm : ∀ b, b.published = true → P.moves .leased b)
    (hh : p.decision.decision = .retainShortTerm → P.home → s.Homely p.candidateId row) (now : Time) :
    Chain P s (if r.2.outcome.terminal then
      r.1.settleExplicitObligation p.candidateId now r.2.memoryId r.2.code none else r.1) := by
  obtain ⟨s₀,f,status,attempted,target,result,hq,hr,hf⟩ := h
  have hcand : Changes s.candidates r.1.candidates p.candidateId row
      (f {row with leaseToken := none, leasedUntil := none}) := by
    rw [hr,← hq.candidates]
    exact .modify (hq.candidates ▸ hc) _
  have hatt : Changes s.attempts r.1.attempts p.attemptId a {a with
      status := attempted
      completedAt := some p.now
      targetMemoryId := target.or a.targetMemoryId
      resultJson := result} := by
    rw [hr,← hq.attempts]
    exact .modify (hq.attempts ▸ ha) _
  have hst := hf.status {row with leaseToken := none, leasedUntil := none}
  have hpub := hf.published
  have hchange : RowChange P p.candidateId row (f {row with leaseToken := none, leasedUntil := none})
      s r.1 :=
    { change := hcand
      evidence := by rw [hr]; exact hq.evidence
      turns := by rw [hr]; exact hq.turns
      obligations := by rw [hr]; exact hq.obligations
      attempts := .close p.attemptId a _ hatt howner rfl rfl hopen (Option.some_ne_none _) hv
        (by rw [hf.version]) (by rw [hr]; exact hq.nextToken)
      columns :=
        { move := Or.inr (by rw [hst,hs]; exact hm _ hpub)
          transcript := hf.transcript _
          hash := hf.hash _
          payload := fun _ hi => by rw [hs] at hi; cases hi
          stamped := fun hi => by rw [hf.invalidatedAt]; exact hi
          stamp := fun hi => Or.inl (by rw [hf.invalidatedAt] at hi; exact hi)
          leased := fun hl => by rw [hst] at hl; rw [hl] at hpub; cases hpub
          assertion := fun hqueued => by
            rw [hst] at hqueued
            cases status with
            | pending => exact Or.inl ⟨by rw [hs]; rfl,by rw [hf.requeued rfl]⟩
            | retainedShortTerm => exact Or.inr (hh (hf.retained rfl))
            | leased => cases hpub
            | _ => cases hqueued } }
  split
  · exact .single (hchange.settle now _ _ none)
  · next hn =>
    exact .single (hchange.live (by
      rw [hst,← hf.terminal]
      simpa using hn))

end Publication

namespace Tables

variable [PyRuntime] {P : Policy} {s s' : Tables} {claim : CandidateLease}

omit [PyRuntime] in
theorem leaseMismatch_spec {row : CandidateRow} {a : AttemptRow}
    (h : leaseMismatch claim (some row) a = false) : a.leaseToken = claim.leaseToken ∧
      a.completedAt = none ∧ row.stateVersion = a.candidateStateVersion := by
  simpa [leaseMismatch,and_assoc] using h

omit [PyRuntime] in
theorem advanceCandidateState_eq {c i : ℕ} {row : CandidateRow} {a : AttemptRow}
    (h : s.advanceCandidateState c i row a = .ok s') :
    s' = (s.setCandidate c fun r => {r with stateVersion := row.stateVersion + 1}).setAttempt i
      fun a => {a with candidateStateVersion := row.stateVersion + 1} := by
  unfold advanceCandidateState at h
  split at h
  · cases h
  · cases h
    rfl

theorem publishAndSettle_chain {config : PublisherConfig} {snapshot : EvaluationSnapshot}
    {decision : ReconciliationDecision} {operationId : OperationId} {now : Time} {pub : Published}
    (hi : Issued s claim)
    (h : s.publishAndSettle config claim snapshot decision operationId now = .ok (s',pub))
    (hm : ∀ b, b.published = true → P.moves .leased b) (hx : ∀ a, P.moves a .invalidated)
    (hh : decision.decision = .retainShortTerm → P.home → ∀ row a,
      s.lockedLiveClaim claim now = .ok (row,a) → s.Homely claim.candidateId row) :
    Chain P s s' := by
  obtain ⟨r,hp,hr⟩ := map_ok h
  have hs' : s' = if r.2.outcome.terminal then
      r.1.settleExplicitObligation claim.candidateId now r.2.memoryId r.2.code none else r.1 := by
    split at hr <;> cases hr <;> simp_all
  rw [hs']
  unfold publishMutate at hp
  split at hp
  · cases hp
  · next a ha =>
    extract_lets candidate s₁ close at hp
    split at hp
    · cases hp
      exact .refl
    · next hmis =>
      have hbook : Frame s s₁ := .setAttempt s _ _ fun a _ => ⟨rfl,rfl,fun hn => ⟨hn,rfl⟩⟩
      have hclose : ∀ (t : Tables) status result, Frame t (close status result t) := fun t _ _ =>
        .setAttempt t _ _ fun a _ => ⟨rfl,rfl,fun hn => absurd hn (Option.some_ne_none now)⟩
      have ha₁ := Changes.modify ha fun a => {a with
        operationId := some operationId
        semanticDecision := some decision.decision.value
        targetMemoryId := decision.targetMemoryId}
      have howner := (hi.owner ha).1
      refine hbook.chain.trans ?_
      have hc : s.candidates[claim.candidateId]? = candidate := rfl
      clear_value candidate
      cases candidate with
      | none =>
        cases hp
        exact (hclose s₁ _ _).chain
      | some row =>
        have hc₁ : s₁.candidates[claim.candidateId]? = some row := hc
        have hlease := leaseMismatch_spec (by simpa using hmis)
        dsimp only at hp
        -- closing the attempt at the candidate's version leaves no other open one behind
        have hend : ∀ (f : CandidateRow → CandidateRow) (status : String) (result : AttemptResult)
            (code : Option String), (f row).stateVersion = row.stateVersion →
            RowMove P s₁ claim.candidateId row (f row) → Chain P s₁
              ((close status result (s₁.setCandidate claim.candidateId f)).settleExplicitObligation
                claim.candidateId now none code none) := by
          intro f status result code hver hmove
          apply Relation.ReflTransGen.single
          apply RowChange.settle
          exact
            { change := .modify hc₁ f
              evidence := rfl
              turns := rfl
              obligations := .refl _
              columns := hmove
              attempts := .close claim.attemptId _ _ (.modify ha₁.after _) howner rfl rfl hlease.2.1
                (Option.some_ne_none now) hlease.2.2.symm hver.ge rfl }
        split at hp
        · split at hp
          · cases hp
            exact hend _ _ _ _ rfl (.invalidate rfl (Or.inr (hx _)) id id rfl rfl)
          · cases hp
            exact (hclose s₁ _ _).chain.trans (settle_frame _ _ _ _ _ _).chain
        · next hvalid =>
          simp only [not_or,Option.not_isSome_iff_eq_none] at hvalid
          split at hp
          · cases hp
            exact (hclose s₁ _ _).chain
          · next hlive =>
            simp only [not_or,not_not] at hlive
            split at hp
            · cases hp
              exact hend _ _ _ _ rfl
                (.invalidate rfl (Or.inr (hx _)) id (fun _ => Option.some_ne_none now) rfl rfl)
            · next hrows =>
              have hev : s.evidenceLive claim.candidateId row = true := by
                by_contra hne
                have hne₁ : ¬s₁.evidenceLive claim.candidateId row = true := hne
                unfold liveEvidenceRows at hrows
                rw [if_neg hne₁] at hrows
                cases hrows
              have hlocked : s.lockedLiveClaim claim now = .ok (row,a) :=
                lockedLiveClaim_ok hc ha
                  (by simp [holdsClaim,hlease.2.1,hlive.1,hlive.2.1,hlease.2.2]) hlease.1
                  (by simpa [Option.all_eq_false,Option.any_eq_true] using hlive.2.2) hvalid.1 hev
              obtain ⟨s₂,hadv,hp⟩ := bind_ok hp
              cases advanceCandidateState_eq hadv
              refine Relation.ReflTransGen.trans (.single ?_) (Publication.closes_chain
                (Publication.decide_closes hp) (Changes.modify hc₁ _).after
                (Changes.modify ha₁.after _).after howner hlive.1 hlease.2.1 rfl hm
                (fun hd hhome => hh hd hhome row a hlocked) now)
              apply RowChange.live
              · exact ⟨.modify hc₁ _,rfl,rfl,.refl _,.same rfl rfl rfl rfl rfl rfl,
                  .work claim.attemptId _ _ (.modify ha₁.after _) howner rfl rfl hlease.2.1
                    hlease.2.2.symm rfl (Nat.lt_succ_self _) rfl rfl rfl⟩
              · change row.status.terminal = false
                rw [hlive.1]
                rfl

end Tables

end Memory
end Atlas
