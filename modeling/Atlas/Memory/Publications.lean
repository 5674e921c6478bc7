import Atlas.Memory.Transitions

/-! What a publication does to its claim: nothing without the fence, nothing but closing the
attempt once the lease has expired, and otherwise one ending of its own candidate. -/
namespace Atlas
namespace Memory

open RowTable

/-- A publication that ended its attempt. -/
structure Ends (s s' : Tables) (claim : CandidateLease) (row : CandidateRow) : Prop where
  others : ∀ j, j ≠ claim.candidateId → s'.candidates[j]? = s.candidates[j]?
  row : ∃ row', s'.candidates[claim.candidateId]? = some row' ∧ (row'.status.published = true ∨
    row'.status = .invalidated ∧ s.evidenceLive claim.candidateId row = false)
  closed : ∃ a', s'.attempts[claim.attemptId]? = some a' ∧ a'.completedAt ≠ none

/-- How a publication under the fence ends its candidate and its attempt. -/
structure Ending (s s' : Tables) (claim : CandidateLease) (row row' : CandidateRow)
    (a a' : AttemptRow) : Prop where
  candidate : Changes s.candidates s'.candidates claim.candidateId row row'
  attempt : Changes s.attempts s'.attempts claim.attemptId a a'
  owner : a'.candidateId = a.candidateId
  closed : a'.completedAt ≠ none
  outcome : (row'.status.published = true ∧ row'.stateVersion = row.stateVersion + 1) ∨
    (row'.status = .invalidated ∧ s.evidenceLive claim.candidateId row = false)

theorem Ending.ends {s s' : Tables} {claim : CandidateLease} {row row' : CandidateRow}
    {a a' : AttemptRow} (h : Ending s s' claim row row' a a') : Ends s s' claim row where
  others := h.candidate.others
  row := ⟨row',h.candidate.after,h.outcome.imp_left And.left⟩
  closed := ⟨a',h.attempt.after,h.closed⟩

namespace Tables

variable {s s' : Tables} {claim : CandidateLease} {row : CandidateRow} {a : AttemptRow}

/-- An open attempt at its candidate's version holds the fence. -/
theorem fence_of_open (hv : Versioned s) (hi : Issued s claim)
    (hc : s.candidates[claim.candidateId]? = some row) (ha : s.attempts[claim.attemptId]? = some a)
    (ho : a.completedAt = none) (hver : row.stateVersion = a.candidateStateVersion) :
    Fence s claim row a := by
  obtain ⟨hid,ht⟩ := hi.owner ha
  obtain ⟨hs,htk⟩ := (hv.opened _ a row ha (hid ▸ hc) ho).2 hver.symm
  exact ⟨hc,ha,hs,ht ▸ htk,ho,hver⟩

/-- Candidates that can still be reconciled have their payload. -/
theorem payload_of_reconcilable (h : s.consistent = true) {c : ℕ}
    (hrow : s.candidates[c]? = some row) (hr : row.status.reconcilable = true) :
    row.content ≠ none ∧ row.fingerprint ≠ none := by
  simp only [consistent,Bool.and_eq_true,List.all_eq_true] at h
  have := h.1.1.1.1.1.1.1.2 row (List.mem_of_getElem? hrow)
  simp only [hr,Bool.not_true,Bool.false_or,Bool.and_eq_true] at this
  exact ⟨Option.isSome_iff_ne_none.mp this.1,Option.isSome_iff_ne_none.mp this.2⟩

/-- The ending of a publication whose lease holds. -/
theorem closes_ends {p : Publication} {r : Tables × Published} (h : p.Closes s r)
    (hc : s.candidates[p.candidateId]? = some row) (ha : s.attempts[p.attemptId]? = some a) :
    ∃ row' a', Changes s.candidates r.1.candidates p.candidateId row row' ∧
      Changes s.attempts r.1.attempts p.attemptId a a' ∧ a'.candidateId = a.candidateId ∧
      a'.completedAt ≠ none ∧ row'.status.published = true ∧
      row'.stateVersion = row.stateVersion := by
  obtain ⟨s₀,f,status,attempted,target,result,hq,hr,hf⟩ := h
  have hcand := Changes.modify (hq.candidates ▸ hc : s₀.candidates[p.candidateId]? = some row)
    fun row => f {row with leaseToken := none, leasedUntil := none}
  have hatt := Changes.modify (hq.attempts ▸ ha : s₀.attempts[p.attemptId]? = some a) fun a => {a with
    status := attempted
    completedAt := some p.now
    targetMemoryId := target.or a.targetMemoryId
    resultJson := result}
  rw [hr]
  refine ⟨_,_,⟨hc,hcand.after,fun j hj => ?_⟩,⟨ha,hatt.after,fun j hj => ?_⟩,rfl,
    Option.some_ne_none p.now,?_,hf.version _⟩
  · rw [← hq.candidates]
    exact hcand.others j hj
  · rw [← hq.attempts]
    exact hatt.others j hj
  · rw [hf.status]
    exact hf.published

theorem evidenceLive_of_nil {c : ℕ} (h : s.liveEvidenceRows c row = []) : s.evidenceLive c row = false := by
  by_contra hl
  have hl : s.evidenceLive c row = true := by simpa using hl
  unfold liveEvidenceRows at h
  rw [if_pos hl] at h
  simp only [evidenceLive,Bool.and_eq_true,Bool.not_eq_true'] at hl
  have hne : s.evidenceOf c ≠ [] := by
    intro hnil
    rw [hnil] at hl
    simp at hl
  have hlen := (List.perm_insertionSort (fun a b : EvidenceRow => a.ordinal ≤ b.ordinal)
    (s.evidenceOf c)).length_eq
  rw [h] at hlen
  exact hne (List.length_eq_zero_iff.mp hlen.symm)

/-- A publication changes nothing without the fence, closes its attempt once the lease has
expired, and ends its candidate otherwise. -/
theorem publishAndSettle_ending [PyRuntime] {config : PublisherConfig} {snapshot : EvaluationSnapshot}
    {decision : ReconciliationDecision} {operationId : OperationId} {now : Time} {pub : Published}
    (hs : Sound s) (hi : Issued s claim)
    (h : s.publishAndSettle config claim snapshot decision operationId now = .ok (s',pub)) :
    s' = s ∨ ∃ row a, Fence s claim row a ∧
      ((row.leasedUntil.any (now < ·) = false ∧ ∃ attempts, s' = {s with attempts := attempts}) ∨
        (row.leasedUntil.any (now < ·) = true ∧ ∃ row' a', Ending s s' claim row row' a a')) := by
  obtain ⟨r,hp,hr⟩ := map_ok h
  have hs' : s' = if r.2.outcome.terminal then
      r.1.settleExplicitObligation claim.candidateId now r.2.memoryId r.2.code none else r.1 := by
    split at hr <;> cases hr <;> simp_all
  have hends : ∀ {row row' a a'}, Ending s r.1 claim row row' a a' →
      Ending s s' claim row row' a a' := by
    intro row row' a a' he
    rw [hs']
    split
    · exact ⟨by simpa using he.candidate,by simpa using he.attempt,he.owner,he.closed,he.outcome⟩
    · exact he
  unfold publishMutate at hp
  split at hp
  · cases hp
  · next a ha =>
    extract_lets candidate s₁ close at hp
    have hc : s.candidates[claim.candidateId]? = candidate := rfl
    clear_value candidate
    split at hp
    · cases hp
      exact Or.inl hs'
    · next hmis =>
      right
      obtain ⟨row,hrow⟩ := Option.isSome_iff_exists.mp (hs.versioned.owned _ a ha)
      rw [(hi.owner ha).1,hc] at hrow
      subst hrow
      have hlease := leaseMismatch_spec (by simpa using hmis)
      have hf := fence_of_open hs.versioned hi hc ha hlease.2.1 hlease.2.2
      have hpay := payload_of_reconcilable hs.consistent hc (by rw [hf.status]; rfl)
      have ha₁ := Changes.modify ha fun a => {a with
        operationId := some operationId
        semanticDecision := some decision.decision.value
        targetMemoryId := decision.targetMemoryId}
      refine ⟨row,a,hf,?_⟩
      dsimp only at hp
      split at hp
      · next hinvalid =>
        simp [hs.versioned.leased _ row hc hf.status,hpay,hf.status] at hinvalid
      · split at hp
        · next hexp =>
          simp only [hf.status,hf.token,ne_eq,not_true_eq_false,false_or] at hexp
          cases hp
          refine Or.inl ⟨?_,_,hs'⟩
          cases hu : row.leasedUntil <;> simp_all
        · next hlive =>
          simp only [not_or,not_not] at hlive
          refine Or.inr ⟨by simpa [Option.all_eq_false,Option.any_eq_true] using hlive.2.2,?_⟩
          split at hp
          · next hrows =>
            cases hp
            exact ⟨_,_,hends
              { candidate := .modify hc _
                attempt := ha₁.trans (.modify ha₁.after _)
                owner := rfl
                closed := Option.some_ne_none now
                outcome := Or.inr ⟨rfl,evidenceLive_of_nil hrows⟩ }⟩
          · obtain ⟨s₂,hadv,hp⟩ := bind_ok hp
            cases advanceCandidateState_eq hadv
            have hcand := Changes.modify hc fun r => {r with stateVersion := row.stateVersion + 1}
            have hatt := ha₁.trans (.modify ha₁.after fun a => {a with
              candidateStateVersion := row.stateVersion + 1})
            obtain ⟨row',a',hcand',hatt',howner,hclosed,hpub,hver⟩ :=
              closes_ends (Publication.decide_closes hp) hcand.after hatt.after
            exact ⟨row',a',hends
              { candidate := hcand.trans hcand'
                attempt := hatt.trans hatt'
                owner := howner
                closed := hclosed
                outcome := Or.inl ⟨hpub,hver⟩ }⟩

theorem publishAndSettle_ends [PyRuntime] {config : PublisherConfig} {snapshot : EvaluationSnapshot}
    {decision : ReconciliationDecision} {operationId : OperationId} {now : Time} {pub : Published}
    (hs : Sound s) (hi : Issued s claim)
    (h : s.publishAndSettle config claim snapshot decision operationId now = .ok (s',pub)) :
    s' = s ∨ ∃ row a, Fence s claim row a ∧
      ((row.leasedUntil.any (now < ·) = false ∧ ∃ attempts, s' = {s with attempts := attempts}) ∨
        (row.leasedUntil.any (now < ·) = true ∧ Ends s s' claim row)) := by
  rcases publishAndSettle_ending hs hi h with he | ⟨row,a,hf,he | ⟨hl,row',a',he⟩⟩
  · exact Or.inl he
  · exact Or.inr ⟨row,a,hf,Or.inl he⟩
  · exact Or.inr ⟨row,a,hf,Or.inr ⟨hl,he.ends⟩⟩

end Tables

/-- A publication leaves the store alone or commits its mutation. -/
theorem publish_cases [PyRuntime] (w : State) (config : PublisherConfig) (claim : CandidateLease)
    (snapshot : EvaluationSnapshot) (decision : ReconciliationDecision) (operationId : OperationId)
    (now : Time) :
    (publish w config claim snapshot decision operationId now).world.data = w.data ∨
      ∃ pub, w.data.publishAndSettle config.clamped claim snapshot decision operationId now =
        .ok ((publish w config claim snapshot decision operationId now).world.data,pub) := by
  rcases execute_data w (publishEnvelope claim snapshot decision operationId) _ with he | ⟨outcome,he⟩
  · exact Or.inl he
  · right
    obtain ⟨⟨s,pub⟩,hc,he⟩ := map_ok he
    obtain ⟨⟨s₂,pub₂⟩,hp,hr⟩ := bind_ok hc
    split at hr
    · cases hr
      refine ⟨pub,?_⟩
      rw [hp]
      exact congrArg (fun s => Except.ok (s,pub)) (congrArg Prod.snd he)
    · cases hr

end Memory
end Atlas
