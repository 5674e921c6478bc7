import Atlas.Memory.Settling

/-! The phases of `claim_batch` as runs of the candidate automaton. -/
namespace Atlas
namespace Memory

open RowTable

/-- The policy of operations that need no permission beyond their status changes. -/
def strict (moves : CandidateStatus → CandidateStatus → Prop) : Policy := ⟨moves,True,True⟩

theorem Chain.of_strict {P : Policy} {s s' : Tables} (h : Chain (strict P.moves) s s') :
    Chain P s s' :=
  @Chain.mono (strict P.moves) P (fun _ _ hm => hm) (fun _ => trivial) (fun _ => trivial) s s' h

/-- A loop over candidates, each named once, whose rounds touch no other candidate. -/
theorem Chain.foldl {β : Type*} {P : Policy} {f : Tables → β → Tables} {k : β → ℕ}
    {Q : β → CandidateRow → Prop} (l : List β) (hl : (l.map k).Nodup)
    (hstep : ∀ t, ∀ b ∈ l, ∀ row, t.candidates[k b]? = some row → Q b row → Chain P t (f t b))
    (hframe : ∀ t, ∀ b ∈ l, ∀ j, j ≠ k b → (f t b).candidates[j]? = t.candidates[j]?)
    {s : Tables} (hq : ∀ b ∈ l, ∃ row, s.candidates[k b]? = some row ∧ Q b row) :
    Chain P s (l.foldl f s) :=
  Trace.foldl_keyed (g := fun t c => t.candidates[c]?)
    (Q := fun b o => ∃ row, o = some row ∧ Q b row) (fun _ => .refl) .trans l hl
    (fun t b hb ⟨row,hrow,hr⟩ => hstep t b hb row hrow hr) hframe hq

/-- A loop whose rounds need nothing. -/
theorem Chain.foldl_all {β : Type*} {P : Policy} {f : Tables → β → Tables} (l : List β)
    (hstep : ∀ t b, Chain P t (f t b)) (s : Tables) : Chain P s (l.foldl f s) :=
  Trace.foldl_rel (fun _ => .refl) .trans l hstep s

namespace Tables

variable {P : Policy}

theorem closeStaleAttempts_frame (s : Tables) (c : ℕ) (now : Time) (status : String) :
    Frame s (s.closeStaleAttempts c now status) := by
  refine ⟨rfl,rfl,.refl _,.map _ _ fun a => ?_,rfl,.refl _⟩
  split
  · exact ⟨rfl,rfl,fun hn => by simp [closeAttempt] at hn⟩
  · exact ⟨rfl,rfl,fun hn => ⟨hn,rfl⟩⟩

/-- A candidate whose row is bumped to an ending that is not an invalidation. -/
theorem ended_chain {s : Tables} {c : ℕ} {row : CandidateRow} {f : CandidateRow → CandidateRow}
    (hrow : s.candidates[c]? = some row) (hm : RowMove P s c row (f row))
    (hv : (f row).stateVersion = row.stateVersion + 1) (now : Time) (code resolution : Option String) :
    Chain P s ((s.setCandidate c f).settleExplicitObligation c now none code resolution) :=
  .single ((RowChange.bump hrow f (by omega) hm).settle now none code resolution)

theorem expireAwaiting_chain (hm : P.moves .awaitingOwner .expired) (s : Tables) (now : Time)
    (c : ℕ) (decision : DecisionJson) (clear : CandidateRow → CandidateRow)
    (hclear : clear = CandidateRow.cleared ∨ clear = id) :
    Chain P s (s.expireAwaiting now c decision clear) := by
  unfold expireAwaiting
  split
  · exact .refl
  · next row hrow =>
    split
    · exact .refl
    · next hs =>
      have hs : row.status = .awaitingOwner := not_not.mp hs
      refine ended_chain hrow ?_ rfl now _ _
      rcases hclear with rfl | rfl <;>
        exact .leave (by simp [hs]) (by rw [hs]; exact hm) (by simp) rfl rfl rfl (by
          simp [CandidateStatus.queued])

theorem expireObligation_chain (hm : P.moves .awaitingOwner .expired) (now : Time) (s : Tables)
    (id : ℕ) : Chain P s (expireObligation now s id) := by
  unfold expireObligation
  split
  · exact .refl
  · next o ho =>
    have hframe := Frame.setObligation s id (fun o => {o with
      status := .resolved
      resolutionCode := some "expired_unconfirmed"
      resolutionJson := {}
      resolvedAt := some now}) fun _ _ => ObligationRow.Resolves.keeps ⟨rfl,fun _ => rfl⟩
    refine hframe.chain.trans ?_
    dsimp only
    split
    · exact expireAwaiting_chain hm _ now _ _ _ (Or.inl rfl)
    · split
      · exact .refl
      · split
        · exact .refl
        · exact (Frame.setConflict _ _ _).chain.trans
            (expireAwaiting_chain hm _ now _ _ _ (Or.inr rfl))
    · exact .refl

theorem expireDueObligations_chain (hm : P.moves .awaitingOwner .expired) (s : Tables) (now : Time)
    (locks : RowLocks) : Chain P s (s.expireDueObligations now locks) :=
  Chain.foldl_all _ (fun t id => expireObligation_chain hm now t id) s

theorem setCandidate_settle_frame (s : Tables) (c : ℕ) (f : CandidateRow → CandidateRow) (now : Time)
    (memoryId : Option ℕ) (code resolution : Option String) {j : ℕ} (h : j ≠ c) :
    ((s.setCandidate c f).settleExplicitObligation c now memoryId code resolution).candidates[j]? =
      s.candidates[j]? := by
  rw [settle_candidates]
  exact getElem?_modify_ne s.candidates f (Ne.symm h)

theorem expireRetained_phase (hm : P.moves .retainedShortTerm .expired) (s : Tables) (now : Time)
    (locks : RowLocks) : Chain P s ((s.expiredRows now locks).foldl (expireRetained now) s) := by
  refine Chain.foldl (k := fun id => id) (Q := fun _ row => row.status = .retainedShortTerm) _ ?_
    ?_ ?_ ?_
  · rw [List.map_id']
    exact (nodup_ids _ s.candidates).filter _
  · intro t c _ row hrow hs
    refine ended_chain hrow ?_ rfl now _ _
    exact .leave (by simp [hs]) (by rw [hs]; exact hm) (by simp) rfl rfl rfl (by
      simp [CandidateStatus.queued])
  · intro t c _ j hj
    exact setCandidate_settle_frame t c _ now none _ _ hj
  · intro c hc
    obtain ⟨row,hrow,hp⟩ := mem_ids.mp (List.mem_filter.mp hc).1
    simp only [Bool.and_eq_true,beq_iff_eq] at hp
    exact ⟨row,hrow,hp.1⟩

theorem failExhausted_phase (hm : ∀ a, a = .pending ∨ a = .leased → P.moves a .failed) (s : Tables)
    (config : LeaseConfig) (now : Time) (locks : RowLocks) :
    Chain P s ((s.exhaustedRows config now locks).foldl (failExhausted now) s) := by
  refine Chain.foldl (k := fun id => id)
    (Q := fun _ row => row.status = .pending ∨ row.status = .leased) _ ?_ ?_ ?_ ?_
  · rw [List.map_id']
    exact (nodup_ids _ s.candidates).filter _
  · intro t c _ row hrow hs
    have hrow' : (t.closeStaleAttempts c now "attempt_limit").candidates[c]? = some row := hrow
    refine (closeStaleAttempts_frame t c now "attempt_limit").chain.trans ?_
    refine ended_chain hrow' ?_ rfl now _ _
    exact .leave (by rcases hs with hs | hs <;> simp [hs]) (hm _ hs) (by simp) rfl rfl rfl (by
      simp [CandidateStatus.queued])
  · intro t c _ j hj
    exact setCandidate_settle_frame _ c _ now none _ _ hj
  · intro c hc
    obtain ⟨row,hrow,hp⟩ := mem_ids.mp (List.mem_filter.mp hc).1
    simp only [Bool.and_eq_true,Bool.or_eq_true,beq_iff_eq] at hp
    exact ⟨row,hrow,hp.1.elim (fun h => Or.inr h.1) Or.inl⟩

theorem eligible_spec {config : LeaseConfig} {now : Time} {row : CandidateRow}
    (h : eligible config now row = true) : row.status.queued = true ∧ row.invalidatedAt = none := by
  simp only [eligible,Bool.and_eq_true,Bool.or_eq_true,beq_iff_eq,Option.isNone_iff_eq_none] at h
  refine ⟨?_,h.1.1.2⟩
  rcases h.1.1.1 with (h | h) | h <;> simp [h,CandidateStatus.queued]

theorem invalidateUnavailable_chain (hm : ∀ a, a.queued = true → P.moves a .invalidated) {s : Tables}
    {c : ℕ} {row : CandidateRow} (hrow : s.candidates[c]? = some row)
    (hs : row.status.queued = true) (now : Time) : Chain P s (s.invalidateUnavailable now c) := by
  have hrow' : (s.closeStaleAttempts c now "evidence_unavailable").candidates[c]? = some row := hrow
  refine (closeStaleAttempts_frame s c now "evidence_unavailable").chain.trans ?_
  refine ended_chain hrow' ?_ rfl now _ _
  exact .invalidate rfl (Or.inr (hm _ hs)) (fun hc => hc) (by simp) rfl rfl

theorem leaseCandidate_chain (hm : ∀ a, a.queued = true → P.moves a .leased) (config : LeaseConfig)
    (now : Time) {s : Tables} {c : ℕ} {row : CandidateRow} (hrow : s.candidates[c]? = some row)
    (hs : row.status.queued = true) (hi : row.invalidatedAt = none) :
    Chain P s (s.leaseCandidate config now c row).1 := by
  unfold leaseCandidate
  extract_lets s₁ number token attempt s₂
  have hframe : Frame s s₁ := by
    dsimp only [s₁]
    split
    · exact closeStaleAttempts_frame s c now "lease_expired"
    · exact .refl s
  refine hframe.chain.trans (.single ?_)
  refine RowChange.live (c := c) ⟨.modify (hframe.candidates ▸ hrow) _,rfl,rfl,.refl _,?_,?_⟩
    ?_
  · exact
      { move := Or.inr (hm _ hs)
        transcript := rfl
        hash := rfl
        payload := fun _ hv => by rw [hv] at hs; cases hs
        stamped := id
        stamp := Or.inl
        leased := fun _ => Or.inr hi
        assertion := fun _ => Or.inl ⟨hs,rfl⟩ }
  · exact .lease attempt rfl rfl rfl rfl (Nat.lt_succ_self _) rfl rfl rfl
  · rfl

theorem claimRow_chain (hl : ∀ a, a.queued = true → P.moves a .leased)
    (hv : ∀ a, a.queued = true → P.moves a .invalidated) (config : LeaseConfig) (now : Time)
    {s : Tables} {c : ℕ} {row : CandidateRow} (hrow : s.candidates[c]? = some row)
    (he : eligible config now row = true) : Chain P s (s.claimRow config now c).1 := by
  obtain ⟨hs,hi⟩ := eligible_spec he
  simp only [claimRow,hrow]
  split
  · exact leaseCandidate_chain hl config now hrow hs hi
  · exact invalidateUnavailable_chain hv hrow hs now

theorem claimRow_frame (config : LeaseConfig) (now : Time) (s : Tables) (c : ℕ) {j : ℕ}
    (h : j ≠ c) : (s.claimRow config now c).1.candidates[j]? = s.candidates[j]? := by
  unfold claimRow
  split
  · rfl
  · split
    · simp only [leaseCandidate,setCandidate]
      rw [getElem?_modify_ne _ _ (Ne.symm h)]
      split <;> rfl
    · exact setCandidate_settle_frame _ c _ now none _ _ h

theorem claimRows_fst (config : LeaseConfig) (now : Time) (s : Tables) (rows : List ℕ) :
    (s.claimRows config now rows).1 = rows.foldl (fun s id => (s.claimRow config now id).1) s := by
  have h : ∀ (p : Tables × List CandidateLease), (rows.foldl (fun p id =>
      let r := p.1.claimRow config now id
      (r.1,p.2 ++ r.2.toList)) p).1 = rows.foldl (fun s id => (s.claimRow config now id).1) p.1 := by
    induction rows with
    | nil => exact fun _ => rfl
    | cons i rows ih => exact fun p => ih _
  exact h (s,[])

theorem eligibleRows_spec {s : Tables} {config : LeaseConfig} {now : Time} {locks : RowLocks}
    {limit c : ℕ} (h : c ∈ s.eligibleRows config now locks limit) :
    ∃ row, s.candidates[c]? = some row ∧ eligible config now row = true :=
  mem_ids.mp (List.mem_filter.mp (List.mem_of_mem_take h)).1

theorem nodup_eligibleRows (s : Tables) (config : LeaseConfig) (now : Time) (locks : RowLocks)
    (limit : ℕ) : (s.eligibleRows config now locks limit).Nodup :=
  ((nodup_ids _ s.candidates).filter _).sublist (List.take_sublist _ _)

theorem claimRows_phase (hl : ∀ a, a.queued = true → P.moves a .leased)
    (hv : ∀ a, a.queued = true → P.moves a .invalidated) (s : Tables) (config : LeaseConfig)
    (now : Time) (locks : RowLocks) (limit : ℕ) :
    Chain P s (s.claimRows config now (s.eligibleRows config now locks limit)).1 := by
  rw [claimRows_fst]
  refine Chain.foldl (k := fun id => id) (Q := fun _ row => eligible config now row = true) _ ?_
    ?_ ?_ fun c hc => eligibleRows_spec hc
  · rw [List.map_id']
    exact s.nodup_eligibleRows config now locks limit
  · exact fun t c _ row hrow he => claimRow_chain hl hv config now hrow he
  · exact fun t c _ j hj => claimRow_frame config now t c hj

/-- The store before each phase of `claim_batch`. -/
def expiredObligations (s : Tables) (locks : RowLocks) (now : Time) : Tables :=
  s.expireDueObligations now locks

def expiredRetention (s : Tables) (locks : RowLocks) (now : Time) : Tables :=
  let s := s.expiredObligations locks now
  (s.expiredRows now locks).foldl (expireRetained now) s

def exhausted (s : Tables) (config : LeaseConfig) (locks : RowLocks) (now : Time) : Tables :=
  let s := s.expiredRetention locks now
  (s.exhaustedRows config.clamped now locks).foldl (failExhausted now) s

theorem claimBatch_fst (s : Tables) (config : LeaseConfig) (limit : ℕ) (locks : RowLocks)
    (now : Time) : (s.claimBatch config limit locks now).1 =
      ((s.exhausted config locks now).claimRows config.clamped now
        ((s.exhausted config locks now).eligibleRows config.clamped now locks limit)).1 := rfl

theorem claimBatch_chain (he : P.moves .awaitingOwner .expired)
    (hr : P.moves .retainedShortTerm .expired)
    (hf : ∀ a, a = .pending ∨ a = .leased → P.moves a .failed)
    (hl : ∀ a, a.queued = true → P.moves a .leased)
    (hv : ∀ a, a.queued = true → P.moves a .invalidated) (s : Tables) (config : LeaseConfig)
    (limit : ℕ) (locks : RowLocks) (now : Time) :
    Chain P s (s.claimBatch config limit locks now).1 :=
  (((expireDueObligations_chain he s now locks).trans (expireRetained_phase hr _ now locks)).trans
    (failExhausted_phase hf _ config.clamped now locks)).trans
      (claimRows_phase hl hv _ config.clamped now locks limit)

end Tables

end Memory
end Atlas
