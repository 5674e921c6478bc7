import Atlas.Memory.Automaton

/-! What settling an explicit obligation does: it touches obligations and commands only, never
opens an obligation, and resolves one if the candidate's status is terminal. -/
namespace Atlas
namespace Memory

open RowTable

namespace Tables

theorem setCommandOf_eq (s : Tables) (o : ObligationRow) (f : CommandRow → CommandRow) :
    ∃ commands, s.setCommandOf o f = {s with commands := commands} := by
  unfold setCommandOf
  split
  · exact ⟨s.commands,rfl⟩
  · exact ⟨_,rfl⟩

@[simp] theorem setCommandOf_obligations (s : Tables) (o : ObligationRow)
    (f : CommandRow → CommandRow) : (s.setCommandOf o f).obligations = s.obligations := by
  obtain ⟨_,h⟩ := s.setCommandOf_eq o f
  rw [h]

theorem settle_eq (s : Tables) (c : ℕ) (now : Time) (memoryId : Option ℕ)
    (code resolution : Option String) : ∃ obligations commands,
      s.settleExplicitObligation c now memoryId code resolution =
        {s with obligations := obligations, commands := commands} := by
  unfold settleExplicitObligation
  split
  · split
    · exact ⟨_,_,rfl⟩
    · dsimp only
      split
      · obtain ⟨_,h⟩ := setCommandOf_eq (s.setObligation _ _) _ _
        exact ⟨_,_,h⟩
      · split
        · obtain ⟨_,h⟩ := setCommandOf_eq (setObligation (s.setObligation _ _) _ _) _ _
          exact ⟨_,_,h⟩
        · exact ⟨_,_,rfl⟩
      · split
        · exact ⟨_,_,rfl⟩
        · obtain ⟨_,h⟩ := setCommandOf_eq (s.setObligation _ _) _ _
          exact ⟨_,_,h⟩
  · exact ⟨_,_,rfl⟩

section

variable (s : Tables) (c : ℕ) (now : Time) (memoryId : Option ℕ) (code resolution : Option String)

@[simp] theorem settle_candidates :
    (s.settleExplicitObligation c now memoryId code resolution).candidates = s.candidates := by
  obtain ⟨_,_,h⟩ := s.settle_eq c now memoryId code resolution
  rw [h]

@[simp] theorem settle_evidence :
    (s.settleExplicitObligation c now memoryId code resolution).evidence = s.evidence := by
  obtain ⟨_,_,h⟩ := s.settle_eq c now memoryId code resolution
  rw [h]

@[simp] theorem settle_turns :
    (s.settleExplicitObligation c now memoryId code resolution).turns = s.turns := by
  obtain ⟨_,_,h⟩ := s.settle_eq c now memoryId code resolution
  rw [h]

@[simp] theorem settle_attempts :
    (s.settleExplicitObligation c now memoryId code resolution).attempts = s.attempts := by
  obtain ⟨_,_,h⟩ := s.settle_eq c now memoryId code resolution
  rw [h]

@[simp] theorem settle_nextToken :
    (s.settleExplicitObligation c now memoryId code resolution).nextToken = s.nextToken := by
  obtain ⟨_,_,h⟩ := s.settle_eq c now memoryId code resolution
  rw [h]

@[simp] theorem settle_memories :
    (s.settleExplicitObligation c now memoryId code resolution).memories = s.memories := by
  obtain ⟨_,_,h⟩ := s.settle_eq c now memoryId code resolution
  rw [h]

@[simp] theorem settle_conflicts :
    (s.settleExplicitObligation c now memoryId code resolution).conflicts = s.conflicts := by
  obtain ⟨_,_,h⟩ := s.settle_eq c now memoryId code resolution
  rw [h]

/-- The first pending explicit obligation about a candidate. -/
theorem pendingExplicitObligation_spec {s : Tables} {c id : ℕ}
    (h : s.pendingExplicitObligation c = some id) :
    ∃ o, s.obligations[id]? = some o ∧ o.pendingExplicit c = true :=
  mem_ids.mp (List.mem_of_mem_head? h)

theorem explicitCount_of_none {s : Tables} {c : ℕ} (h : s.pendingExplicitObligation c = none) :
    s.explicitCount c = 0 := countP_eq_zero_of_ids h

/-- Resolving the first pending explicit obligation takes it out of the count. -/
theorem setObligation_resolves {s : Tables} {c id : ℕ}
    (h : s.pendingExplicitObligation c = some id) (f : ObligationRow → ObligationRow)
    (hf : ∀ o, (f o).status = .resolved) :
    (s.setObligation id f).explicitCount c + 1 = s.explicitCount c := by
  obtain ⟨o,ho,hp⟩ := pendingExplicitObligation_spec h
  exact countP_modify_lt ho hp (pendingExplicit_of_resolved (hf o) c)

theorem settle_obligations : ObligationsKept s.obligations
    (s.settleExplicitObligation c now memoryId code resolution).obligations := by
  have hres : ∀ (t : Tables) (id : ℕ) (f : ObligationRow → ObligationRow),
      (∀ o : ObligationRow, o.Resolves (f o)) → ObligationsKept t.obligations (t.setObligation id f).obligations :=
    fun t id f hf => .modify _ _ _ fun o _ => (hf o).keeps
  have hcount : ∀ (t : Tables) (id : ℕ) (f : ObligationRow → ObligationRow),
      (∀ o : ObligationRow, o.Keeps (f o)) → ObligationsKept t.obligations (t.setObligation id f).obligations :=
    fun t id f hf => .modify _ _ _ fun o _ => hf o
  unfold settleExplicitObligation
  split
  · split
    · exact .refl _
    · dsimp only
      split
      · rw [setCommandOf_obligations]
        exact hres s _ _ fun _ => ⟨rfl,fun _ => rfl⟩
      · split
        · rw [setCommandOf_obligations]
          refine (hcount s _ _ fun _ => ?_).trans (hres _ _ _ fun _ => ?_)
          · exact ⟨fun _ => rfl,id⟩
          · exact ⟨rfl,fun _ => rfl⟩
        · exact hcount s _ _ fun _ => ⟨fun _ => rfl,id⟩
      · split
        · exact .refl _
        · rw [setCommandOf_obligations]
          exact hres s _ _ fun _ => ⟨rfl,fun _ => rfl⟩
  · exact .refl _

theorem settle_count_le (d : ℕ) :
    (s.settleExplicitObligation c now memoryId code resolution).explicitCount d ≤
      s.explicitCount d := (s.settle_obligations c now memoryId code resolution).pending d

/-- A terminal candidate has one pending explicit obligation fewer once it is settled. -/
theorem settle_resolves {row : CandidateRow} (hrow : s.candidates[c]? = some row)
    (hterm : row.status.terminal = true) :
    (s.settleExplicitObligation c now memoryId code resolution).explicitCount c ≤
      s.explicitCount c - 1 := by
  cases hp : s.pendingExplicitObligation c with
  | none =>
    have hle := s.settle_count_le c now memoryId code resolution c
    have hz := explicitCount_of_none hp
    omega
  | some id =>
    obtain ⟨o,ho,_⟩ := pendingExplicitObligation_spec hp
    unfold settleExplicitObligation
    simp only [hrow,hp,ho]
    have hone : ∀ f : ObligationRow → ObligationRow, (∀ o, (f o).status = .resolved) →
        (s.setObligation id f).explicitCount c ≤ s.explicitCount c - 1 := by
      intro f hf
      have := setObligation_resolves hp f hf
      omega
    split
    · simp only [explicitCount,setCommandOf_obligations]
      exact hone _ fun _ => rfl
    · next hs => simp [hs,CandidateStatus.terminal,terminalResolution] at hterm
    · split
      · next hn =>
        simp only [CandidateStatus.terminal] at hterm
        simp [Option.or_eq_none_iff.mp hn] at hterm
      · simp only [explicitCount,setCommandOf_obligations]
        exact hone _ fun _ => rfl

theorem settle_frame : Frame s (s.settleExplicitObligation c now memoryId code resolution) :=
  ⟨by simp,by simp,by simpa using TurnsKept.refl _,by simpa using AttemptsKept.refl _,by simp,
    s.settle_obligations c now memoryId code resolution⟩

end

end Tables

section

variable {P : Policy} {s s' s'' : Tables} {c : ℕ} {row row' : CandidateRow}

theorem AttemptEffect.congr (h : AttemptEffect c row row' s s')
    (ha : s''.attempts = s'.attempts) (hn : s''.nextToken = s'.nextToken) :
    AttemptEffect c row row' s s'' := by
  cases h with
  | bump h₁ h₂ h₃ => exact .bump h₁ (ha ▸ h₂) (hn.trans h₃)
  | still h₁ h₂ h₃ h₄ => exact .still h₁ h₂ (ha ▸ h₃) (hn.trans h₄)
  | work i a a' h₁ h₂ h₃ h₄ h₅ h₆ h₇ h₈ h₉ h₁₀ h₁₁ =>
    exact .work i a a' (ha ▸ h₁) h₂ h₃ h₄ h₅ h₆ h₇ h₈ h₉ h₁₀ (hn.trans h₁₁)
  | close i a a' h₁ h₂ h₃ h₄ h₅ h₆ h₇ h₈ h₉ =>
    exact .close i a a' (ha ▸ h₁) h₂ h₃ h₄ h₅ h₆ h₇ h₈ (hn.trans h₉)
  | lease a h₁ h₂ h₃ h₄ h₅ h₆ h₇ h₈ =>
    exact .lease a (ha.trans h₁) h₂ h₃ h₄ h₅ h₆ h₇ (hn.trans h₈)

/-- A change that ends no candidate needs no settlement. -/
theorem RowChange.live (h : RowChange P c row row' s s') (ht : row'.status.terminal = false) :
    Micro P s s' :=
  .write c row row' {h with settled := fun hs => absurd (ht.symm.trans hs) (by decide)}

theorem RowChange.settle (h : RowChange P c row row' s s') (now : Time) (memoryId : Option ℕ)
    (code resolution : Option String) :
    Micro P s (s'.settleExplicitObligation c now memoryId code resolution) :=
  .write c row row'
    { change := by simpa using h.change
      evidence := by simpa using h.evidence
      turns := by simpa using h.turns
      obligations := h.obligations.trans (s'.settle_obligations c now memoryId code resolution)
      columns := h.columns
      attempts := h.attempts.congr (by simp) (by simp)
      settled := fun ht => Or.inr
        ((s'.settle_resolves c now memoryId code resolution h.change.after ht).trans
          (Nat.sub_le_sub_right (h.obligations.pending c) 1)) }

/-- A change of a candidate that had ended before. -/
theorem RowChange.stays (h : RowChange P c row row' s s') (ht : row.status.terminal = true) :
    Micro P s s' :=
  .write c row row' {h with settled := fun _ => Or.inl ht}

/-- A candidate row that gets a new version leaves every open attempt behind. -/
theorem RowChange.bump (hrow : s.candidates[c]? = some row) (f : CandidateRow → CandidateRow)
    (hv : row.stateVersion < (f row).stateVersion) (hm : RowMove P s c row (f row)) :
    RowChange P c row (f row) s (s.setCandidate c f) where
  change := .modify hrow f
  evidence := rfl
  turns := rfl
  obligations := .refl _
  columns := hm
  attempts := .bump hv (.refl _) rfl

end

end Memory
end Atlas
