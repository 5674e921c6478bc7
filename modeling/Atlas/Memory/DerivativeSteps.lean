import Atlas.Memory.LedgerCommands

/-! The derivatives of a candidate: its attempts, readings, comparisons, records and conflicts,
and the obligations about it. No operation writes the text of one whose candidate is not held
by a worker, and those that are blank stay so. -/
namespace Atlas
namespace Memory

open RowTable

/-- A tombstoned reading without its text. -/
def ReadingRow.Blank (r : ReadingRow) : Prop :=
  (r.extractedClaims = [] ∧ r.category = none ∧ r.scope = none ∧ r.durability = none ∧
    r.eventValidFrom = none ∧ r.eventValidTo = none) ∧ r.tombstonedAt ≠ none

def ComparisonRow.Blank (r : ComparisonRow) : Prop :=
  (r.normalizedContent = none ∧ r.category = none ∧ r.scope = none ∧ r.durability = none) ∧
    r.tombstonedAt ≠ none

def ReconciliationRecordRow.Blank (r : ReconciliationRecordRow) : Prop :=
  r.replacementContent = none ∧ r.tombstonedAt ≠ none

def ConflictRow.Blank (k : ConflictRow) : Prop :=
  k.proposedContent = none ∧ k.status = "evidence_purged" ∧ k.tombstonedAt ≠ none

/-- A tombstoned conflict can no longer be decided. -/
theorem ConflictRow.Blank.not_resolvable {k : ConflictRow} (h : k.Blank) : k.resolvable = false := by
  simp [ConflictRow.resolvable,h.2.1]

namespace Tables

/-- An obligation about a candidate, or about a conflict of it. -/
def About (s : Tables) (c : ℕ) (o : ObligationRow) : Prop :=
  (o.subjectType = .memoryCandidate ∧ o.subjectId = some c) ∨
    (o.subjectType = .memoryConflict ∧ ∃ id, o.subjectId = some id ∧
      ∃ k, s.conflicts[id]? = some k ∧ k.candidateId = c)

/-- Every derivative of a candidate is closed, or tombstoned without its text. -/
structure Blanked (s : Tables) (c : ℕ) : Prop where
  attempts : ∀ a ∈ s.attempts, a.candidateId = c → a.completedAt ≠ none
  readings : ∀ r ∈ s.readings, r.candidateId = c → r.Blank
  comparisons : ∀ r ∈ s.comparisons, r.candidateId = c → r.Blank
  records : ∀ r ∈ s.records, r.candidateId = c → r.Blank
  conflicts : ∀ k ∈ s.conflicts, k.candidateId = c → k.Blank
  obligations : ∀ o ∈ s.obligations, s.About c o → o.status ≠ .pending

end Tables

/-- No text about a candidate is added, and no conflict or obligation about it comes to life. -/
structure Dormant (c : ℕ) (s s' : Tables) : Prop where
  readings : ∀ r ∈ s'.readings, r.candidateId = c → r ∈ s.readings ∨ r.Blank
  comparisons : ∀ r ∈ s'.comparisons, r.candidateId = c → r ∈ s.comparisons ∨ r.Blank
  records : ∀ r ∈ s'.records, r.candidateId = c → r ∈ s.records ∨ r.Blank
  conflicts : ∀ (i : ℕ) (k' : ConflictRow), s'.conflicts[i]? = some k' → k'.candidateId = c →
    ∃ k, s.conflicts[i]? = some k ∧ k.candidateId = c ∧ (k' = k ∨ k'.Blank ∨ k.resolvable = true)
  obligations : ∀ o' ∈ s'.obligations, s'.About c o' → o'.status = .pending →
    ∃ o ∈ s.obligations, s.About c o ∧ o.status = .pending

namespace Dormant

variable {c : ℕ} {s s' s'' : Tables}

theorem trans (h : Dormant c s s') (h' : Dormant c s' s'') : Dormant c s s'' where
  readings r hr hc := (h'.readings r hr hc).elim (fun hr' => h.readings r hr' hc) Or.inr
  comparisons r hr hc := (h'.comparisons r hr hc).elim (fun hr' => h.comparisons r hr' hc) Or.inr
  records r hr hc := (h'.records r hr hc).elim (fun hr' => h.records r hr' hc) Or.inr
  conflicts i k'' hk'' hc := by
    obtain ⟨k',hk',hc',h₂⟩ := h'.conflicts i k'' hk'' hc
    obtain ⟨k,hk,hck,h₁⟩ := h.conflicts i k' hk' hc'
    refine ⟨k,hk,hck,?_⟩
    rcases h₂ with rfl | hb | hr
    · exact h₁
    · exact Or.inr (Or.inl hb)
    · rcases h₁ with rfl | hb | hr'
      · exact Or.inr (Or.inr hr)
      · rw [hb.not_resolvable] at hr
        cases hr
      · exact Or.inr (Or.inr hr')
  obligations o'' ho'' ha hp := by
    obtain ⟨o',ho',ha',hp'⟩ := h'.obligations o'' ho'' ha hp
    exact h.obligations o' ho' ha' hp'

theorem about_congr (h : s'.conflicts = s.conflicts) {o o' : ObligationRow}
    (hs : o'.subjectType = o.subjectType ∧ o'.subjectId = o.subjectId) (ha : s'.About c o') :
    s.About c o := by
  unfold Tables.About at ha ⊢
  rwa [h,hs.1,hs.2] at ha

/-- The obligations change without coming to life. -/
theorem of_obligations (h : s'.shelf = s.shelf)
    (ho : ∀ o' ∈ s'.obligations, s'.About c o' → ∃ o ∈ s.obligations,
      (o'.subjectType = o.subjectType ∧ o'.subjectId = o.subjectId) ∧
        (o'.status = .pending → o.status = .pending)) : Dormant c s s' := by
  simp only [Tables.shelf,Prod.mk.injEq] at h
  exact
    { readings := fun r hr _ => Or.inl (h.1 ▸ hr)
      comparisons := fun r hr _ => Or.inl (h.2.1 ▸ hr)
      records := fun r hr _ => Or.inl (h.2.2.1 ▸ hr)
      conflicts := fun i k' hk' hc => ⟨k',h.2.2.2 ▸ hk',hc,Or.inl rfl⟩
      obligations := fun o' ho' ha hp => by
        obtain ⟨o,hmem,hs,hpend⟩ := ho o' ho' ha
        exact ⟨o,hmem,about_congr h.2.2.2 hs ha,hpend hp⟩ }

theorem of_eq (h : s'.docket = s.docket) : Dormant c s s' := by
  simp only [Tables.docket,Prod.mk.injEq] at h
  exact of_obligations h.1 fun o' ho' _ => ⟨o',h.2 ▸ ho',⟨rfl,rfl⟩,id⟩

theorem refl (s : Tables) : Dormant c s s := of_eq rfl

theorem setObligation (s : Tables) (id : ℕ) (f : ObligationRow → ObligationRow)
    (hf : ∀ o, ((f o).subjectType = o.subjectType ∧ (f o).subjectId = o.subjectId) ∧
      ((f o).status = .pending → o.status = .pending)) : Dormant c s (s.setObligation id f) :=
  of_obligations rfl fun o' ho' _ => by
    rcases mem_modify ho' with ho' | ⟨o,ho,rfl⟩
    · exact ⟨o',ho',⟨rfl,rfl⟩,fun hp => hp⟩
    · exact ⟨o,List.mem_of_getElem? ho,hf o⟩

/-- A new obligation that is about something else. -/
theorem addObligation {o : ObligationRow} (h : s'.shelf = s.shelf)
    (ho : s'.obligations = s.obligations ++ [o]) (hne : ¬s'.About c o) : Dormant c s s' := by
  refine of_obligations h fun o' ho' ha => ?_
  rw [ho] at ho'
  rcases List.mem_append.mp ho' with ho' | ho'
  · exact ⟨o',ho',⟨rfl,rfl⟩,id⟩
  · cases List.mem_singleton.mp ho'
    exact absurd ha hne

/-- A conflict that was open or expired is decided. -/
theorem setConflict (s : Tables) (id : ℕ) (f : ConflictRow → ConflictRow)
    (hf : ∀ k, s.conflicts[id]? = some k → k.resolvable = true)
    (hc : ∀ k, (f k).candidateId = k.candidateId) : Dormant c s (s.setConflict id f) := by
  have hconf : ∀ (i : ℕ) (k' : ConflictRow), (s.setConflict id f).conflicts[i]? = some k' →
      ∃ k, s.conflicts[i]? = some k ∧ k'.candidateId = k.candidateId ∧
        (k' = k ∨ k'.Blank ∨ k.resolvable = true) := by
    intro i k' hk'
    unfold Tables.setConflict at hk'
    dsimp only at hk'
    by_cases hi : id = i
    · subst hi
      rw [getElem?_modify_self] at hk'
      obtain ⟨k,hk,rfl⟩ := Option.map_eq_some_iff.mp hk'
      exact ⟨k,hk,hc k,Or.inr (Or.inr (hf k hk))⟩
    · rw [getElem?_modify_ne _ _ hi] at hk'
      exact ⟨k',hk',rfl,Or.inl rfl⟩
  exact
    { readings := fun r hr _ => Or.inl hr
      comparisons := fun r hr _ => Or.inl hr
      records := fun r hr _ => Or.inl hr
      conflicts := fun i k' hk' hck => by
        obtain ⟨k,hk,he,ho⟩ := hconf i k' hk'
        exact ⟨k,hk,he ▸ hck,ho⟩
      obligations := fun o' ho' ha hp => ⟨o',ho',ha.imp_right fun ⟨ht,i,hi,k',hk',hck⟩ => by
        obtain ⟨k,hk,he,_⟩ := hconf i k' hk'
        exact ⟨ht,i,hi,k,hk,he ▸ hck⟩,hp⟩ }

/-- A candidate whose derivatives are blank keeps them so, its attempts apart. -/
theorem blanked (h : Dormant c s s') (hb : s.Blanked c)
    (ha : ∀ a ∈ s'.attempts, a.candidateId = c → a.completedAt ≠ none) : s'.Blanked c where
  attempts := ha
  readings r hr hc := (h.readings r hr hc).elim (fun hr' => hb.readings r hr' hc) id
  comparisons r hr hc := (h.comparisons r hr hc).elim (fun hr' => hb.comparisons r hr' hc) id
  records r hr hc := (h.records r hr hc).elim (fun hr' => hb.records r hr' hc) id
  conflicts k' hk' hc := by
    obtain ⟨i,hi⟩ := List.mem_iff_getElem?.mp hk'
    obtain ⟨k,hk,hck,rfl | hblank | hr⟩ := h.conflicts i k' hi hc
    · exact hb.conflicts _ (List.mem_of_getElem? hk) hck
    · exact hblank
    · rw [(hb.conflicts k (List.mem_of_getElem? hk) hck).not_resolvable] at hr
      cases hr
  obligations o' ho' hab hp := by
    obtain ⟨o,ho,hab',hp'⟩ := h.obligations o' ho' hab hp
    exact hb.obligations o ho hab' hp'

end Dormant

namespace Tables

variable {c : ℕ} {s s' : Tables}

theorem setCommandOf_dormant (s : Tables) (o : ObligationRow) (f : CommandRow → CommandRow) :
    Dormant c s (s.setCommandOf o f) := by
  obtain ⟨_,h⟩ := s.setCommandOf_eq o f
  rw [h]
  exact .of_eq rfl

theorem settle_dormant (s : Tables) (d : ℕ) (now : Time) (memoryId : Option ℕ)
    (code resolution : Option String) :
    Dormant c s (s.settleExplicitObligation d now memoryId code resolution) := by
  have hset : ∀ (t : Tables) (id : ℕ) (f : ObligationRow → ObligationRow) (o : ObligationRow)
      (g : CommandRow → CommandRow),
      (∀ o, ((f o).subjectType = o.subjectType ∧ (f o).subjectId = o.subjectId) ∧
        ((f o).status = .pending → o.status = .pending)) →
      Dormant c t ((t.setObligation id f).setCommandOf o g) :=
    fun t id f o g hf => (Dormant.setObligation t id f hf).trans (setCommandOf_dormant _ o g)
  unfold settleExplicitObligation
  split
  · split
    · exact .refl s
    · dsimp only
      split
      · exact hset _ _ _ _ _ fun o => ⟨⟨rfl,rfl⟩,nofun⟩
      · have hcount : ∀ (id : ℕ) (f : ObligationRow → ResolutionJson), Dormant c s
            (s.setObligation id fun o => {o with resolutionJson := f o}) :=
          fun id f => .setObligation _ _ _ fun o => ⟨⟨rfl,rfl⟩,fun h => h⟩
        split
        · exact (hcount _ _).trans (hset _ _ _ _ _ fun o => ⟨⟨rfl,rfl⟩,nofun⟩)
        · exact hcount _ _
      · split
        · exact .refl s
        · exact hset _ _ _ _ _ fun o => ⟨⟨rfl,rfl⟩,nofun⟩
  · exact .refl s

/-- Candidate rows and other tables change before a settlement. -/
theorem settled_dormant {s₁ : Tables} (d : ℕ) (now : Time) (memoryId : Option ℕ)
    (code resolution : Option String)
    (h : s₁.docket = s.docket) :
    Dormant c s (s₁.settleExplicitObligation d now memoryId code resolution) :=
  (Dormant.of_eq h).trans (settle_dormant s₁ d now memoryId code resolution)

theorem expireAwaiting_dormant (s : Tables) (now : Time) (d : ℕ) (decision : DecisionJson)
    (clear : CandidateRow → CandidateRow) : Dormant c s (s.expireAwaiting now d decision clear) := by
  unfold expireAwaiting
  split
  · exact .refl s
  · split
    · exact .refl s
    · exact settled_dormant d now none _ none rfl

theorem expireObligation_dormant (now : Time) (s : Tables) (id : ℕ) :
    Dormant c s (expireObligation now s id) := by
  unfold expireObligation
  split
  · exact .refl s
  · have hset : Dormant c s (s.setObligation id fun o => {o with
        status := .resolved
        resolutionCode := some "expired_unconfirmed"
        resolutionJson := {}
        resolvedAt := some now}) := .setObligation _ _ _ fun o => ⟨⟨rfl,rfl⟩,nofun⟩
    refine hset.trans ?_
    dsimp only
    split
    · exact expireAwaiting_dormant ..
    · split
      · exact .refl _
      · next conflict hk =>
        split
        · exact .refl _
        · next hopen =>
          refine Dormant.trans (.setConflict _ _ (fun k => {k with
            status := "expired_unresolved"
            resolvedAt := some now}) (fun k hk' => ?_) fun _ => rfl)
            (expireAwaiting_dormant _ now _ _ _)
          cases Option.some.inj (hk'.symm.trans hk)
          simp [ConflictRow.resolvable,not_not.mp hopen]
    · exact .refl _

theorem claimRow_dormant (config : LeaseConfig) (now : Time) (s : Tables) (d : ℕ) :
    Dormant c s (s.claimRow config now d).1 := by
  unfold claimRow
  split
  · exact .refl s
  · split
    · unfold leaseCandidate
      extract_lets s₁ number token attempt s₂
      have h₁ : s₁.docket = s.docket := by
        dsimp only [s₁]
        split <;> rfl
      exact .of_eq h₁
    · exact settled_dormant d now none _ none rfl

theorem claimBatch_dormant (s : Tables) (config : LeaseConfig) (limit : ℕ) (locks : RowLocks)
    (now : Time) : Dormant c s (s.claimBatch config limit locks now).1 := by
  have hretained : ∀ (t : Tables) (d : ℕ), Dormant c t (expireRetained now t d) :=
    fun _ d => settled_dormant d now none _ none rfl
  have hexhausted : ∀ (t : Tables) (d : ℕ), Dormant c t (failExhausted now t d) :=
    fun _ d => settled_dormant d now none _ none rfl
  have h₁ : Dormant c s (s.expiredObligations locks now) :=
    Trace.foldl_rel .refl .trans _ (fun t id => expireObligation_dormant now t id) s
  have h₂ : Dormant c (s.expiredObligations locks now) (s.expiredRetention locks now) :=
    Trace.foldl_rel .refl .trans _ hretained _
  have h₃ : Dormant c (s.expiredRetention locks now) (s.exhausted config locks now) :=
    Trace.foldl_rel .refl .trans _ hexhausted _
  rw [claimBatch_fst,claimRows_fst]
  refine ((h₁.trans h₂).trans h₃).trans ?_
  exact Trace.foldl_rel .refl .trans _ (fun t d => claimRow_dormant config.clamped now t d) _

section

variable {claim : CandidateLease} {row : CandidateRow} {a : AttemptRow}

theorem advancing_docket {f : AttemptRow → AttemptRow} (h : s.advancing claim row a f = .ok s') :
    s'.docket = s.docket := by
  cases advancing_eq h
  rfl

/-- A row about the claimed candidate is added. -/
theorem persistReading_dormant {snapshot : EvaluationSnapshot} {reading : IndependentReading}
    {model : Option String} {now : Time} {id : ℕ} (hne : claim.candidateId ≠ c)
    (h : s.persistReading claim snapshot reading model now = .ok (s',id)) : Dormant c s s' := by
  obtain ⟨⟨row,a⟩,_,h⟩ := bind_ok h
  dsimp only at h
  split at h
  · cases h
    exact .refl s
  · obtain ⟨s₁,hs,h⟩ := bind_ok h
    have hadv := advancing_docket hs
    cases h
    refine (Dormant.of_eq hadv).trans
      ⟨fun r hr hc => ?_,fun r hr _ => Or.inl hr,fun r hr _ => Or.inl hr,
        fun i k hk hc => ⟨k,hk,hc,Or.inl rfl⟩,fun o ho ha hp => ⟨o,ho,ha,hp⟩⟩
    rcases List.mem_append.mp hr with hr | hr
    · exact Or.inl hr
    · cases List.mem_singleton.mp hr
      exact absurd hc hne

theorem persistComparison_dormant {readingId : ℕ} {comparison : ComparisonVerdict} {now : Time}
    {id : ℕ} (hne : claim.candidateId ≠ c)
    (h : s.persistComparison claim readingId comparison now = .ok (s',id)) : Dormant c s s' := by
  obtain ⟨⟨row,a⟩,_,h⟩ := bind_ok h
  dsimp only at h
  split at h
  · cases h
  · split at h
    · cases h
      exact .refl s
    · obtain ⟨s₁,hs,h⟩ := bind_ok h
      have hadv := advancing_docket hs
      cases h
      refine (Dormant.of_eq hadv).trans
        ⟨fun r hr _ => Or.inl hr,fun r hr hc => ?_,fun r hr _ => Or.inl hr,
          fun i k hk hc => ⟨k,hk,hc,Or.inl rfl⟩,fun o ho ha hp => ⟨o,ho,ha,hp⟩⟩
      rcases List.mem_append.mp hr with hr | hr
      · exact Or.inl hr
      · cases List.mem_singleton.mp hr
        exact absurd hc hne

theorem persistReconciliation_dormant {comparisonId : ℕ} {snapshot : EvaluationSnapshot}
    {relation : MemoryRelationDecision} {now : Time} {id : ℕ} (hne : claim.candidateId ≠ c)
    (h : s.persistReconciliation claim comparisonId snapshot relation now = .ok (s',id)) :
    Dormant c s s' := by
  obtain ⟨⟨row,a⟩,_,h⟩ := bind_ok h
  dsimp only at h
  split at h
  · cases h
  · obtain ⟨s₁,hs,h⟩ := bind_ok h
    have hadv := advancing_docket hs
    cases h
    refine (Dormant.of_eq hadv).trans
      ⟨fun r hr _ => Or.inl hr,fun r hr _ => Or.inl hr,fun r hr hc => ?_,
        fun i k hk hc => ⟨k,hk,hc,Or.inl rfl⟩,fun o ho ha hp => ⟨o,ho,ha,hp⟩⟩
    rcases List.mem_append.mp hr with hr | hr
    · exact Or.inl hr
    · cases List.mem_singleton.mp hr
      exact absurd hc hne

theorem persistPolicy_dormant {recordId : ℕ} {policy : String} {reason : Option String} {now : Time}
    {id : ℕ} (h : s.persistPolicy claim recordId policy reason now = .ok (s',id)) :
    Dormant c s s' := by
  obtain ⟨⟨row,a⟩,_,h⟩ := bind_ok h
  dsimp only at h
  split at h
  · cases h
    exact .refl s
  · obtain ⟨s₁,hs,h⟩ := bind_ok h
    have hadv := advancing_docket hs
    cases h
    exact .of_eq hadv

theorem finish_dormant {status : CandidateStatus} {decision code : String} {semantic : Option String}
    {now : Time} {u : Unit} (h : s.finish claim status decision code semantic now = .ok (s',u)) :
    Dormant c s s' := by
  obtain ⟨⟨row,a⟩,_,h⟩ := bind_ok h
  dsimp only at h
  obtain ⟨s₁,hs,h⟩ := bind_ok h
  have hadv := advancing_docket hs
  cases h
  exact settled_dormant claim.candidateId now none _ none hadv

theorem requeueAfterVersionConflict_dormant (s : Tables) (claim : CandidateLease)
    (snapshot : EvaluationSnapshot) (now : Time) :
    Dormant c s (s.requeueAfterVersionConflict claim snapshot now) := by
  unfold requeueAfterVersionConflict
  split
  · split
    · exact .refl s
    · exact .of_eq rfl
  · exact .refl s

theorem settleIfFailed_dormant {s₁ : Tables} (d : ℕ) (row : CandidateRow) (now : Time)
    (code : Option String) (h : s₁.docket = s.docket) :
    Dormant c s (s₁.settleIfFailed d row now code) := by
  unfold settleIfFailed
  split
  · exact settled_dormant d now none _ none h
  · exact .of_eq h

theorem releaseAfterConflict_dormant (s : Tables) (maxAttempts : ℕ) (claim : CandidateLease)
    (code : String) (now : Time) :
    Dormant c s (s.releaseAfterConflict maxAttempts claim code now) := by
  unfold releaseAfterConflict
  split
  · split
    · exact .refl s
    · exact settleIfFailed_dormant claim.candidateId _ now _ rfl
  · exact .refl s

theorem releaseFailed_dormant (read s : Tables) (maxAttempts : ℕ) (claim : CandidateLease)
    (code : String) (now : Time) :
    Dormant c s (releaseFailed read s maxAttempts claim code now) := by
  unfold releaseFailed
  split
  · split
    · exact .refl s
    · exact settleIfFailed_dormant claim.candidateId _ now _ rfl
  · exact .refl s

end

end Tables

end Memory
end Atlas
