import Atlas.Memory.DecisionSteps

/-! Invariants of the candidate automaton, one elementary change at a time. -/
namespace Atlas
namespace Memory

open RowTable

variable {P : Policy} {s s' : Tables}

/-- What every elementary change does to a candidate row that is there. -/
theorem Micro.row (h : Micro P s s') {c : ℕ} {row : CandidateRow}
    (hrow : s.candidates[c]? = some row) : ∃ row', s'.candidates[c]? = some row' ∧
      (row'.status = row.status ∨ P.moves row.status row'.status) ∧
      (row.invalidatedAt ≠ none → row'.invalidatedAt ≠ none) := by
  have hchange : ∀ {d : ℕ} {r r' : CandidateRow}, Changes s.candidates s'.candidates d r r' →
      (r'.status = r.status ∨ P.moves r.status r'.status) →
      (r.invalidatedAt ≠ none → r'.invalidatedAt ≠ none) → ∃ row', s'.candidates[c]? = some row' ∧
        (row'.status = row.status ∨ P.moves row.status row'.status) ∧
        (row.invalidatedAt ≠ none → row'.invalidatedAt ≠ none) := by
    intro d r r' hc hm hi
    by_cases hd : c = d
    · subst hd
      cases Option.some.inj (hrow.symm.trans hc.before)
      exact ⟨r',hc.after,hm,hi⟩
    · exact ⟨row,(hc.others c hd).trans hrow,Or.inl rfl,id⟩
  cases h with
  | frame h => exact ⟨row,h.candidates ▸ hrow,Or.inl rfl,id⟩
  | write d r r' h => exact hchange h.change h.columns.move h.columns.stamped
  | confirm d r r' e h =>
    exact hchange h.change (Or.inr (by rw [h.status]; exact h.move)) fun hi => by
      rw [h.invalidatedAt]
      exact hi
  | enqueue r rows h =>
    exact ⟨row,by rw [h.candidates]; exact getElem?_insert_of_some hrow,Or.inl rfl,id⟩
  | attach d h => exact ⟨row,h.candidates ▸ hrow,Or.inl rfl,id⟩
  | erase chatId now h =>
    rw [h.candidates,List.getElem?_map,hrow]
    by_cases hc : row.sourceTranscriptId = chatId
    · refine ⟨Tables.invalidateWithChat now row,by simp [hc],?_,fun _ => Option.some_ne_none now⟩
      exact (h.move row hc).imp Eq.symm id
    · exact ⟨row,by simp [hc],Or.inl rfl,id⟩

theorem Micro.candidate_isSome (h : Micro P s s') {c : ℕ} (hc : (s.candidates[c]?).isSome = true) :
    (s'.candidates[c]?).isSome = true := by
  obtain ⟨row,hrow⟩ := Option.isSome_iff_exists.mp hc
  obtain ⟨row',hrow',_⟩ := h.row hrow
  exact Option.isSome_iff_exists.mpr ⟨row',hrow'⟩

theorem Micro.turns (h : Micro P s s') : TurnsKept s.turns s'.turns := by
  cases h with
  | frame h => exact h.turns
  | write d r r' h => exact h.turns ▸ .refl _
  | confirm d r r' e h => exact h.turns
  | enqueue r rows h => exact h.turns ▸ .refl _
  | attach d h => exact h.turns ▸ .refl _
  | erase chatId now h => exact h.turns

theorem Micro.turn_isSome (h : Micro P s s') {t : ℕ} (ht : (s.turns[t]?).isSome = true) :
    (s'.turns[t]?).isSome = true := by
  obtain ⟨x,hx⟩ := Option.isSome_iff_exists.mp ht
  obtain ⟨x',hx',_⟩ := h.turns t x hx
  exact Option.isSome_iff_exists.mpr ⟨x',hx'⟩

/-- Evidence is never removed, and new evidence names a candidate and a turn that exist. -/
theorem Micro.evidence (h : Micro P s s') : (∀ e ∈ s.evidence, e ∈ s'.evidence) ∧
    ∀ e ∈ s'.evidence, e ∈ s.evidence ∨
      (s'.candidates[e.candidateId]?).isSome = true ∧ (s'.turns[e.turnId]?).isSome = true := by
  have hkept : s'.evidence = s.evidence → (∀ e ∈ s.evidence, e ∈ s'.evidence) ∧
      ∀ e ∈ s'.evidence, e ∈ s.evidence ∨
        (s'.candidates[e.candidateId]?).isSome = true ∧ (s'.turns[e.turnId]?).isSome = true := by
    intro he
    rw [he]
    exact ⟨fun _ => id,fun _ => Or.inl⟩
  cases h with
  | frame h => exact hkept h.evidence
  | write d r r' h => exact hkept h.evidence
  | confirm d r r' e h =>
    rw [h.evidence]
    refine ⟨fun x => List.mem_append_left _,fun x hx => (List.mem_append.mp hx).imp id fun hx => ?_⟩
    cases List.mem_singleton.mp hx
    obtain ⟨t,ht,_⟩ := h.turn
    rw [h.subject,h.change.after,ht]
    exact ⟨rfl,rfl⟩
  | enqueue r rows h =>
    rw [h.evidence]
    refine ⟨fun x => List.mem_append_left _,fun x hx => (List.mem_append.mp hx).imp id fun hx => ?_⟩
    obtain ⟨hc,t,ht,_⟩ := h.cited x hx
    rw [hc,h.candidates,List.getElem?_concat_length,h.turns,ht]
    exact ⟨rfl,rfl⟩
  | attach d h => exact hkept h.evidence
  | erase chatId now h => exact hkept h.evidence

/-- A candidate row that an elementary change leaves was there, or is a new one. -/
theorem Micro.source (h : Micro P s s') {c : ℕ} {row' : CandidateRow}
    (hrow : s'.candidates[c]? = some row') : (∃ row, s.candidates[c]? = some row) ∨
      s.candidates[c]? = none ∧ ∃ rows, Enqueued row' rows s s' := by
  have hchange : ∀ {d : ℕ} {r r' : CandidateRow}, Changes s.candidates s'.candidates d r r' →
      ∃ row, s.candidates[c]? = some row := fun hc => by
    rcases hc.cases hrow with ⟨rfl,_⟩ | ⟨_,hr⟩
    · exact ⟨_,hc.before⟩
    · exact ⟨_,hr⟩
  cases h with
  | frame h => exact Or.inl ⟨row',h.candidates ▸ hrow⟩
  | write d r r' h => exact Or.inl (hchange h.change)
  | confirm d r r' e h => exact Or.inl (hchange h.change)
  | enqueue r rows h =>
    rw [h.candidates,getElem?_insert] at hrow
    split at hrow
    · next hc =>
      cases hrow
      exact Or.inr ⟨by rw [hc]; exact List.getElem?_eq_none le_rfl,rows,h⟩
    · exact Or.inl ⟨row',hrow⟩
  | attach d h => exact Or.inl ⟨row',h.candidates ▸ hrow⟩
  | erase chatId now h =>
    rw [h.candidates,List.getElem?_map] at hrow
    obtain ⟨r,hr,_⟩ := Option.map_eq_some_iff.mp hrow
    exact Or.inl ⟨r,hr⟩

/-- Rows that refer to each other. -/
structure Wellformed (s : Tables) : Prop where
  cited : ∀ e ∈ s.evidence, (s.candidates[e.candidateId]?).isSome = true ∧
    (s.turns[e.turnId]?).isSome = true
  citing : ∀ c, (s.candidates[c]?).isSome = true → ∃ e ∈ s.evidence, e.candidateId = c
  hash : ∀ (c : ℕ) (row : CandidateRow), s.candidates[c]? = some row →
    (∃ h, row.evidenceSetHash = some h ∧ h ≠ "") ∨ row.content = none ∧ row.status = .invalidated
  named : ∀ c, s.namedCount c ≠ 0 → (s.candidates[c]?).isSome = true

/-- No explicit obligation names a candidate that is still to come. -/
theorem Wellformed.unnamed (h : Wellformed s) : s.namedCount s.candidates.length = 0 := by
  by_contra hc
  have := h.named _ hc
  rw [List.getElem?_eq_none le_rfl] at this
  cases this

theorem Tables.explicitCount_le_named (s : Tables) (c : ℕ) : s.explicitCount c ≤ s.namedCount c :=
  List.countP_mono_left fun o _ hp => by
    simp only [ObligationRow.pendingExplicit,Bool.and_eq_true] at hp
    exact hp.1

theorem Wellformed.fresh (h : Wellformed s) : s.explicitCount s.candidates.length = 0 := by
  have := s.explicitCount_le_named s.candidates.length
  have := h.unnamed
  omega

theorem Wellformed.micro (h : Wellformed s) (hm : Micro P s s') : Wellformed s' where
  cited e he := by
    rcases hm.evidence.2 e he with ho | hn
    · exact ⟨hm.candidate_isSome (h.cited e ho).1,hm.turn_isSome (h.cited e ho).2⟩
    · exact hn
  citing c hc := by
    obtain ⟨row',hrow'⟩ := Option.isSome_iff_exists.mp hc
    rcases hm.source hrow' with ⟨row,hrow⟩ | ⟨hnone,rows,hn⟩
    · obtain ⟨e,he,hec⟩ := h.citing c (Option.isSome_iff_exists.mpr ⟨row,hrow⟩)
      exact ⟨e,hm.evidence.1 e he,hec⟩
    · obtain ⟨e,he⟩ := List.exists_mem_of_ne_nil rows hn.nonempty
      refine ⟨e,by rw [hn.evidence]; exact List.mem_append_right _ he,?_⟩
      rw [(hn.cited e he).1]
      rw [hn.candidates,getElem?_insert] at hrow'
      split at hrow'
      · next hc => exact hc.symm
      · rw [hnone] at hrow'
        cases hrow'
  hash c row' hrow' := by
    have hchange : ∀ {d : ℕ} {r r' : CandidateRow}, Changes s.candidates s'.candidates d r r' →
        ((∃ x, r'.evidenceSetHash = some x ∧ x ≠ "") ∨ r'.content = none ∧ r'.status = .invalidated) →
        (∃ x, row'.evidenceSetHash = some x ∧ x ≠ "") ∨
          row'.content = none ∧ row'.status = .invalidated := by
      intro d r r' hc hr
      rcases hc.cases hrow' with ⟨_,rfl⟩ | ⟨_,ho⟩
      · exact hr
      · exact h.hash c row' ho
    cases hm with
    | frame hm => exact h.hash c row' (hm.candidates ▸ hrow')
    | write d r r' hm =>
      refine hchange hm.change ?_
      rcases h.hash d r hm.change.before with hh | ⟨hn,hi⟩
      · rw [hm.columns.hash]
        exact Or.inl hh
      · exact Or.inr (hm.columns.payload hn hi)
    | confirm d r r' e hm => exact hchange hm.change (Or.inl hm.hash)
    | enqueue r rows hm =>
      rw [hm.candidates,getElem?_insert] at hrow'
      split at hrow'
      · cases hrow'
        exact Or.inl hm.hash
      · exact h.hash c row' hrow'
    | attach d hm => exact h.hash c row' (hm.candidates ▸ hrow')
    | erase chatId now hm =>
      rw [hm.candidates,List.getElem?_map] at hrow'
      obtain ⟨r,hr,hrr⟩ := Option.map_eq_some_iff.mp hrow'
      split at hrr
      · rw [← hrr]
        exact Or.inr ⟨rfl,rfl⟩
      · exact hrr ▸ h.hash c r hr
  named c hc := by
    have hkept : ObligationsKept s.obligations s'.obligations →
        (s'.candidates[c]?).isSome = true := by
      intro hk
      refine hm.candidate_isSome (h.named c fun hz => hc ?_)
      have : s'.namedCount c ≤ s.namedCount c := hk.named c
      omega
    cases hm with
    | frame hm => exact hkept hm.obligations
    | write d r r' hm => exact hkept hm.obligations
    | confirm d r r' e hm => exact hkept hm.obligations
    | enqueue r rows hm => exact hkept hm.obligations
    | attach d hm =>
      by_cases hd : c = d
      · subst hd
        obtain ⟨row,hrow,_⟩ := hm.live
        rw [hm.candidates,hrow]
        rfl
      · rw [hm.candidates]
        refine h.named c fun hz => hc ?_
        have := (hm.others c hd).2
        omega
    | erase chatId now hm => exact hkept hm.obligations

/-- A candidate has at most one pending explicit obligation, and none once it has ended. -/
structure Settled (s : Tables) : Prop where
  single : ∀ c, s.explicitCount c ≤ 1
  ended : ∀ (c : ℕ) (row : CandidateRow), s.candidates[c]? = some row →
    row.status.terminal = true → s.explicitCount c = 0

theorem Settled.micro (h : Settled s) (hb : P.bare) (hm : Micro P s s') : Settled s' := by
  have hle : ObligationsKept s.obligations s'.obligations → ∀ c, s'.explicitCount c ≤ 1 :=
    fun hk c => (hk.pending c).trans (h.single c)
  have hzero : ObligationsKept s.obligations s'.obligations → ∀ {c : ℕ} {row : CandidateRow},
      s.candidates[c]? = some row → row.status.terminal = true → s'.explicitCount c = 0 := by
    intro hk c row hrow ht
    have : s'.explicitCount c ≤ s.explicitCount c := hk.pending c
    rw [h.ended c row hrow ht] at this
    omega
  cases hm with
  | frame hm =>
    exact ⟨hle hm.obligations,fun c row hrow ht => hzero hm.obligations (hm.candidates ▸ hrow) ht⟩
  | write d r r' hm =>
    refine ⟨hle hm.obligations,fun c row hrow ht => ?_⟩
    rcases hm.change.cases hrow with ⟨rfl,rfl⟩ | ⟨_,ho⟩
    · rcases hm.settled ht with hr | hr
      · exact hzero hm.obligations hm.change.before hr
      · have := h.single c
        omega
    · exact hzero hm.obligations ho ht
  | confirm d r r' e hm =>
    refine ⟨hle hm.obligations,fun c row hrow ht => ?_⟩
    rcases hm.change.cases hrow with ⟨rfl,rfl⟩ | ⟨_,ho⟩
    · rw [hm.status] at ht
      cases ht
    · exact hzero hm.obligations ho ht
  | enqueue r rows hm =>
    refine ⟨hle hm.obligations,fun c row hrow ht => ?_⟩
    rw [hm.candidates,getElem?_insert] at hrow
    split at hrow
    · cases hrow
      rw [hm.status] at ht
      cases ht
    · exact hzero hm.obligations hrow ht
  | attach d hm =>
    have hd := hm.bare hb
    have hone := hm.count
    refine ⟨fun c => ?_,fun c row hrow ht => ?_⟩
    · by_cases hc : c = d
      · subst hc
        omega
      · exact (hm.others c hc).1.trans (h.single c)
    · rw [hm.candidates] at hrow
      obtain ⟨row₀,hrow₀,hlive⟩ := hm.live
      have hc : c ≠ d := by
        rintro rfl
        cases Option.some.inj (hrow.symm.trans hrow₀)
        rw [CandidateStatus.terminal_of_reconcilable hlive] at ht
        cases ht
      have := (hm.others c hc).1
      rw [h.ended c row hrow ht] at this
      omega
  | erase chatId now hm =>
    refine ⟨hle hm.obligations,fun c row hrow ht => ?_⟩
    rw [hm.candidates,List.getElem?_map] at hrow
    obtain ⟨r,hr,hrr⟩ := Option.map_eq_some_iff.mp hrow
    split at hrr
    · next hchat =>
      have : s'.explicitCount c ≤ s.explicitCount c := hm.obligations.pending c
      rw [hm.bare hb c r hr hchat] at this
      omega
    · exact hzero hm.obligations hr (hrr ▸ ht)

/-- A candidate with an invalidation time is invalidated. -/
def Stamped (s : Tables) : Prop :=
  ∀ (c : ℕ) (row : CandidateRow), s.candidates[c]? = some row → row.invalidatedAt ≠ none →
    row.status = .invalidated

theorem Stamped.micro (h : Stamped s)
    (hinv : ∀ b, P.moves .invalidated b → b = .invalidated) (hm : Micro P s s') : Stamped s' := by
  intro c row' hrow' hi
  have hchange : ∀ {d : ℕ} {r r' : CandidateRow}, Changes s.candidates s'.candidates d r r' →
      (r'.invalidatedAt ≠ none → r'.status = .invalidated) → row'.status = .invalidated := by
    intro d r r' hc hr
    rcases hc.cases hrow' with ⟨_,rfl⟩ | ⟨_,ho⟩
    · exact hr hi
    · exact h c row' ho hi
  cases hm with
  | frame hm => exact h c row' (hm.candidates ▸ hrow') hi
  | write d r r' hm =>
    refine hchange hm.change fun hr => ?_
    rcases hm.columns.stamp hr with ho | hs
    · have hs := h d r hm.change.before ho
      rcases hm.columns.move with hmove | hmove
      · exact hmove.trans hs
      · exact hinv _ (hs ▸ hmove)
    · exact hs
  | confirm d r r' e hm =>
    refine hchange hm.change fun hr => ?_
    have hs := h d r hm.change.before (hm.invalidatedAt ▸ hr)
    have hmove := hm.move
    rw [hs] at hmove
    cases hinv _ hmove
  | enqueue r rows hm =>
    rw [hm.candidates,getElem?_insert] at hrow'
    split at hrow'
    · cases hrow'
      exact absurd hm.invalidatedAt hi
    · exact h c row' hrow' hi
  | attach d hm => exact h c row' (hm.candidates ▸ hrow') hi
  | erase chatId now hm =>
    rw [hm.candidates,List.getElem?_map] at hrow'
    obtain ⟨r,hr,hrr⟩ := Option.map_eq_some_iff.mp hrow'
    split at hrr
    · rw [← hrr]
      rfl
    · exact hrr ▸ h c r hr (hrr ▸ hi)

/-- Queued candidates cite admissible turns, deleted ones aside. -/
def Admissible (s : Tables) : Prop :=
  ∀ (c : ℕ) (row : CandidateRow), s.candidates[c]? = some row → row.status.queued = true →
    ∀ e ∈ s.evidence, e.candidateId = c → ∀ t, s.turns[e.turnId]? = some t →
      t.deletedAt = none → evidenceTurnAdmissible row e.turnId t = true

/-- A turn of the candidate's own transcript is admissible while it lives. -/
theorem admissible_of_home {row : CandidateRow} {id : ℕ} {t : TurnRow} (hd : t.deletedAt = none)
    (ht : t.transcriptId = row.sourceTranscriptId) : evidenceTurnAdmissible row id t = true := by
  simp [evidenceTurnAdmissible,hd,ht]

/-- Admissibility looks at two columns of the candidate and three of the turn. -/
theorem admissible_congr {row row' : CandidateRow} {id : ℕ} {t t' : TurnRow}
    (h : evidenceTurnAdmissible row id t = true)
    (hrow : row'.sourceTranscriptId = row.sourceTranscriptId ∧
      row'.decisionJson.ownerAssertionTurnId = row.decisionJson.ownerAssertionTurnId)
    (ht : t'.transcriptId = t.transcriptId ∧ t'.actor = t.actor ∧ t'.deletedAt = none) :
    evidenceTurnAdmissible row' id t' = true := by
  simp only [evidenceTurnAdmissible,Bool.and_eq_true] at h ⊢
  rw [hrow.1,hrow.2,ht.1,ht.2.1,ht.2.2]
  exact ⟨rfl,h.2⟩

theorem Admissible.micro (h : Admissible s) (hw : Wellformed s) (hh : P.home)
    (hm : Micro P s s') : Admissible s' := by
  -- rows and evidence that were there before, under turns that were kept
  have hold : ∀ {c : ℕ} {row : CandidateRow}, s.candidates[c]? = some row →
      row.status.queued = true → ∀ e ∈ s.evidence, e.candidateId = c → ∀ t' : TurnRow,
      s'.turns[e.turnId]? = some t' → t'.deletedAt = none →
      evidenceTurnAdmissible row e.turnId t' = true := by
    intro c row hrow hq e he hec t' ht' hd'
    obtain ⟨t,ht⟩ := Option.isSome_iff_exists.mp (hw.cited e he).2
    obtain ⟨t'',ht'',htr,hac,hdel⟩ := hm.turns _ t ht
    cases Option.some.inj (ht'.symm.trans ht'')
    exact admissible_congr (h c row hrow hq e he hec t ht (hdel hd')) ⟨rfl,rfl⟩ ⟨htr,hac,hd'⟩
  intro c row' hrow' hq e he hec t' ht' hd'
  cases hm with
  | frame hm => exact hold (hm.candidates ▸ hrow') hq e (hm.evidence ▸ he) hec t' ht' hd'
  | write d r r' hm =>
    rw [hm.evidence] at he
    rcases hm.change.cases hrow' with ⟨rfl,rfl⟩ | ⟨_,ho⟩
    · rcases hm.columns.assertion hq with ⟨hqr,ha⟩ | hhome
      · exact admissible_congr (hold hm.change.before hqr e he hec t' ht' hd')
          ⟨hm.columns.transcript,ha⟩ ⟨rfl,rfl,hd'⟩
      · refine admissible_of_home hd' ?_
        rw [hm.columns.transcript]
        exact hhome hh e he hec t' (hm.turns ▸ ht') hd'
    · exact hold ho hq e he hec t' ht' hd'
  | confirm d r r' e' hm =>
    rw [hm.evidence] at he
    rcases hm.change.cases hrow' with ⟨rfl,rfl⟩ | ⟨hne,ho⟩
    · rcases List.mem_append.mp he with he | he
      · obtain ⟨t,ht⟩ := Option.isSome_iff_exists.mp (hw.cited e he).2
        obtain ⟨t'',ht'',htr,_,hdel⟩ := hm.turns _ t ht
        cases Option.some.inj (ht'.symm.trans ht'')
        refine admissible_of_home hd' ?_
        rw [htr,hm.transcript]
        exact hm.home hh e he hec t ht (hdel hd')
      · cases List.mem_singleton.mp he
        obtain ⟨t,ht,hactor⟩ := hm.turn
        cases Option.some.inj (ht'.symm.trans ht)
        simp [evidenceTurnAdmissible,hd',hactor,hm.assertion]
    · rcases List.mem_append.mp he with he | he
      · exact hold ho hq e he hec t' ht' hd'
      · cases List.mem_singleton.mp he
        exact absurd (hec.symm.trans hm.subject) hne
  | enqueue r rows hm =>
    rw [hm.evidence] at he
    rw [hm.candidates,getElem?_insert] at hrow'
    split at hrow'
    · next hc =>
      cases hrow'
      rcases List.mem_append.mp he with he | he
      · have hsome := (hw.cited e he).1
        rw [hec,hc,List.getElem?_eq_none le_rfl] at hsome
        cases hsome
      · obtain ⟨_,t,ht,htr⟩ := hm.cited e he
        rw [hm.turns] at ht'
        cases Option.some.inj (ht'.symm.trans ht)
        exact admissible_of_home hd' htr
    · next hc =>
      rcases List.mem_append.mp he with he | he
      · exact hold hrow' hq e he hec t' ht' hd'
      · exact absurd (hec.symm.trans (hm.cited e he).1) hc
  | attach d hm => exact hold (hm.candidates ▸ hrow') hq e (hm.evidence ▸ he) hec t' ht' hd'
  | erase chatId now hm =>
    rw [hm.evidence] at he
    rw [hm.candidates,List.getElem?_map] at hrow'
    obtain ⟨r,hr,hrr⟩ := Option.map_eq_some_iff.mp hrow'
    split at hrr
    · rw [← hrr] at hq
      cases hq
    · exact hrr ▸ hold hr (hrr ▸ hq) e he hec t' ht' hd'

end Memory
end Atlas
