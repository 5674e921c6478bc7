import Atlas.Memory.EvidenceSets

/-! Which operations touch evidence sets: proposals add a candidate with its set, a confirmation
adds a turn to one, and everything else leaves the cited references and their digests alone. -/
namespace Atlas
namespace Memory

open RowTable

/-- No two candidates that can be reconciled have the digest of one evidence set. -/
def UniqueEvidence (t : List CandidateRow) : Prop :=
  ∀ (i j : ℕ) (a b : CandidateRow) (hash : String), t[i]? = some a → t[j]? = some b →
    a.status.reconcilable = true → b.status.reconcilable = true →
    a.evidenceSetHash = some hash → b.evidenceSetHash = some hash → i = j

/-- The partial unique index of `memory_candidates`. -/
theorem uniqueEvidence_iff (t : List CandidateRow) : UniqueEvidence t ↔
    (t.filterMap fun c => if c.status.reconcilable then c.evidenceSetHash else none).Nodup := by
  constructor
  · intro h
    rw [List.Nodup,List.pairwise_filterMap,List.pairwise_iff_getElem]
    intro i j hi hj hij x hx y hy hxy
    simp only [Option.ite_none_right_eq_some] at hx hy
    have heq := h i j t[i] t[j] x (List.getElem?_eq_getElem hi) (List.getElem?_eq_getElem hj)
      hx.1 hy.1 hx.2 (hxy ▸ hy.2)
    omega
  · intro h i j a b hash hi hj ha hb hah hbh
    exact eq_of_nodup_filterMap h hi hj (by rw [if_pos ha,hah]) (by rw [if_pos hb,hbh])

theorem uniqueEvidence_of_consistent {s : Tables} (h : s.consistent = true) :
    UniqueEvidence s.candidates := by
  simp only [Tables.consistent,Bool.and_eq_true,decide_eq_true_eq] at h
  exact (uniqueEvidence_iff _).mpr h.1.1.1.1.1.1.1.1

namespace Tables

/-- The references a candidate cites. -/
def cited (s : Tables) (c : ℕ) : List (ℕ × String) :=
  (s.evidenceOf c).map fun e => (e.turnId,e.spanRef)

/-- Evidence is of known candidates, which cite tidy references, and their digests are those of
what they cite. -/
structure Hashed [PyRuntime] (s : Tables) : Prop where
  known : ∀ e ∈ s.evidence, e.candidateId < s.candidates.length
  tidy : ∀ e ∈ s.evidence, Tidy e.spanRef
  digest : ∀ (c : ℕ) (row : CandidateRow) (hash : String), s.candidates[c]? = some row →
    row.evidenceSetHash = some hash → hash = evidenceSetHash (s.cited c)

/-- The evidence stays as it is and candidates keep or lose their digests. Where the change is
calm, no candidate becomes reconcilable. -/
structure DigestsKept (calm : Prop) (s s' : Tables) : Prop where
  evidence : s'.evidence = s.evidence
  length : s'.candidates.length = s.candidates.length
  rows : ∀ (c : ℕ) (row' : CandidateRow), s'.candidates[c]? = some row' → ∃ row,
    s.candidates[c]? = some row ∧
      (row'.evidenceSetHash = row.evidenceSetHash ∨ row'.evidenceSetHash = none) ∧
      (calm → row'.status.reconcilable = true → row.status.reconcilable = true)

namespace DigestsKept

variable {calm : Prop} {s s' s'' : Tables}

theorem of_rows (hc : s'.candidates = s.candidates) (he : s'.evidence = s.evidence) :
    DigestsKept calm s s' :=
  ⟨he,congrArg _ hc,fun _ row hrow => ⟨row,hc ▸ hrow,Or.inl rfl,fun _ h => h⟩⟩

theorem refl (s : Tables) : DigestsKept calm s s := of_rows rfl rfl

theorem trans (h : DigestsKept calm s s') (h' : DigestsKept calm s' s'') :
    DigestsKept calm s s'' := by
  refine ⟨h'.evidence.trans h.evidence,h'.length.trans h.length,fun c row'' hrow => ?_⟩
  obtain ⟨row',hrow',hh',hs'⟩ := h'.rows c row'' hrow
  obtain ⟨row,hrow,hh,hs⟩ := h.rows c row' hrow'
  refine ⟨row,hrow,?_,fun hc hr => hs hc (hs' hc hr)⟩
  rcases hh' with hh' | hh'
  · rw [hh']
    exact hh
  · exact Or.inr hh'

theorem change {c : ℕ} {row row' : CandidateRow}
    (hw : Changes s.candidates s'.candidates c row row') (he : s'.evidence = s.evidence)
    (hh : row'.evidenceSetHash = row.evidenceSetHash)
    (hs : calm → row'.status.reconcilable = true → row.status.reconcilable = true) :
    DigestsKept calm s s' := by
  refine ⟨he,hw.length,fun d x hx => ?_⟩
  rcases hw.cases hx with ⟨rfl,rfl⟩ | ⟨_,hx⟩
  · exact ⟨row,hw.before,Or.inl hh,hs⟩
  · exact ⟨x,hx,Or.inl rfl,fun _ h => h⟩

theorem unique (h : DigestsKept True s s') (hu : UniqueEvidence s.candidates) :
    UniqueEvidence s'.candidates := by
  intro i j a b hash hi hj ha hb hah hbh
  obtain ⟨a₀,hi₀,hah₀,ha₀⟩ := h.rows i a hi
  obtain ⟨b₀,hj₀,hbh₀,hb₀⟩ := h.rows j b hj
  refine hu i j a₀ b₀ hash hi₀ hj₀ (ha₀ trivial ha) (hb₀ trivial hb) ?_ ?_
  · rcases hah₀ with hh | hh <;> simp_all
  · rcases hbh₀ with hh | hh <;> simp_all

theorem hashed [PyRuntime] (h : DigestsKept calm s s') (hs : s.Hashed) : s'.Hashed where
  known e he := by
    rw [h.length]
    exact hs.known e (h.evidence ▸ he)
  tidy e he := hs.tidy e (h.evidence ▸ he)
  digest c row hash hrow hh := by
    obtain ⟨row₀,hrow₀,hh₀,_⟩ := h.rows c row hrow
    rcases hh₀ with hh₀ | hh₀
    · rw [cited,evidenceOf,h.evidence]
      exact hs.digest c row₀ hash hrow₀ (hh₀ ▸ hh)
    · rw [hh₀] at hh
      cases hh

end DigestsKept

end Tables

open Tables

/-- An elementary change that adds no evidence keeps the digests. -/
theorem Micro.digestsKept {P : Policy} {calm : Prop} {s s' : Tables}
    (hcalm : calm → ∀ a b, P.moves a b → b.reconcilable = true → a.reconcilable = true)
    (h : Micro P s s') : s.evidence.length ≤ s'.evidence.length ∧
      (s'.evidence.length = s.evidence.length → DigestsKept calm s s') := by
  cases h with
  | frame h => exact ⟨h.evidence ▸ le_rfl,fun _ => .of_rows h.candidates h.evidence⟩
  | attach c h => exact ⟨h.evidence ▸ le_rfl,fun _ => .of_rows h.candidates h.evidence⟩
  | write c row row' h =>
    refine ⟨h.evidence ▸ le_rfl,fun _ => .change h.change h.evidence h.columns.hash fun hc hr => ?_⟩
    rcases h.columns.move with hm | hm
    · rw [← hm]
      exact hr
    · exact hcalm hc _ _ hm hr
  | confirm c row row' e h =>
    rw [h.evidence,List.length_append,List.length_singleton]
    exact ⟨by omega,fun hlen => by omega⟩
  | enqueue row rows h =>
    have hpos := List.length_pos_iff.mpr h.nonempty
    rw [h.evidence,List.length_append]
    exact ⟨by omega,fun hlen => by omega⟩
  | erase chatId now h =>
    refine ⟨h.evidence ▸ le_rfl,fun _ => ⟨h.evidence,?_,fun c row' hrow => ?_⟩⟩
    · rw [h.candidates,List.length_map]
    rw [h.candidates,List.getElem?_map] at hrow
    obtain ⟨row,hold,rfl⟩ := Option.map_eq_some_iff.mp hrow
    refine ⟨row,hold,?_⟩
    split
    · exact ⟨Or.inr rfl,fun _ hr => by simp [invalidateWithChat,CandidateStatus.reconcilable] at hr⟩
    · exact ⟨Or.inl rfl,fun _ hr => hr⟩

theorem Chain.digestsKept {P : Policy} {calm : Prop} {s s' : Tables}
    (hcalm : calm → ∀ a b, P.moves a b → b.reconcilable = true → a.reconcilable = true)
    (h : Chain P s s') (he : s'.evidence = s.evidence) : DigestsKept calm s s' := by
  have hrun : s.evidence.length ≤ s'.evidence.length ∧
      (s'.evidence.length = s.evidence.length → DigestsKept calm s s') := by
    clear he
    induction h with
    | refl => exact ⟨le_rfl,fun _ => .refl s⟩
    | tail _ hm ih =>
      have hstep := hm.digestsKept hcalm
      exact ⟨ih.1.trans hstep.1,fun hlen => (ih.2 (by omega)).trans (hstep.2 (by omega))⟩
  exact hrun.2 (congrArg List.length he)

/-- The changes that make no candidate reconcilable. -/
def calm : Policy where
  moves a b := b.reconcilable = true → a.reconcilable = true
  bare := False
  home := False

theorem Chain.calm {s s' : Tables} (h : Chain calm s s') (he : s'.evidence = s.evidence) :
    DigestsKept True s s' := h.digestsKept (fun _ _ _ hm => hm) he

namespace Tables

variable {s s' : Tables}

theorem publishMutate_evidence [PyRuntime] {config : PublisherConfig} {claim : CandidateLease}
    {snapshot : EvaluationSnapshot} {decision : ReconciliationDecision} {operationId : OperationId}
    {now : Time} {r : Tables × Published}
    (h : s.publishMutate config claim snapshot decision operationId now = .ok r) :
    r.1.evidence = s.evidence := by
  unfold publishMutate at h
  split at h
  · cases h
  · extract_lets candidate s₁ close at h
    clear_value candidate
    split at h
    · cases h
      rfl
    · split at h
      · cases h
        rfl
      · split at h
        · cases h
          dsimp only [close]
          split <;> rfl
        · split at h
          · cases h
            rfl
          · extract_lets rows at h
            clear_value rows
            split at h
            · cases h
              rfl
            · obtain ⟨s₂,ha,h⟩ := bind_ok h
              obtain ⟨s₀,f,status,attempted,target,result,hq,hr,_⟩ := Publication.decide_closes h
              rw [hr]
              refine hq.evidence.trans ?_
              rw [advanceCandidateState_eq ha]
              rfl

theorem publishAndSettle_evidence [PyRuntime] {config : PublisherConfig} {claim : CandidateLease}
    {snapshot : EvaluationSnapshot} {decision : ReconciliationDecision} {operationId : OperationId}
    {now : Time} {pub : Published}
    (h : s.publishAndSettle config claim snapshot decision operationId now = .ok (s',pub)) :
    s'.evidence = s.evidence := by
  obtain ⟨r,hp,hr⟩ := map_ok h
  have hev := publishMutate_evidence hp
  split at hr
  · cases hr
    rw [settle_evidence]
    exact hev
  · cases hr
    exact hev

theorem deleteOwnerChat_evidence {chatId id : ℕ} {now : Time}
    (h : s.deleteOwnerChat chatId now = .ok (s',id)) : s'.evidence = s.evidence := by
  unfold deleteOwnerChat at h
  split at h
  · cases h
  · extract_lets s₁ at h
    split at h
    · have hs' : s' = (s₁.getOrCreateActive now).1 := (congrArg Prod.fst (Except.ok.inj h)).symm
      rw [hs',footing_evidence (getOrCreateActive_footing ..)]
      rfl
    · split at h <;> (cases h; rfl)

theorem retireMutate_evidence [PyRuntime] {loaded : Tables → Tables} {memoryId : Option ℕ}
    {content : Option String} {source : OwnerSource} {now : Time} {commandId : ℕ} {applied : Applied}
    (h : s.retireMutate loaded memoryId content source now commandId = .ok (s',applied)) :
    s'.evidence = s.evidence := by
  obtain ⟨target,_,h⟩ := bind_ok h
  split at h
  · obtain ⟨s₁,ha,h⟩ := bind_ok h
    cases h
    exact footing_evidence (applyCommand_footing ha)
  · obtain ⟨⟨s₁,id,result⟩,hr,h⟩ := bind_ok h
    obtain ⟨s₂,ha,h⟩ := bind_ok h
    cases h
    rw [footing_evidence (applyCommand_footing ha)]
    exact (footing_evidence (invalidateCandidates_footing ..)).trans (retireRow_frame hr).evidence

theorem deleteMutate_evidence [PyRuntime] {loaded : Tables → Tables} {memoryId : Option ℕ}
    {content : Option String} {scope : String} {source : OwnerSource} {now : Time} {commandId : ℕ}
    {applied : Applied}
    (h : s.deleteMutate loaded memoryId content scope source now commandId = .ok (s',applied)) :
    s'.evidence = s.evidence := by
  rcases deleteMutate_cases h with ⟨id,_,ha⟩ | ⟨target,selected,s₁,d,affected,found,_,hd,hdel⟩
  · exact footing_evidence (applyCommand_footing ha)
  · rw [hdel.evidence,(invalidateCandidates_turns loaded s₁).1]
    exact (deletionSources_frame hd).evidence

end Tables

/-- The operations that may add evidence. -/
def Op.cites : Op → Bool
  | .enqueueMany .. | .remember .. | .correct .. | .resolveObligation .. => true
  | _ => false

theorem Body.evidence [PyRuntime] {loaded : Tables → Tables} {s s' : Tables} {op : Op}
    (h : Body loaded s op s') (hop : op.cites = false) : s'.evidence = s.evidence := by
  cases h with
  | publish h => exact publishAndSettle_evidence h
  | retire h => exact retireMutate_evidence h
  | restore h => exact (restoreMutate_frame h).evidence
  | delete h => exact deleteMutate_evidence h
  | deleteOwnerChat h => exact deleteOwnerChat_evidence h
  | createOwnerChat => rfl
  | activateOwnerChat h => exact footing_evidence (activateOwnerChat_footing h)
  | getOrCreateActive => exact footing_evidence (s.getOrCreateActive_footing _)
  | appendTurn h => exact (appendTurn_frame h).evidence
  | intakeFailed => rfl
  | claimBatch => exact footing_evidence (s.claimBatch_footing ..)
  | persistReading h => exact footing_evidence (persistReading_footing h)
  | persistComparison h => exact footing_evidence (persistComparison_footing h)
  | persistReconciliation h => exact footing_evidence (persistReconciliation_footing h)
  | persistPolicy h => exact footing_evidence (persistPolicy_footing h)
  | finishEpistemicRejection h => exact footing_evidence (finish_footing h)
  | finishPolicyBlock h => exact footing_evidence (finish_footing h)
  | requeueAfterVersionConflict => exact footing_evidence (s.requeueAfterVersionConflict_footing ..)
  | releaseAfterConflict => exact footing_evidence (s.releaseAfterConflict_footing ..)
  | releaseFailed => exact footing_evidence (releaseFailed_footing ..)
  | began => rfl
  | failed _ h => exact footing_evidence (failCommand_footing h)
  | enqueueMany | remember | correct | resolveConflict | resolveReview | resolveObligationIn =>
    cases hop

/-- An operation that adds no evidence keeps the digests. -/
theorem step_digestsKept [PyRuntime] {w : State} {op : Op} (hs : Sound w.data) (hl : Legal w op)
    (hop : op.cites = false) : DigestsKept False w.data (step w op).data := by
  have hev : ∀ s', Committed id op w.data s' → s'.evidence = w.data.evidence := by
    intro s' h
    induction h with
    | refl => rfl
    | tail _ hb ih => exact (hb.1.evidence hop).trans ih
  have hc : Chain ⟨fun _ _ => True,False,False⟩ w.data (step w op).data :=
    step_chain hs hl (fun _ _ _ => trivial) (by cases op <;> simp [Answers]) nofun nofun
  exact hc.digestsKept False.elim (hev _ (stepLoaded_committed id w op))

end Memory
end Atlas
