import Atlas.Memory.RecordSteps

/-! What candidates and memories rest on. Outside of deletions no turn dies, and what is added
rests on turns that are live at that moment. -/
namespace Atlas
namespace Memory

open RowTable

namespace Tables

/-- The turn, if it exists, is not deleted. -/
def LiveTurn (s : Tables) (t : ℕ) : Prop := ∀ turn, s.turns[t]? = some turn → turn.deletedAt = none

theorem liveTurn_congr {s s' : Tables} (h : s'.turns = s.turns) (t : ℕ) :
    s'.LiveTurn t ↔ s.LiveTurn t := by
  unfold LiveTurn
  rw [h]

/-- What an operation that deletes no turn adds rests on live turns. -/
structure Tended (s s' : Tables) : Prop where
  turns : ∀ t, s'.LiveTurn t ↔ s.LiveTurn t
  evidence : ∀ e ∈ s'.evidence, e ∈ s.evidence ∨ s.LiveTurn e.turnId
  memories : ∀ (i : ℕ) (m' : DurableMemoryRow), s'.memories[i]? = some m' → m'.status = .active →
    (∃ m, s.memories[i]? = some m ∧ m.status = .active ∧
      ∀ t, m'.sourceTurnId = some t → m.sourceTurnId = some t ∨ s.LiveTurn t) ∨
    (s.memories.length ≤ i ∧ ∀ t, m'.sourceTurnId = some t → s.LiveTurn t)
  grown : s.memories.length ≤ s'.memories.length
  provenance : ∀ p ∈ s'.provenance, p ∈ s.provenance ∨
    (p.memoryId < s'.memories.length ∧ ∀ t, p.sourceTurnId = some t → s.LiveTurn t)

namespace Tended

variable {s s' s'' : Tables}

theorem of_footing (h : s'.footing = s.footing) : Tended s s' where
  turns := liveTurn_congr (footing_turns h)
  evidence _ he := Or.inl (footing_evidence h ▸ he)
  memories _ m' hm ha := Or.inl ⟨m',by rwa [← graph_memories (footing_graph h)],ha,
    fun _ ht => Or.inl ht⟩
  grown := by rw [graph_memories (footing_graph h)]
  provenance _ hp := Or.inl (graph_provenance (footing_graph h) ▸ hp)

theorem refl (s : Tables) : Tended s s := .of_footing rfl

theorem trans (h : Tended s s') (h' : Tended s' s'') : Tended s s'' where
  turns t := (h'.turns t).trans (h.turns t)
  evidence e he := (h'.evidence e he).elim (h.evidence e) fun hl => Or.inr ((h.turns _).mp hl)
  memories i m'' hm ha := by
    rcases h'.memories i m'' hm ha with ⟨m',hm',ha',hs'⟩ | ⟨hlen,hl⟩
    · rcases h.memories i m' hm' ha' with ⟨m,hm₀,ha₀,hs⟩ | ⟨hlen,hl⟩
      · exact Or.inl ⟨m,hm₀,ha₀,fun t ht => (hs' t ht).elim (hs t) fun hl =>
          Or.inr ((h.turns t).mp hl)⟩
      · exact Or.inr ⟨hlen,fun t ht => (hs' t ht).elim (hl t) (h.turns t).mp⟩
    · exact Or.inr ⟨h.grown.trans hlen,fun t ht => (h.turns t).mp (hl t ht)⟩
  grown := h.grown.trans h'.grown
  provenance p hp := by
    rcases h'.provenance p hp with hp | ⟨hlt,hl⟩
    · exact (h.provenance p hp).imp_right fun ⟨hlt,hl⟩ => ⟨hlt.trans_le h'.grown,hl⟩
    · exact Or.inr ⟨hlt,fun t ht => (h.turns t).mp (hl t ht)⟩

/-- Memories that become no more active than they were, with the sources they had or live ones. -/
theorem setMemory (s : Tables) (id : ℕ) (f : DurableMemoryRow → DurableMemoryRow)
    (hf : ∀ m, (f m).status = .active → m.status = .active ∧
      ∀ t, (f m).sourceTurnId = some t → m.sourceTurnId = some t ∨ s.LiveTurn t) :
    Tended s (s.setMemory id f) where
  turns _ := Iff.rfl
  evidence _ he := Or.inl he
  memories i m' hm ha := by
    by_cases hi : id = i
    · subst hi
      obtain ⟨m,hm₀,rfl⟩ := Option.map_eq_some_iff.mp ((getElem?_modify_self ..).symm.trans hm)
      exact Or.inl ⟨m,hm₀,hf m ha⟩
    · rw [Tables.setMemory,getElem?_modify_ne _ _ hi] at hm
      exact Or.inl ⟨m',hm,ha,fun t ht => Or.inl ht⟩
  grown := (List.length_modify ..).ge
  provenance _ hp := Or.inl hp

theorem insertMemory (s : Tables) (row : DurableMemoryRow)
    (h : row.status = .active → ∀ t, row.sourceTurnId = some t → s.LiveTurn t) :
    Tended s {s with memories := s.memories ++ [row]} where
  turns _ := Iff.rfl
  evidence _ he := Or.inl he
  memories i m' hm ha := by
    simp only [getElem?_insert] at hm
    split at hm
    · next hi =>
      cases hm
      exact Or.inr ⟨hi.ge,h ha⟩
    · exact Or.inl ⟨m',hm,ha,fun t ht => Or.inl ht⟩
  grown := by simp
  provenance _ hp := Or.inl hp

theorem addProvenance (s : Tables) (rows : List ProvenanceRow)
    (h : ∀ p ∈ rows, p.memoryId < s.memories.length ∧ ∀ t, p.sourceTurnId = some t → s.LiveTurn t) :
    Tended s (s.addProvenance rows) where
  turns _ := Iff.rfl
  evidence _ he := Or.inl he
  memories _ m' hm ha := Or.inl ⟨m',hm,ha,fun _ ht => Or.inl ht⟩
  grown := le_rfl
  provenance p hp := (List.mem_append.mp hp).imp_right (h p)

/-- The lineage of a candidate whose evidence is live. -/
theorem addCandidateLineage (s : Tables) {memoryId c : ℕ} (hm : memoryId < s.memories.length)
    (he : ∀ e ∈ s.evidence, e.candidateId = c → s.LiveTurn e.turnId) :
    Tended s (s.addCandidateLineage memoryId c).1 := by
  unfold Tables.addCandidateLineage
  extract_lets refs existing missing source
  split
  · exact .refl s
  · refine .addProvenance s _ fun p hp => ?_
    rcases List.mem_cons.mp hp with rfl | hp
    · exact ⟨hm,nofun⟩
    · obtain ⟨e,hmem,rfl⟩ := List.mem_map.mp hp
      obtain ⟨hev,hc⟩ := List.mem_filter.mp (List.mem_filter.mp hmem).1
      refine ⟨hm,fun t ht => ?_⟩
      cases ht
      exact he e hev (by simpa using hc)

end Tended

end Tables

namespace Publication

open Tables

variable {p : Publication} {s : Tables}

/-- The evidence of a publication is live. -/
structure Backed (p : Publication) (s : Tables) : Prop where
  evidence : ∀ e ∈ s.evidence, e.candidateId = p.candidateId → s.LiveTurn e.turnId
  primary : s.LiveTurn p.primaryEvidenceTurnId

theorem targetIn_lt {listed : List ℕ} {i : ℕ} {target : Option DurableMemoryRow}
    (h : p.targetIn s listed = some (i,target)) {f : DurableMemoryRow → Bool}
    (hf : (!target.any f) ≠ true) : i < s.memories.length := by
  obtain ⟨_,_,hm⟩ := targetIn_spec h
  cases ht : target with
  | none => simp [ht] at hf
  | some m => exact (List.getElem?_eq_some_iff.mp (hm.trans ht)).1

theorem assertion_live (h : p.assertionInvalid s = false) {t : ℕ}
    (ht : p.ownerAssertionTurnId = some t) : s.LiveTurn t := by
  intro turn hturn
  simp only [assertionInvalid,ht,Option.any_some,hturn,Bool.or_eq_false_iff] at h
  simpa using h.1

theorem complete_tended (s : Tables) (decision result : String) (target : Option ℕ) :
    Tended s (p.complete s decision result target) := .of_footing rfl

theorem equivalent_tended (hb : p.Backed s) (ha : p.assertionInvalid s = false) :
    Tended s (p.equivalent s).1 := by
  unfold equivalent
  split
  · exact .of_footing rfl
  · next targetId target ht =>
    split
    · exact .of_footing rfl
    · next hok =>
      have hlt := targetIn_lt ht hok
      extract_lets lineage asserted s₁ added outcome
      have hl : Tended s lineage.1 := .addCandidateLineage s hlt hb.evidence
      refine Tended.trans ?_ (complete_tended s₁ _ _ _)
      dsimp only [s₁]
      split
      · refine hl.trans (Tended.trans (Tended.setMemory lineage.1 targetId _ ?_)
          (Tended.addProvenance _ _ ?_))
        · exact fun m hm => ⟨hm,fun t ht => Or.inl ht⟩
        · intro q hq
          rw [List.mem_singleton] at hq
          subst hq
          refine ⟨?_,fun t ht => ?_⟩
          · exact (hlt.trans_le hl.grown).trans_le (List.length_modify ..).ge
          · exact (hl.turns t).mpr (assertion_live ha ht)
      · exact hl

variable [PyRuntime]

theorem groundLegacy_tended (hb : p.Backed s) {content : String} {r : Tables × Published}
    (h : p.groundLegacy s content = .ok r) : Tended s r.1 := by
  unfold groundLegacy at h
  split at h
  · cases h
    exact .of_footing rfl
  · next targetId target ht =>
    split at h
    · cases h
      exact .of_footing rfl
    · next hok =>
      have hlt := targetIn_lt ht hok
      split at h
      · cases h
        exact .of_footing rfl
      · extract_lets grounded lineage at h
        obtain ⟨review,_,h⟩ := bind_ok h
        extract_lets s₁ at h
        cases h
        have hg : Tended s grounded := .setMemory s targetId _ fun m hm =>
          ⟨hm,fun t ht => Or.inr (by cases ht; exact hb.primary)⟩
        have hl : Tended grounded lineage.1 := .addCandidateLineage grounded
          (hlt.trans_le hg.grown) fun e he hc => (hg.turns _).mpr (hb.evidence e he hc)
        refine (hg.trans hl).trans (Tended.trans ?_ (complete_tended s₁ _ _ _))
        dsimp only [s₁]
        split <;> exact .of_footing rfl

theorem historicalPredecessor_tended (hb : p.Backed s) (content : String)
    {restriction : Option (ℕ × DurableMemoryRow)}
    (hr : ∀ q, restriction = some q → s.memories[q.1]? = some q.2) :
    Tended s (p.historicalPredecessor s content restriction).1 := by
  unfold historicalPredecessor
  split
  · exact .of_footing rfl
  · next targetId target ht =>
    split
    · exact .of_footing rfl
    · next m =>
      split
      · exact .of_footing rfl
      · split
        · next restrictionId r =>
          split
          · exact .of_footing rfl
          · have hlt := (List.getElem?_eq_some_iff.mp (hr _ rfl)).1
            exact Tended.trans (.addCandidateLineage s hlt hb.evidence) (complete_tended _ _ _ _)
        · extract_lets row historicalId s₁ lineage s₂
          have hi : Tended s s₁ := .insertMemory s _ nofun
          have hlt : historicalId < s₁.memories.length := by simp [s₁,historicalId]
          have hl : Tended s₁ lineage.1 := .addCandidateLineage s₁ hlt fun e he hc => hb.evidence e he hc
          refine (hi.trans hl).trans (Tended.trans (.addProvenance lineage.1 _ ?_)
            (complete_tended s₂ _ _ _))
          intro q hq
          rw [List.mem_singleton] at hq
          subst hq
          exact ⟨hlt.trans_le hl.grown,nofun⟩

omit [PyRuntime] in
theorem Backed.source (hb : p.Backed s) {t : ℕ} (ht : some p.primaryEvidenceTurnId = some t) :
    s.LiveTurn t := by
  cases ht
  exact hb.primary

omit [PyRuntime] in
/-- The row a publication creates, with the lineage of its candidate. -/
theorem inserted_tended (hb : p.Backed s) (row : DurableMemoryRow)
    (hrow : row.sourceTurnId = some p.primaryEvidenceTurnId) :
    Tended s (({s with memories := s.memories ++ [row]} : Tables).addCandidateLineage
      s.memories.length p.candidateId).1 := by
  refine (Tended.insertMemory s row fun _ t ht => hb.source (hrow ▸ ht)).trans
    (Tended.addCandidateLineage _ ?_ fun e he hc => hb.evidence e he hc)
  simp

theorem create_tended (hb : p.Backed s) (content : String) : Tended s (p.create s content).1 := by
  unfold create
  split
  · exact .of_footing rfl
  · next hnone =>
    have hnone : s.activeByFingerprint (memoryFingerprint content) = none := by simpa using hnone
    extract_lets target guardId row
    split
    · exact .of_footing rfl
    · rw [createActive_new s content _ hnone]
      dsimp only
      split
      · exact .of_footing rfl
      · refine Tended.trans ?_ (complete_tended _ _ _ _)
        cases guardId with
        | none => exact inserted_tended hb _ rfl
        | some g =>
          refine (inserted_tended hb _ rfl).trans (Tended.trans (Tended.setMemory _ g _ ?_)
            (Tended.addProvenance _ _ ?_))
          · exact fun m hm => ⟨hm,fun t ht => Or.inl ht⟩
          · intro q hq
            rw [List.mem_singleton] at hq
            subst hq
            refine ⟨?_,nofun⟩
            simp [Tables.setMemory,Tables.addCandidateLineage_memories]

theorem replace_tended (hb : p.Backed s) (content : String) : Tended s (p.replace s content).1 := by
  unfold replace
  split
  · exact .of_footing rfl
  · next targetId target ht =>
    extract_lets explicitTarget
    split
    · exact .of_footing rfl
    · split
      · exact .of_footing rfl
      · split
        · split <;> exact .of_footing rfl
        · next hnone =>
          rw [createActive_new s content _ hnone]
          dsimp only
          split
          · exact .of_footing rfl
          · have hm : ∀ (t : List DurableMemoryRow) (row : DurableMemoryRow)
                (f : DurableMemoryRow → DurableMemoryRow),
                t.length < ((t ++ [row]).modify targetId f).length := fun t row f => by simp
            refine Tended.trans (Tended.trans (Tended.insertMemory s _ fun _ t ht => hb.source ht)
              (Tended.trans (Tended.setMemory _ targetId _ fun _ ha => by cases ha) (Tended.trans
                (Tended.addCandidateLineage _ (hm ..) fun e he hc => hb.evidence e he hc)
                (Tended.addProvenance _ _ ?_)))) (complete_tended _ _ _ _)
            intro q hq
            rw [List.mem_singleton] at hq
            subst hq
            rw [Tables.addCandidateLineage_memories]
            exact ⟨hm ..,nofun⟩

omit [PyRuntime] in
theorem restriction_spec [PyRuntime] {content : String} {q : ℕ × DurableMemoryRow}
    (h : p.restriction s content = some q) : s.memories[q.1]? = some q.2 := by
  obtain ⟨id,_,h⟩ := Option.bind_eq_some_iff.mp h
  obtain ⟨m,hm,rfl⟩ := Option.map_eq_some_iff.mp h
  exact hm

theorem write_tended (hb : p.Backed s) {r : Tables × Published} (h : p.write s = .ok r) :
    Tended s r.1 := by
  obtain ⟨content,_,h⟩ := bind_ok h
  dsimp only at h
  split at h
  · cases h
    exact .of_footing rfl
  · split at h
    · exact groundLegacy_tended hb h
    · cases h
      exact historicalPredecessor_tended hb content fun q hq => restriction_spec hq
    · cases h
      exact create_tended hb content
    · cases h
      exact replace_tended hb content
    · cases h
      exact replace_tended hb content
    · cases h
      exact .of_footing rfl

theorem decide_tended (hb : p.Backed s) {config : PublisherConfig} {r : Tables × Published}
    (h : p.decide config s = .ok r) : Tended s r.1 := by
  unfold decide at h
  extract_lets sourceStale durable at h
  split at h
  · cases h
    exact .of_footing rfl
  · split at h
    · cases h
      exact .of_footing rfl
    · split at h
      · cases h
        exact .of_footing rfl
      · split at h
        · cases h
          exact .of_footing rfl
        · split at h
          · cases h
            exact .of_footing rfl
          · split at h
            · cases h
              exact .of_footing rfl
            · next ha =>
              split at h
              · cases h
                exact .of_footing rfl
              · exact .of_footing (conflict_footing h)
              · cases h
                exact equivalent_tended hb (by simpa using ha)
              · exact write_tended hb h

end Publication

namespace Tables

variable {s s' : Tables}

section

variable [PyRuntime]

omit [PyRuntime] in
theorem liveEvidenceRows_live {c : ℕ} {row : CandidateRow} {e₀ : EvidenceRow}
    (h : e₀ ∈ s.liveEvidenceRows c row) : (e₀ ∈ s.evidence ∧ e₀.candidateId = c) ∧
      ∀ e ∈ s.evidence, e.candidateId = c → s.LiveTurn e.turnId := by
  unfold liveEvidenceRows at h
  split at h
  · next hlive =>
    simp only [evidenceLive,Bool.and_eq_true,evidenceAdmissible,List.all_eq_true] at hlive
    have hmem := List.mem_filter.mp ((List.mem_insertionSort _).mp h)
    refine ⟨⟨hmem.1,by simpa using hmem.2⟩,fun e he hc turn ht => ?_⟩
    have hadm := hlive.2 e (List.mem_filter.mpr ⟨he,by simpa using hc⟩)
    rw [ht] at hadm
    simp only [evidenceTurnAdmissible,Bool.and_eq_true] at hadm
    simpa using hadm.1
  · cases h

theorem publishAndSettle_tended {config : PublisherConfig} {claim : CandidateLease}
    {snapshot : EvaluationSnapshot} {decision : ReconciliationDecision} {operationId : OperationId}
    {now : Time} {pub : Published}
    (h : s.publishAndSettle config claim snapshot decision operationId now = .ok (s',pub)) :
    Tended s s' := by
  obtain ⟨r,hp,hr⟩ := map_ok h
  have hs' : Tended r.1 s' := by
    split at hr
    · cases hr
      exact .of_footing (settle_footing ..)
    · cases hr
      exact .refl _
  refine Tended.trans ?_ hs'
  unfold publishMutate at hp
  split at hp
  · cases hp
  · extract_lets candidate s₁ close at hp
    split at hp
    · cases hp
      exact .refl s
    · clear_value candidate
      cases candidate with
      | none =>
        cases hp
        exact .of_footing rfl
      | some row =>
        dsimp only at hp
        split at hp
        · cases hp
          refine .of_footing ?_
          split <;> rfl
        · split at hp
          · cases hp
            exact .of_footing rfl
          · split at hp
            · cases hp
              exact .of_footing rfl
            · next first rest hrows =>
              obtain ⟨s₂,hadv,hp⟩ := bind_ok hp
              have hf : s₂.footing = s.footing := by
                rw [advanceCandidateState_eq hadv]
                rfl
              have hprimary : ((s₁.liveEvidenceRows claim.candidateId row).find? fun e =>
                  e.principal == "owner").getD first ∈ s₁.liveEvidenceRows claim.candidateId row := by
                cases ho : (s₁.liveEvidenceRows claim.candidateId row).find? fun e =>
                    e.principal == "owner" with
                | none =>
                  rw [show s₁.liveEvidenceRows claim.candidateId row = first :: rest from hrows]
                  exact List.mem_cons_self
                | some e => exact List.mem_of_find?_eq_some ho
              obtain ⟨⟨hmem,hc⟩,hlive⟩ := liveEvidenceRows_live hprimary
              have hlive₂ : ∀ t, s₁.LiveTurn t → s₂.LiveTurn t := fun t =>
                (liveTurn_congr (footing_turns hf) t).mpr
              refine (Tended.of_footing hf).trans (Publication.decide_tended ⟨?_,?_⟩ hp)
              · rw [footing_evidence hf]
                exact fun e he hc => hlive₂ _ (hlive e he hc)
              · exact hlive₂ _ (hlive _ hmem hc)

theorem enqueue_tended {candidate : MemoryCandidate} {source : IntakeSource} {c : ℕ}
    {created : Bool} (h : s.enqueue candidate source = .ok (s',c,created)) : Tended s s' := by
  obtain ⟨refs,_,_,hlive,⟨_,rfl,_⟩ | ⟨_,_,_,_,_,rfl⟩⟩ := enqueue_cases h
  · exact .refl _
  · refine ⟨fun _ => Iff.rfl,fun e he => ?_,fun i m' hm ha => Or.inl ⟨m',hm,ha,fun _ ht => Or.inl ht⟩,
      le_rfl,fun p hp => Or.inl hp⟩
    refine (List.mem_append.mp he).imp_right fun he => ?_
    obtain ⟨_,r,hr,ht⟩ := mem_evidenceRows he
    obtain ⟨t,hrow,_,hd⟩ := hlive r hr
    intro turn hturn
    rw [ht,hrow] at hturn
    cases hturn
    exact hd

theorem enqueueMany_tended (s : Tables) (proposals : List RawCandidate) (source : IntakeSource) :
    Tended s (s.enqueueMany proposals source) := by
  refine Trace.foldl_rel (R := Tended) .refl .trans _ (fun t raw => ?_) s
  split
  · next t' c created h =>
    obtain ⟨candidate,_,h⟩ := bind_ok h
    exact enqueue_tended h
  · exact .refl t

theorem createGuard_tended {content : String} {status : MemoryStatus} {recordKind : String}
    {source : Option ℕ × Option ℕ} {now : Time} {r : ℕ × Bool}
    (h : s.createGuard content status recordKind source now = .ok (s',r)) : Tended s s' := by
  unfold createGuard at h
  extract_lets fingerprint guardRow at h
  split at h
  · cases h
  · next hst =>
    split at h
    · cases h
      exact .refl _
    · cases h
      refine .insertMemory s guardRow fun ha => ?_
      have ha : status = .active := ha
      simp [ha] at hst

theorem queueExplicitContentCommandIn_tended {c : ExplicitCommand} {source : OwnerSource}
    {now : Time} {q : Queued} (h : s.queueExplicitContentCommandIn c source now = .ok (s',q)) :
    Tended s s' := by
  obtain ⟨transcriptId,turnId,candidate,s₁,created,target,_,_,he,s₂,hg,_,_,rfl⟩ :=
    queueExplicitContentCommandIn_cases h
  refine (enqueue_tended he).trans (Tended.trans ?_ (.of_footing (s := s₂) rfl))
  unfold correctionGuardRow at hg
  split at hg
  · cases hg
    exact .refl _
  · split at hg
    · cases hg
      exact .refl _
    · obtain ⟨⟨s₃,r⟩,hguard,h⟩ := map_ok hg
      cases h
      exact createGuard_tended hguard

theorem retireRow_tended {target : RetireTarget} {source : OwnerSource} {now : Time} {r : ℕ × String}
    (h : s.retireRow target source now = .ok (s',r)) : Tended s s' := by
  unfold retireRow at h
  split at h
  · cases h
    exact .refl _
  · cases h
    exact .setMemory s _ _ fun m hm => by cases hm
  · obtain ⟨⟨s₁,r₁⟩,hg,h⟩ := map_ok h
    cases h
    exact createGuard_tended hg

/-- Without scrubbing the purge redacts no evidence. -/
theorem invalidateCandidates_footing (loaded : Tables → Tables) (s : Tables)
    (operationId : OperationId) (turnIds candidateIds : List ℕ)
    (content redactContent : Option String) (now : Time) :
    (s.invalidateCandidates loaded operationId turnIds candidateIds content redactContent false
      now).1.footing = s.footing :=
  foldl_view footing _ (fun t p => purgeCandidate_footing operationId now false t p) s

theorem retireMutate_tended {memoryId : Option ℕ} {content : Option String} {source : OwnerSource}
    {now : Time} {commandId : ℕ} {applied : Applied}
    (h : s.retireMutate id memoryId content source now commandId = .ok (s',applied)) :
    Tended s s' := by
  obtain ⟨target,_,h⟩ := bind_ok h
  split at h
  · obtain ⟨s₁,ha,h⟩ := bind_ok h
    cases h
    exact .of_footing (applyCommand_footing ha)
  · obtain ⟨⟨s₁,memory,result⟩,hr,h⟩ := bind_ok h
    obtain ⟨s₂,ha,h⟩ := bind_ok h
    cases h
    refine (retireRow_tended hr).trans (.of_footing ((applyCommand_footing ha).trans ?_))
    exact invalidateCandidates_footing id s₁ _ _ _ _ _ now

omit [PyRuntime] in
theorem appendTurn_tended {transcriptId turnId : ℕ} {actor : Actor} {blocks : List Json} {now : Time}
    (h : s.appendTurn transcriptId actor blocks now = .ok (s',turnId)) : Tended s s' := by
  unfold appendTurn at h
  split at h
  · cases h
  · cases h
    refine ⟨fun t => ?_,fun e he => Or.inl he,fun i m' hm ha => Or.inl ⟨m',hm,ha,fun _ ht => Or.inl ht⟩,
      le_rfl,fun p hp => Or.inl hp⟩
    simp only [LiveTurn,getElem?_insert]
    constructor
    · intro hl turn ht
      exact hl turn (by rw [if_neg (Nat.ne_of_lt (List.getElem?_eq_some_iff.mp ht).1),ht])
    · intro hl turn ht
      split at ht
      · cases ht
        rfl
      · exact hl turn ht

end

end Tables

/-- The operations that delete no turn and revive no memory. -/
def Op.tends : Op → Bool
  | .deleteOwnerChat .. | .restore .. | .delete .. | .resolveObligation .. => false
  | _ => true

section

variable [PyRuntime] {s s' : Tables} {op : Op}

theorem Body.tended (h : Body id s op s') (hop : op.tends = true) : s.Tended s' := by
  cases h with
  | publish h => exact Tables.publishAndSettle_tended h
  | retire h => exact Tables.retireMutate_tended h
  | remember h => exact Tables.queueExplicitContentCommandIn_tended h
  | correct h => exact Tables.queueExplicitContentCommandIn_tended h
  | enqueueMany => exact s.enqueueMany_tended _ _
  | appendTurn h => exact Tables.appendTurn_tended h
  | createOwnerChat => exact .of_footing rfl
  | activateOwnerChat h => exact .of_footing (Tables.activateOwnerChat_footing h)
  | getOrCreateActive => exact .of_footing (s.getOrCreateActive_footing _)
  | intakeFailed => exact .of_footing rfl
  | claimBatch => exact .of_footing (s.claimBatch_footing ..)
  | persistReading h => exact .of_footing (Tables.persistReading_footing h)
  | persistComparison h => exact .of_footing (Tables.persistComparison_footing h)
  | persistReconciliation h => exact .of_footing (Tables.persistReconciliation_footing h)
  | persistPolicy h => exact .of_footing (Tables.persistPolicy_footing h)
  | finishEpistemicRejection h => exact .of_footing (Tables.finish_footing h)
  | finishPolicyBlock h => exact .of_footing (Tables.finish_footing h)
  | requeueAfterVersionConflict => exact .of_footing (s.requeueAfterVersionConflict_footing ..)
  | releaseAfterConflict => exact .of_footing (s.releaseAfterConflict_footing ..)
  | releaseFailed => exact .of_footing (Tables.releaseFailed_footing ..)
  | began => exact .of_footing rfl
  | failed _ h => exact .of_footing (Tables.failCommand_footing h)
  | deleteOwnerChat | restore | delete | resolveConflict | resolveReview | resolveObligationIn =>
    cases hop

theorem step_tended {w : State} (hop : op.tends = true) : w.data.Tended (step w op).data := by
  have hrun : ∀ s', Committed id op w.data s' → w.data.Tended s' := by
    intro s' h
    induction h with
    | refl => exact .refl _
    | tail _ hb ih => exact ih.trans (hb.1.tended hop)
  exact hrun _ (stepLoaded_committed id w op)

end

end Memory
end Atlas
