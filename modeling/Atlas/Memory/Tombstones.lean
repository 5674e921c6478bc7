import Atlas.Memory.Anchors
import Atlas.Memory.Lineage

/-! No live candidate or active memory rests on a deleted turn, as long as no deletion redacts an
evidence turn that something it leaves alone rests on. -/
namespace Atlas
namespace Memory

open RowTable

namespace Tables

/-- Nothing that can still be published or recalled rests on a deleted turn. -/
structure Anchored (s : Tables) : Prop where
  candidates : ∀ e ∈ s.evidence, ∀ row, s.candidates[e.candidateId]? = some row →
    row.status.reconcilable = true → s.LiveTurn e.turnId
  memories : ∀ (i : ℕ) (m : DurableMemoryRow), s.memories[i]? = some m → m.status = .active →
    ∀ t, m.sourceTurnId = some t → s.LiveTurn t
  provenance : ∀ p ∈ s.provenance, ∀ m, s.memories[p.memoryId]? = some m → m.status = .active →
    ∀ t, p.sourceTurnId = some t → s.LiveTurn t
  edges : ∀ p ∈ s.provenance, p.memoryId < s.memories.length

/-- No evidence turn that the purge redacts supports anything the deletion leaves alone. -/
def SparesEvidence (s : Tables) (d : DeletionPlan) : Prop :=
  (∀ e ∈ s.evidence, e.turnId ∈ d.evidenceTurnIds → ∀ row, s.candidates[e.candidateId]? = some row →
    row.status.reconcilable = true → e.candidateId ∈ d.candidateIds) ∧
  (∀ (i : ℕ) (m : DurableMemoryRow), s.memories[i]? = some m → m.status = .active →
    (∀ t ∈ d.evidenceTurnIds, m.sourceTurnId = some t → i ∈ d.affected)) ∧
  ∀ p ∈ s.provenance, ∀ t ∈ d.evidenceTurnIds, p.sourceTurnId = some t →
    ∀ m, s.memories[p.memoryId]? = some m → m.status = .active →
      p.memoryId ∈ d.affected ∨ ∃ c ∈ d.candidateIds, p.sourceCandidateId = some c

variable {s s' : Tables}

/-- An operation that adds only live support and revives no candidate keeps the store anchored. -/
theorem Tended.anchored (h : Tended s s') (ha : s.Anchored)
    (hc : ∀ e ∈ s.evidence, ∀ row', s'.candidates[e.candidateId]? = some row' →
      row'.status.reconcilable = true → ∃ row, s.candidates[e.candidateId]? = some row ∧
        row.status.reconcilable = true) : s'.Anchored where
  candidates e he row' hrow' hr := by
    refine (h.turns _).mpr ?_
    rcases h.evidence e he with he | hl
    · obtain ⟨row,hrow,hr⟩ := hc e he row' hrow' hr
      exact ha.candidates e he row hrow hr
    · exact hl
  memories i m' hm hact t ht := by
    refine (h.turns _).mpr ?_
    rcases h.memories i m' hm hact with ⟨m,hm₀,hact₀,hs⟩ | ⟨_,hl⟩
    · exact (hs t ht).elim (ha.memories i m hm₀ hact₀ t) id
    · exact hl t ht
  provenance p hp m' hm hact t ht := by
    refine (h.turns _).mpr ?_
    rcases h.provenance p hp with hp | ⟨_,hl⟩
    · rcases h.memories _ m' hm hact with ⟨m,hm₀,hact₀,_⟩ | ⟨hlen,_⟩
      · exact ha.provenance p hp m hm₀ hact₀ t ht
      · exact absurd (ha.edges p hp) (Nat.not_lt.mpr hlen)
    · exact hl t ht
  edges p hp := (h.provenance p hp).elim (fun hp => (ha.edges p hp).trans_le h.grown) And.left

theorem Anchored.congr (h : s'.footing = s.footing) (hc : s'.candidates = s.candidates)
    (ha : s.Anchored) : s'.Anchored :=
  (Tended.of_footing h).anchored ha fun _ _ row' hrow' hr => ⟨row',hc ▸ hrow',hr⟩

section

variable {r : Tables × List ℕ × List ℕ} {d : DeletionSources} {affected found : List ℕ}
  {target : Option ℕ} {source : OwnerSource} {commandId : ℕ} {now : Time}

/-- A memory that is detached from redacted turns rests on its live owner assertion. -/
theorem detached_source (never : List ℕ) {i : ℕ} {m' : DurableMemoryRow}
    (hm : (detached r d affected found now).memories[i]? = some m') :
    ∃ m, r.1.memories[i]? = some m ∧ m'.status = m.status ∧
      ∀ t, m'.sourceTurnId = some t → r.1.LiveTurn t ∨ (m.sourceTurnId = some t ∧
        (t ∈ d.redacted → i ∈ found → ¬r.1.Barrier never i)) := by
  unfold detached at hm
  split at hm
  · next hnone =>
    refine ⟨m',hm,rfl,fun t ht => Or.inr ⟨ht,fun _ hf => ?_⟩⟩
    have : i ∈ addMembers d.preserved found := mem_addMembers.mpr (Or.inr hf)
    rw [hnone] at this
    cases this
  · simp only [detachPurgedDependencies,List.getElem?_mapIdx] at hm
    obtain ⟨m,hm₀,rfl⟩ := Option.map_eq_some_iff.mp hm
    refine ⟨m,hm₀,?_⟩
    split
    · split
      · next hnone =>
        refine ⟨rfl,fun t ht => Or.inr ⟨ht,fun _ _ hb => ?_⟩⟩
        obtain ⟨_,row,hrow,_,_,turnId,hid,turn,hturn,_⟩ := hb
        cases Option.some.inj (hrow.symm.trans hm₀)
        simp [hid,hturn] at hnone
      · next assertionId assertion hsome =>
        obtain ⟨id,hid,hmap⟩ := Option.bind_eq_some_iff.mp hsome
        obtain ⟨turn,hturn,hpair⟩ := Option.map_eq_some_iff.mp hmap
        cases hpair
        split
        · next hdead =>
          refine ⟨rfl,fun t ht => Or.inr ⟨ht,fun _ _ hb => ?_⟩⟩
          obtain ⟨_,row,hrow,_,_,turnId,hid',turn,hturn',hlive⟩ := hb
          cases Option.some.inj (hrow.symm.trans hm₀)
          cases hid.symm.trans hid'
          cases hturn.symm.trans hturn'
          simp [hlive] at hdead
        · next hlive =>
          have hassertion : r.1.LiveTurn assertionId := fun turn ht => by
            cases hturn.symm.trans ht
            simpa using hlive
          refine ⟨by split <;> split <;> rfl,fun t ht => ?_⟩
          by_cases hpurged : m.sourceTurnId.any d.redacted.contains = true
          · simp only [if_pos hpurged] at ht
            refine Or.inl ?_
            split at ht <;> (cases ht; exact hassertion)
          · simp only [if_neg hpurged] at ht
            have hkept : m.sourceTurnId = some t := by
              split at ht <;> exact ht
            refine Or.inr ⟨hkept,fun hin => absurd ?_ hpurged⟩
            simpa [hkept] using hin
    · next hout =>
      refine ⟨rfl,fun t ht => Or.inr ⟨ht,fun _ hf => absurd ?_ hout⟩⟩
      exact List.contains_iff_mem.mpr (mem_addMembers.mpr (Or.inr hf))

/-- Every memory with a redacted source is deleted or was stopped at as a barrier. -/
theorem Deletion.reached (h : Deletion s' r d commandId target source now affected found) {i : ℕ}
    (hi : i ∈ r.1.turnDependents d.dependencies) (hout : i ∉ affected) :
    i ∈ found ∧ r.1.Barrier target.toList i := by
  have hdeps := dependentMemoryClosure_dependents h.closure
  have hf := (hdeps.start i (mem_addMembers.mpr (Or.inr hi))).resolve_left hout
  exact ⟨hf,hdeps.barriers i hf⟩

theorem mem_turnDependents_source {turnIds : List ℕ} {i : ℕ} {m : DurableMemoryRow}
    (hm : s.memories[i]? = some m) (hs : m.status = .active) {t : ℕ} (ht : m.sourceTurnId = some t)
    (hmem : t ∈ turnIds) : i ∈ s.turnDependents turnIds := by
  refine List.mem_append_left _ (mem_ids.mpr ⟨m,hm,?_⟩)
  simp [hs,ht,hmem]

theorem mem_turnDependents_provenance {turnIds : List ℕ} {p : ProvenanceRow} (hp : p ∈ s.provenance)
    {t : ℕ} (ht : p.sourceTurnId = some t) (hmem : t ∈ turnIds) :
    p.memoryId ∈ s.turnDependents turnIds := by
  refine List.mem_append_right _ (List.mem_map.mpr ⟨p,List.mem_filter.mpr ⟨hp,?_⟩,rfl⟩)
  simp [ht,hmem]

/-- Provenance that is left does not name a redacted turn. -/
theorem detached_redacted {p : ProvenanceRow}
    (hp : p ∈ (detached r d affected found now).provenance) (hf : p.memoryId ∈ found) {t : ℕ}
    (ht : p.sourceTurnId = some t) : t ∉ d.redacted := by
  unfold detached at hp
  split at hp
  · next hnone =>
    have : p.memoryId ∈ addMembers d.preserved found := mem_addMembers.mpr (Or.inr hf)
    rw [hnone] at this
    cases this
  · intro hin
    have hkept := (List.mem_filter.mp hp).2
    simp [mem_addMembers,hf,ht,hin] at hkept

/-- What a purge did to turns and candidates, as the deletion around it relies on it. -/
structure Redacts (s : Tables) (r : Tables × List ℕ × List ℕ) (d : DeletionSources) : Prop where
  graph : r.1.graph = s.graph
  evidence : r.1.evidence = s.evidence
  turns : ∀ t, s.LiveTurn t → t ∉ d.redacted → t ∉ r.2.2 → r.1.LiveTurn t
  candidates : ∀ (c : ℕ) (row : CandidateRow), r.1.candidates[c]? = some row →
    row.status.reconcilable = true → c ∉ r.2.1 ∧ s.candidates[c]? = some row
  cited : ∀ e ∈ s.evidence, e.turnId ∈ d.redacted → (s.candidates[e.candidateId]?).isSome →
    e.candidateId ∈ r.2.1

theorem Deletion.anchored (h : Deletion s' r d commandId target source now affected found)
    (hr : Redacts s r d) (ha : s.Anchored)
    (hs : s.SparesEvidence ⟨d.affected,r.2.1,r.2.2,affected⟩) : s'.Anchored := by
  have hturn : ∀ t, r.1.LiveTurn t → s'.LiveTurn t := fun t => (liveTurn_congr h.turns t).mpr
  have hmem := graph_memories hr.graph
  have hprov := graph_provenance hr.graph
  have hrow : ∀ (i : ℕ) (m' : DurableMemoryRow), s'.memories[i]? = some m' → m'.status = .active →
      i ∉ affected ∧ (detached r d affected found now).memories[i]? = some m' := by
    intro i m' hm hact
    rw [graph_memories h.graph] at hm
    exact deleteRows_kept hm (by rw [hact]; nofun)
  have hredacted : ∀ t, t ∈ d.redacted → t ∈ d.dependencies := fun t ht => mem_addMembers.mpr (Or.inr ht)
  refine ⟨fun e he row hc hrec => hturn _ ?_,fun i m' hm hact t ht => hturn _ ?_,
    fun p hp m' hm hact t ht => hturn _ ?_,fun p hp => ?_⟩
  · rw [h.evidence,hr.evidence] at he
    rw [h.candidates] at hc
    obtain ⟨hout,hc⟩ := hr.candidates _ row hc hrec
    refine hr.turns _ (ha.candidates e he row hc hrec) (fun hin => ?_) fun hin => ?_
    · exact hout (hr.cited e he hin (by rw [hc]; rfl))
    · exact hout (hs.1 e he hin row hc hrec)
  · obtain ⟨hout,hmid⟩ := hrow i m' hm hact
    obtain ⟨m,hm₀,hst,hsrc⟩ := detached_source target.toList hmid
    have hact₀ : m.status = .active := hst ▸ hact
    rcases hsrc t ht with hl | ⟨ht₀,hnb⟩
    · exact hl
    refine hr.turns t (ha.memories i m (hmem ▸ hm₀) hact₀ t ht₀) (fun hin => ?_) fun hin => ?_
    · obtain ⟨hf,hb⟩ := h.reached (mem_turnDependents_source hm₀ hact₀ ht₀ (hredacted t hin)) hout
      exact hnb hin hf hb
    · exact hout (hs.2.1 i m (hmem ▸ hm₀) hact₀ t hin ht₀)
  · obtain ⟨hout,hmid⟩ := hrow _ m' hm hact
    obtain ⟨m,hm₀,hst,_⟩ := detached_source target.toList hmid
    have hact₀ : m.status = .active := hst ▸ hact
    have hpd : p ∈ (detached r d affected found now).provenance := by
      rwa [graph_provenance h.graph,deleteRows_provenance] at hp
    obtain ⟨hp₀,hdet⟩ := detached_provenance hpd
    have hps : p ∈ s.provenance := hprov ▸ hp₀
    refine hr.turns t (ha.provenance p hps m (hmem ▸ hm₀) hact₀ t ht) (fun hin => ?_) fun hin => ?_
    · obtain ⟨hf,_⟩ := h.reached (mem_turnDependents_provenance hp₀ ht (hredacted t hin)) hout
      exact detached_redacted hpd hf ht hin
    · rcases hs.2.2 p hps t hin ht m (hmem ▸ hm₀) hact₀ with hin | ⟨c,hc,hpc⟩
      · exact hout hin
      · have hf := ((dependentMemoryClosure_dependents h.closure).candidate p hp₀ c hc hpc
          ).resolve_left hout
        exact absurd hpc ((hdet hf).2 c hc)
  · rw [graph_provenance h.graph,deleteRows_provenance] at hp
    have hlt := ha.edges p (hprov ▸ (detached_provenance hp).1)
    obtain ⟨row',hrow',_⟩ := h.memory_status (m := p.memoryId)
      (List.getElem?_eq_getElem (hmem ▸ hlt))
    exact (List.getElem?_eq_some_iff.mp hrow').1

end

section

variable [PyRuntime] {operationId : OperationId} {turnIds candidateIds : List ℕ}
  {content redactContent : Option String} {now : Time}

theorem mem_readSelected_cited {e : EvidenceRow} (he : e ∈ s.evidence) (ht : e.turnId ∈ turnIds)
    (hrow : (s.candidates[e.candidateId]?).isSome) :
    e.candidateId ∈ (s.readSelected turnIds candidateIds content).map (·.1) := by
  obtain ⟨row,hrow⟩ := Option.isSome_iff_exists.mp hrow
  refine List.mem_map.mpr ⟨(e.candidateId,row),List.mem_filterMap.mpr
    ⟨e.candidateId,?_,by rw [hrow]; rfl⟩,rfl⟩
  refine List.mem_filter.mpr ⟨List.mem_range.mpr (List.getElem?_eq_some_iff.mp hrow).1,?_⟩
  have hcited : e.candidateId ∈ (s.evidence.filter fun e => turnIds.contains e.turnId).map
      (·.candidateId) :=
    List.mem_map_of_mem (List.mem_filter.mpr ⟨he,List.contains_iff_mem.mpr ht⟩)
  simp only [hrow,Option.any_some,Bool.or_eq_true]
  exact Or.inl (Or.inr (List.contains_iff_mem.mpr hcited))

theorem redactEvidenceTurn_length (s : Tables) (row : CandidateRow) :
    (redactEvidenceTurn operationId now content redactContent s row).turns.length =
      s.turns.length := by
  unfold redactEvidenceTurn
  split
  · rfl
  · split
    · rfl
    · extract_lets values r
      split
      · exact List.length_modify ..
      · rfl

/-- A turn that was live is live after the purge, unless it is listed as redacted. -/
theorem invalidateCandidates_turns (loaded : Tables → Tables) (s : Tables) :
    let r := s.invalidateCandidates loaded operationId turnIds candidateIds content redactContent
      true now
    r.1.evidence = s.evidence ∧ ∀ t, s.LiveTurn t → t ∉ r.2.2 → r.1.LiveTurn t := by
  unfold invalidateCandidates
  extract_lets read selected redacted evidenceTurns purged
  have hred : redacted.evidence = s.evidence ∧ redacted.turns.length = s.turns.length :=
    ⟨foldl_view (·.evidence) _ (fun t row => (redactEvidenceTurn_frame operationId now content
        redactContent t row).evidence) s,
      foldl_view (fun t => t.turns.length) _ (fun t row => redactEvidenceTurn_length t row) s⟩
  have hpurged : purged.footing = redacted.footing :=
    foldl_view footing _ (fun t p => purgeCandidate_footing operationId now true t p) redacted
  refine ⟨(footing_evidence hpurged).trans hred.1,fun t hl ht turn hturn => ?_⟩
  have hturn : redacted.turns[t]? = some turn := footing_turns hpurged ▸ hturn
  by_contra hdead
  refine ht (List.mem_filter.mpr ?_)
  have hlt := hred.2 ▸ (List.getElem?_eq_some_iff.mp hturn).1
  refine ⟨List.mem_range.mpr hlt,?_⟩
  have hlive := hl _ (List.getElem?_eq_getElem hlt)
  rw [List.getElem?_eq_getElem hlt,hturn]
  simpa [hlive,Option.isSome_iff_ne_none] using hdead

theorem redactSourceTurns_turns {text : String} {t : ℕ} {turn : TurnRow}
    (h : (s.redactSourceTurns operationId text turnIds now).1.turns[t]? = some turn)
    (ht : t ∉ (s.redactSourceTurns operationId text turnIds now).2) : s.turns[t]? = some turn := by
  unfold redactSourceTurns at h ht
  extract_lets at h ht
  simp only [List.getElem?_mapIdx] at h
  obtain ⟨x,hx,rfl⟩ := Option.map_eq_some_iff.mp h
  rw [if_neg fun hin => ht (List.contains_iff_mem.mp hin),hx]

theorem deletionSources_turns {scope : String} {target : Option ℕ} {selected : Option String}
    {d : DeletionSources}
    (h : s.deletionSources operationId scope target selected now = .ok (s',d)) {t : ℕ}
    (hl : s.LiveTurn t) (ht : t ∉ d.redacted) : s'.LiveTurn t := by
  obtain ⟨⟨affected,preserved⟩,_,h⟩ := bind_ok h
  obtain ⟨⟨s₁,redacted⟩,hr,h⟩ := bind_ok h
  cases h
  unfold redactSources at hr
  split at hr
  · cases hr
    exact hl
  · split at hr
    · cases hr
      exact hl
    · extract_lets r at hr
      split at hr
      · cases hr
      · have hr : r = (s',redacted) := Except.ok.inj hr
        intro turn hturn
        rw [show s' = r.1 from congrArg Prod.fst hr.symm] at hturn
        rw [show redacted = r.2 from congrArg Prod.snd hr.symm] at ht
        exact hl turn (redactSourceTurns_turns hturn ht)

theorem deleteMutate_anchored {memoryId : Option ℕ} {scope : String} {source : OwnerSource}
    {commandId : ℕ} {applied : Applied}
    (h : s.deleteMutate id memoryId content scope source now commandId = .ok (s',applied))
    (ha : s.Anchored)
    (hs : ∀ d, s.deletionPlan id memoryId content scope now commandId = some d → s.SparesEvidence d) :
    s'.Anchored := by
  rcases deleteMutate_cases h with ⟨_,_,he⟩ | ⟨target,selected,s₁,d,affected,found,ht,hd,hdel⟩
  · exact ha.congr (applyCommand_footing he) (applyCommand_frame he).candidates
  · have hread : ∀ p ∈ (id s₁).readSelected d.dependencies d.candidateIds (d.unsourced selected),
        s₁.candidates[p.1]? = some p.2 := fun p hp => readSelected_spec hp
    have hpurged := @invalidateCandidates_purged s₁ _ _ (.command commandId) _ _ _ selected true now hread
    have hf := deletionSources_frame hd
    obtain ⟨hev,hturns⟩ := @invalidateCandidates_turns _ (.command commandId) d.dependencies
      d.candidateIds (d.unsourced selected) selected now id s₁
    refine hdel.anchored ⟨?_,hev.trans hf.evidence,fun t hl hr he => ?_,fun c row hrow hrec => ?_,
      fun e he hr hrow => ?_⟩ ha (hs _ (deletionPlan_eq ht hd rfl hdel.closure))
    · exact (invalidateCandidates_graph ..).trans (deletionSources_graph hd)
    · exact hturns t (deletionSources_turns hd hl hr) he
    · have hout : c ∉ ((id s₁).readSelected d.dependencies d.candidateIds
          (d.unsourced selected)).map (·.1) := fun hin => by
        rw [(invalidateCandidates_forgotten hin hrow).1] at hrec
        cases hrec
      rw [hpurged.others c hout,hf.candidates] at hrow
      exact ⟨hout,hrow⟩
    · rw [← hf.candidates] at hrow
      exact mem_readSelected_cited (hf.evidence ▸ he) (mem_addMembers.mpr (Or.inr hr)) hrow

end

end Tables

section

variable [PyRuntime] {w : State}

/-- Chats stay, nothing retired comes back, no obligation is answered, and every deletion spares
the evidence of what it leaves alone. -/
def Anchoring (w : State) : Op → Prop
  | .deleteOwnerChat .. | .restore .. | .resolveObligation .. => False
  | op => ∀ d, deletionPlan w op = some d → w.data.SparesEvidence d

omit [PyRuntime] in
theorem tends_moves {op : Op} (hop : op.tends = true) {a b : CandidateStatus}
    (hm : op.moves a b = true) (hb : b.reconcilable = true) : a.reconcilable = true := by
  cases op <;> simp_all only [Op.moves,Op.tends,Bool.false_eq_true] <;>
    cases a <;> first | rfl | (cases b <;> simp_all [CandidateStatus.reconcilable,
      CandidateStatus.queued,CandidateStatus.published])

/-- No operation of this kind makes a candidate reconcilable that was not. -/
theorem tends_revives_none {op : Op} (hop : op.tends = true) (hs : Sound w.data) (hl : Legal w op)
    {c : ℕ} {row row' : CandidateRow} (hrow : w.data.candidates[c]? = some row)
    (hrow' : (step w op).data.candidates[c]? = some row') (hr : row'.status.reconcilable = true) :
    row.status.reconcilable = true := by
  let P : Policy := ⟨fun a b => b.reconcilable = true → a.reconcilable = true,False,False⟩
  have hc : Chain P w.data (step w op).data :=
    step_chain hs hl (fun a b hm => tends_moves hop hm) (by cases op <;> trivial) nofun nofun
  obtain ⟨row₁,hrow₁,hm,_⟩ := hc.row
    (fun a b d (hab : P.moves a b) (hbc : P.moves b d) hd => hab (hbc hd)) hrow
  cases Option.some.inj (hrow₁.symm.trans hrow')
  rcases hm with he | hm
  · rwa [← he]
  · exact hm hr

theorem delete_anchored {arguments : DeleteArguments} {transcriptId : Option ℕ} {now : Time}
    (ha : w.data.Anchored)
    (hs : ∀ d, deletionPlan w (.delete arguments transcriptId now) = some d →
      w.data.SparesEvidence d) :
    (step w (.delete arguments transcriptId now)).data.Anchored := by
  have hb : (w.data.beginCommand "delete" arguments.stored
      (w.data.latestOwnerSource transcriptId)).1.Anchored :=
    Tables.Anchored.congr (s := w.data) rfl rfl ha
  refine delete_cases (Q := Tables.Anchored) ha hb (fun e s' he => ?_) fun content applied s' hc he => ?_
  · exact hb.congr (Tables.failCommand_footing he) (Tables.failCommand_frame he).candidates
  · refine Tables.deleteMutate_anchored he hb fun d hd => hs d ?_
    simp only [deletionPlan,hc]
    exact hd

theorem step_anchored {op : Op} (hw : Sound w.data) (hl : Legal w op) (hop : Anchoring w op)
    (ha : w.data.Anchored) : (step w op).data.Anchored := by
  by_cases ht : op.tends = true
  · refine (step_tended ht).anchored ha fun e he row' hrow' hr => ?_
    obtain ⟨row,hrow⟩ := Option.isSome_iff_exists.mp (hw.wellformed.cited e he).1
    exact ⟨row,hrow,tends_revives_none ht hw hl hrow hrow' hr⟩
  · cases op with
    | delete arguments transcriptId now => exact delete_anchored ha hop
    | deleteOwnerChat | restore | resolveObligation => exact hop.elim
    | _ => exact absurd rfl ht

/-- Runs over a store whose memories rest on live turns. -/
abbrev ReachableAnchored : State → Prop :=
  Trace.Reach step (fun w op => Legal w op ∧ Anchoring w op)
    fun w => Initial w ∧ w.data.Anchored

/-- No live candidate and no active memory rests on a deleted turn. -/
theorem no_tombstoned_dependency (h : ReachableAnchored w) : w.data.Anchored := by
  have hi : Sound w.data ∧ w.data.Anchored := by
    refine Trace.Reach.invariant (I := fun w => Sound w.data ∧ w.data.Anchored)
      (fun _ hi => ⟨hi.1.sound,hi.2⟩) (fun t op hI hok => ?_) h
    exact ⟨hI.1.stepLoaded hok.1 (readsCurrent_id t op),step_anchored hI.1 hok.1 hok.2 hI.2⟩
  exact hi.2

end

instance (s : Tables) (d : DeletionPlan) : Decidable (s.SparesEvidence d) := by
  unfold Tables.SparesEvidence
  infer_instance

instance [PyRuntime] (w : State) (op : Op) : Decidable (Anchoring w op) := by
  apply @Op.casesOn (fun op => Decidable (Anchoring w op)) op <;> intros <;> dsimp only [Anchoring] <;>
    infer_instance

/-- A proposal from a model whose response is recorded as a turn of its own. -/
def observedProposal (content : String) (turnIds : List ℕ) (source : IntakeSource) : Op :=
  .enqueueMany [{
    kind := "fact"
    content := content
    scope := "cross_chat"
    confidence := 1
    durability := "long_term"
    subject := none
    nameSpace := none
    evidenceRefs := turnIds.map fun t => {turnId := some t}}] source

/-- A memory whose candidate names the response it was proposed in. -/
def observed : List Op :=
  let claim : CandidateLease := ⟨0,0,0,1⟩
  let snapshot := evaluated claim 0 3 0 [] 0 {}
  [.getOrCreateActive 0,.appendTurn 0 .owner [textBlock "I like tea"] 1,
    .appendTurn 0 .tool [.obj [("type",.str "tool_observation"),("detail",.str "likes tea")]] 2,
    observedProposal "likes tea" [0]
      {sourceTranscriptId := 0, sourceTurnId := 0, sourceProviderEvidenceId := some 1},
    .appendTurn 0 .owner [textBlock "every day"] 3,.claimBatch {} 1 {} 4] ++
  evaluation claim snapshot 0 5 ++ [Op.publish {} claim snapshot createDecision (.uuid 0) 6]

def observedDeletion : Op := .delete {memoryId := some 0, scope := some "memory_only"} none 7

theorem emptyStore_anchored : emptyStore.data.Anchored where
  candidates _ he := absurd he List.not_mem_nil
  memories _ _ hm := by simp [emptyStore] at hm
  provenance _ hp := absurd hp List.not_mem_nil
  edges _ hp := absurd hp List.not_mem_nil

theorem no_tombstoned_dependency_observed :
    letI := plainRuntime
    let w := ran (observed ++ [observedDeletion])
    (∃ t, w.data.turns[1]? = some t ∧ t.deletedAt = some 7) ∧ w.data.Anchored := by
  refine And.imp_right (fun hrun => @no_tombstoned_dependency plainRuntime _
    (Trace.Reach.run (.start ⟨emptyStore_initial,emptyStore_anchored⟩) hrun)) ?_
  rw [plainRuntime_eq]
  decide +kernel

/-- A later candidate that cites the recorded response outlives it. -/
theorem observed_response_cited :
    letI := plainRuntime
    let w := ran (observed ++ [observedProposal "drinks tea every day" [2,1]
      {sourceTranscriptId := 0, sourceTurnId := 2},observedDeletion])
    Reachable (fun _ _ => True) w ∧ ∃ e ∈ w.data.evidence, ∃ row t,
      w.data.candidates[e.candidateId]? = some row ∧ row.status = .pending ∧
        w.data.turns[e.turnId]? = some t ∧ t.deletedAt = some 7 ∧ ¬w.data.Anchored := by
  obtain ⟨hrun,e,he,row,hrow,hs,t,ht,hd⟩ : letI := plainRuntime
    let ops := observed ++ [observedProposal "drinks tea every day" [2,1]
      {sourceTranscriptId := 0, sourceTurnId := 2},observedDeletion]
    let w := ran ops
    Trace.Allowed step (fun w op => Legal w op ∧ True) emptyStore ops ∧
    ∃ e ∈ w.data.evidence, ∃ row, w.data.candidates[e.candidateId]? = some row ∧
      row.status = .pending ∧ ∃ t, w.data.turns[e.turnId]? = some t ∧ t.deletedAt = some 7 := by
    rw [plainRuntime_eq]
    decide +kernel
  refine ⟨@ran_reachable plainRuntime _ _ hrun,e,he,row,t,hrow,hs,ht,hd,fun ha => ?_⟩
  have hl := ha.candidates e he row hrow (by rw [hs]; rfl) t ht
  rw [hd] at hl
  cases hl

end Memory
end Atlas
