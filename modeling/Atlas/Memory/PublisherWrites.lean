import Atlas.Memory.GraphSteps
import Atlas.Memory.Records

/-! What a publication writes into the durable memories, branch by branch: nothing, an
assertion on its target, a grounded legacy row, a predecessor, a new row, a new row with its
correction guard, or a replacement with the row it supersedes. -/
namespace Atlas
namespace Memory

open RowTable DurableMemoryRow

section

variable {ρ : Type*} {time : ρ → Time} {p : ρ → Bool} {t : List ρ}

/-- One row against the newest so far. -/
def newer (time : ρ → Time) (t : List ρ) (best : Option ℕ) (i : ℕ) : Option ℕ :=
  match best with
  | none => some i
  | some j =>
      match t[i]?, t[j]? with
      | some x, some y => if time y ≤ time x then some i else some j
      | _, _ => some j

theorem newer_cases (best : Option ℕ) (i : ℕ) : ∃ j, newer time t best i = some j ∧
    (j = i ∨ best = some j) := by
  unfold newer
  split
  · exact ⟨i,rfl,Or.inl rfl⟩
  · next j =>
    split
    · split
      · exact ⟨i,rfl,Or.inl rfl⟩
      · exact ⟨j,rfl,Or.inr rfl⟩
    · exact ⟨j,rfl,Or.inr rfl⟩

theorem foldl_newer (l : List ℕ) (best : Option ℕ) :
    (l.foldl (newer time t) best = none ↔ l = [] ∧ best = none) ∧
      ∀ j, l.foldl (newer time t) best = some j → j ∈ l ∨ best = some j := by
  induction l generalizing best with
  | nil => exact ⟨by simp,fun j hj => Or.inr hj⟩
  | cons i l ih =>
    obtain ⟨k,hk,hik⟩ := @newer_cases _ time t best i
    rw [List.foldl_cons,hk]
    refine ⟨by simp [(ih (some k)).1],fun j hj => ?_⟩
    rcases (ih (some k)).2 j hj with hj | hj
    · exact Or.inl (List.mem_cons_of_mem _ hj)
    · cases hj
      rcases hik with rfl | hik
      · exact Or.inl List.mem_cons_self
      · exact Or.inr hik

theorem newest_eq (time : ρ → Time) (p : ρ → Bool) (t : List ρ) :
    newest time p t = (ids p t).foldl (newer time t) none := rfl

theorem newest_eq_none (h : newest time p t = none) {i : ℕ} {x : ρ} (hx : t[i]? = some x) :
    p x = false := by
  by_contra hp
  have hmem : i ∈ ids p t := mem_ids.mpr ⟨x,hx,by simpa using hp⟩
  rw [newest_eq,(foldl_newer _ _).1] at h
  exact List.ne_nil_of_mem hmem h.1

theorem newest_row {i : ℕ} (h : newest time p t = some i) : ∃ x, t[i]? = some x ∧ p x = true := by
  rw [newest_eq] at h
  exact ((foldl_newer _ _).2 i h).elim mem_ids.mp nofun

end

/-- No active row has the fingerprint. -/
theorem activeByFingerprint_none {s : Tables} {fingerprint : String}
    (h : s.activeByFingerprint fingerprint = none) (i : ℕ) :
    Unclaimed s.memories i (some fingerprint) := by
  intro j r hr ha hf
  rw [Tables.activeByFingerprint,List.head?_eq_none_iff] at h
  have hmem : j ∈ ids (fun m => m.status == .active && m.fingerprint == some fingerprint)
      s.memories := mem_ids.mpr ⟨r,hr,by simp [ha,hf]⟩
  rw [h] at hmem
  cases hmem

/-- No active row but the given one has the fingerprint. -/
theorem activeByFingerprint_unclaimed {s : Tables} {fingerprint : String} {i : ℕ}
    (hu : UniqueActive s.memories)
    (h : (s.activeByFingerprint fingerprint).any (· ≠ i) = false) :
    Unclaimed s.memories i (some fingerprint) := by
  cases ha : s.activeByFingerprint fingerprint with
  | none => exact activeByFingerprint_none ha i
  | some k =>
    rw [ha] at h
    have hk : k = i := by simpa using h
    obtain ⟨m,hm,hp⟩ := mem_ids.mp (List.mem_of_mem_head? ha)
    simp only [Bool.and_eq_true,beq_iff_eq] at hp
    intro j r hr hra hf
    exact hk ▸ hu j k r m hr hm hra hp.1 (hf.trans hp.2.symm)

section

variable [PyRuntime]

/-- No verified row out of recall has the fingerprint of the content. -/
def Unrestricted (t : List DurableMemoryRow) (content : String) : Prop :=
  ∀ (j : ℕ) (r : DurableMemoryRow), t[j]? = some r → Publication.restricts (memoryFingerprint content) r = false

namespace Publication

/-- The content a publication proposes. -/
def proposal (p : Publication) : Except Failure String :=
  cleanMemoryContent (textOr p.decision.content p.candidate.content) "content"

/-- The publication belongs to an owner's correction of the given memory. -/
def correctsTarget (p : Publication) (i : ℕ) : Prop :=
  p.explicitOperation = "correct" ∧ p.explicitTargetId = some i

/-- A new active row with the proposed content. -/
structure Creates (p : Publication) (t : List DurableMemoryRow) (text : String)
    (row : DurableMemoryRow) : Prop where
  proposed : p.proposal = .ok text
  unrestricted : Unrestricted t text
  unclaimed : Unclaimed t t.length (some (memoryFingerprint text))
  status : row.status = .active
  kind : row.recordKind = "derived"
  content : row.content = some text
  fingerprint : row.fingerprint = some (memoryFingerprint text)
  suppresses : row.suppressesRecall = false
  superseded : row.supersededById = none

inductive Writes (p : Publication) (t : List DurableMemoryRow) : List DurableMemoryRow → Prop
  | nothing : Writes p t t
  | asserted (i : ℕ) (f : DurableMemoryRow → DurableMemoryRow) :
      p.decision.targetMemoryId = some i → i ∈ p.activeIds → (∀ m, Touched m (f m)) →
      Writes p t (t.modify i f)
  | grounded (i : ℕ) (m m' : DurableMemoryRow) (content : String) (t' : List DurableMemoryRow) :
      p.decision.targetMemoryId = some i → i ∈ p.legacyIds → Changes t t' i m m' →
      m.ownerDirected = false → m.status = .active → p.proposal = .ok content →
      Unrestricted t content → Unclaimed t i (some (memoryFingerprint content)) →
      m'.status = m.status → m'.recordKind = m.recordKind → m'.content = some content →
      m'.fingerprint = some (memoryFingerprint content) →
      m'.suppressesRecall = m.suppressesRecall → m'.supersededById = m.supersededById →
      Writes p t t'
  | preceded (i : ℕ) (m row : DurableMemoryRow) (content : String) :
      p.decision.targetMemoryId = some i → i ∈ p.activeIds → t[i]? = some m →
      row.status = .superseded → row.content = some content →
      row.fingerprint = some (memoryFingerprint content) → row.suppressesRecall = true →
      row.supersededById = some i → Writes p t (t ++ [row])
  | created (content : String) (row : DurableMemoryRow) : p.Creates t content row →
      Writes p t (t ++ [row])
  | corrected (content : String) (row : DurableMemoryRow) (g : ℕ) (m m' : DurableMemoryRow)
      (t' : List DurableMemoryRow) : p.Creates t content row → p.correctsTarget g →
      t[g]? = some m → m.recordKind = correctionGuardKind → m.status ≠ .active →
      Changes (t ++ [row]) t' g m m' → m'.status = m.status → SamePayload m m' →
      m'.suppressesRecall = m.suppressesRecall → m'.deletedAt = m.deletedAt →
      m'.deletionOperationId = m.deletionOperationId → m'.supersededById = some t.length →
      Writes p t t'
  | replaced (content : String) (row : DurableMemoryRow) (i : ℕ) (m m' : DurableMemoryRow)
      (t' : List DurableMemoryRow) : p.Creates t content row →
      p.decision.targetMemoryId = some i → i ∈ p.activeIds → t[i]? = some m →
      m.status = .active → p.correctsTarget i ∨ m.ownerDirected = false →
      Changes (t ++ [row]) t' i m m' → m'.status = .superseded → SamePayload m m' →
      m'.suppressesRecall = true → m'.supersededById = some t.length → Writes p t t'

end Publication

end

namespace Tables

variable (s : Tables)

@[simp] theorem addCandidateLineage_memories (memoryId c : ℕ) :
    (s.addCandidateLineage memoryId c).1.memories = s.memories := by
  unfold addCandidateLineage
  dsimp only
  split <;> rfl

@[simp] theorem addProvenance_memories (rows : List ProvenanceRow) :
    (s.addProvenance rows).memories = s.memories := rfl

@[simp] theorem setObligation_memories (id : ℕ) (f : ObligationRow → ObligationRow) :
    (s.setObligation id f).memories = s.memories := rfl

end Tables

namespace Publication

variable {p : Publication} {s : Tables}

@[simp] theorem close_memories (s : Tables) (f : CandidateRow → CandidateRow) (status : String)
    (target : Option ℕ) (result : AttemptResult) :
    (p.close s f status target result).memories = s.memories := rfl

@[simp] theorem complete_memories (s : Tables) (decision result : String) (target : Option ℕ) :
    (p.complete s decision result target).memories = s.memories := rfl

@[simp] theorem block_memories (s : Tables) (code : String) :
    (p.block s code).1.memories = s.memories := rfl

theorem targetIn_spec {listed : List ℕ} {i : ℕ} {target : Option DurableMemoryRow}
    (h : p.targetIn s listed = some (i,target)) :
    p.decision.targetMemoryId = some i ∧ i ∈ listed ∧ s.memories[i]? = target := by
  unfold targetIn at h
  split at h
  · next id hid =>
    split at h
    · next hl =>
      cases h
      exact ⟨hid,by simpa using hl,rfl⟩
    · cases h
  · cases h

variable [PyRuntime]

omit [PyRuntime] in
theorem conflict_footing [PyRuntime] {r : Tables × Published} (h : p.conflict s = .ok r) :
    r.1.footing = s.footing := by
  unfold conflict at h
  split at h
  · cases h
    rfl
  · split at h
    · cases h
      rfl
    · split at h
      · cases h
      · obtain ⟨content,_,h⟩ := bind_ok h
        cases h
        rfl

theorem equivalent_writes (s : Tables) : p.Writes s.memories (p.equivalent s).1.memories := by
  unfold equivalent
  split
  · exact .nothing
  · next targetId target ht =>
    obtain ⟨hid,hl,_⟩ := targetIn_spec ht
    split
    · exact .nothing
    · dsimp only
      simp only [complete_memories]
      split
      · change p.Writes s.memories ((s.addCandidateLineage targetId p.candidateId).1.memories.modify
          targetId _)
        rw [s.addCandidateLineage_memories]
        exact .asserted targetId _ hid hl fun m => ⟨⟨rfl,rfl,rfl,id⟩,rfl,rfl,rfl,rfl,rfl⟩
      · rw [s.addCandidateLineage_memories]
        exact .nothing

theorem groundLegacy_writes {content : String} {r : Tables × Published}
    (hun : UniqueActive s.memories) (hp : p.proposal = .ok content)
    (hu : Unrestricted s.memories content) (h : p.groundLegacy s content = .ok r) : p.Writes s.memories r.1.memories := by
  unfold groundLegacy at h
  split at h
  · cases h
    exact .nothing
  · next targetId target ht =>
    obtain ⟨hid,hl,hrow⟩ := targetIn_spec ht
    split at h
    · cases h
      exact .nothing
    · next hvalid =>
      split at h
      · cases h
        exact .nothing
      · next hdup =>
        obtain ⟨review,_,h⟩ := bind_ok h
        cases h
        obtain ⟨m,hm⟩ : ∃ m, target = some m := by
          cases target with
          | none => simp at hvalid
          | some m => exact ⟨m,rfl⟩
        subst hm
        simp only [Option.any_some,Bool.not_eq_true',Bool.not_eq_false,Bool.and_eq_true,
          beq_iff_eq] at hvalid
        cases review
        all_goals
          apply Writes.grounded targetId m _ content _ hid hl
          · simp only [complete_memories,Tables.setObligation_memories,
              Tables.addCandidateLineage_memories]
            exact .modify hrow _
          · simpa using hvalid.1.1.2
          · exact hvalid.1.1.1.1
          · exact hp
          · exact hu
          · exact activeByFingerprint_unclaimed hun (by simpa using hdup)
          all_goals rfl

theorem historicalPredecessor_writes (s : Tables) (content : String)
    (restriction : Option (ℕ × DurableMemoryRow)) :
    p.Writes s.memories (p.historicalPredecessor s content restriction).1.memories := by
  unfold historicalPredecessor
  split
  · exact .nothing
  · next targetId target ht =>
    obtain ⟨hid,hl,hrow⟩ := targetIn_spec ht
    split
    · exact .nothing
    · next m =>
      split
      · exact .nothing
      · split
        · split
          · exact .nothing
          · rw [historicalLineage,complete_memories,Tables.addCandidateLineage_memories]
            exact .nothing
        · extract_lets row id s₁ lineage s₂
          have hs : s₂.memories = s.memories ++ [{row with
              status := .superseded
              suppressesRecall := true
              supersededById := some targetId
              validTo := m.validFrom}] := by
            change lineage.1.memories = _
            rw [Tables.addCandidateLineage_memories]
          rw [complete_memories,hs]
          exact .preceded targetId m _ content hid hl hrow rfl rfl rfl rfl rfl

/-- `create_active` when no active row has the content. -/
theorem createActive_new (s : Tables) (content : String) (row : DurableMemoryRow)
    (h : s.activeByFingerprint (memoryFingerprint content) = none) :
    s.createActive content row = ({s with memories := s.memories ++ [{row with
      status := .active
      content := some content
      fingerprint := some (memoryFingerprint content)
      suppressesRecall := false}]},s.memories.length,true) := by
  simp only [Tables.createActive,h]

theorem creates_row {content : String} (hp : p.proposal = .ok content)
    (hu : Unrestricted s.memories content)
    (h : s.activeByFingerprint (memoryFingerprint content) = none) (supersedes : Option ℕ)
    (validFrom : Option Time) : p.Creates s.memories content {p.derivedRow content
      (memoryFingerprint content) with
        supersedesId := supersedes
        validFrom := validFrom
        status := .active
        content := some content
        fingerprint := some (memoryFingerprint content)
        suppressesRecall := false} :=
  ⟨hp,hu,activeByFingerprint_none h _,rfl,rfl,rfl,rfl,rfl,rfl⟩

omit [PyRuntime] in
theorem correctionGuard_spec {g : ℕ} {m : DurableMemoryRow} (h : p.correctionGuard s = some (g,m)) :
    p.correctsTarget g ∧ s.memories[g]? = some m := by
  unfold correctionGuard at h
  split at h
  · cases h
  · next hc =>
    obtain ⟨id,hid,h⟩ := Option.bind_eq_some_iff.mp h
    obtain ⟨m',hm,h⟩ := Option.map_eq_some_iff.mp h
    cases h
    exact ⟨⟨not_not.mp hc,hid⟩,hm⟩

theorem create_writes {content : String} (hp : p.proposal = .ok content)
    (hu : Unrestricted s.memories content) :
    p.Writes s.memories (p.create s content).1.memories := by
  unfold create
  split
  · exact .nothing
  · next hnone =>
    have hnone : s.activeByFingerprint (memoryFingerprint content) = none := by simpa using hnone
    extract_lets target guardId row
    split
    · exact .nothing
    · rw [createActive_new s content _ hnone]
      dsimp only
      split
      · exact .nothing
      · simp only [complete_memories]
        have hc := creates_row hp hu hnone guardId (if p.corrects then none else row.validFrom)
        cases hg : guardId with
        | none =>
          rw [hg] at hc
          dsimp only
          rw [Tables.addCandidateLineage_memories]
          exact .created content _ hc
        | some g =>
          rw [hg] at hc
          obtain ⟨⟨g',m⟩,hf,rfl⟩ := Option.map_eq_some_iff.mp hg
          obtain ⟨ht,hcond⟩ := Option.filter_eq_some_iff.mp hf
          obtain ⟨hcor,hrow⟩ := correctionGuard_spec ht
          simp only [Bool.and_eq_true,Bool.or_eq_true,beq_iff_eq] at hcond
          apply Writes.corrected content _ g' m _ _ hc hcor hrow hcond.2
          · rcases hcond.1 with h | h <;> (rw [h]; nofun)
          · change Changes _ (List.modify (Tables.addCandidateLineage _ _ _).1.memories g' _) g' m _
            rw [Tables.addCandidateLineage_memories]
            exact .modify (getElem?_insert_of_some hrow) _
          all_goals first | rfl | exact ⟨rfl,rfl,rfl,id⟩

omit [PyRuntime] in
/-- The row a replacement supersedes is the target of its own correction, or not the owner's. -/
theorem replace_target {i : ℕ} {m : DurableMemoryRow}
    (hmis : ¬((p.explicitOperation == "correct" && p.explicitTargetId.isSome) &&
      p.explicitTargetId != some i) = true)
    (h : ((p.explicitOperation == "correct" && p.explicitTargetId.isSome) ||
      (!m.ownerDirected && m.derived)) = true) : p.correctsTarget i ∨ m.ownerDirected = false := by
  rcases Bool.or_eq_true_iff.mp h with he | hd
  · left
    simp only [he,Bool.true_and,bne_iff_ne,ne_eq,not_not] at hmis
    simp only [Bool.and_eq_true,beq_iff_eq] at he
    exact ⟨he.1,hmis⟩
  · right
    simp only [Bool.and_eq_true,Bool.not_eq_true'] at hd
    exact hd.1

theorem replace_writes {content : String} (hp : p.proposal = .ok content)
    (hu : Unrestricted s.memories content) :
    p.Writes s.memories (p.replace s content).1.memories := by
  unfold replace
  split
  · exact .nothing
  · next targetId target ht =>
    obtain ⟨hid,hl,hrow⟩ := targetIn_spec ht
    extract_lets explicitTarget row
    split
    · exact .nothing
    · next hmis =>
      split
      · exact .nothing
      · next hvalid =>
        split
        · split <;> exact .nothing
        · next hnone =>
          rw [createActive_new s content _ hnone]
          dsimp only
          split
          · exact .nothing
          · obtain ⟨m,hm⟩ : ∃ m, target = some m := by
              cases target with
              | none => simp at hvalid
              | some m => exact ⟨m,rfl⟩
            subst hm
            simp only [Option.any_some,Bool.not_eq_true',Bool.not_eq_false,Bool.and_eq_true,
              beq_iff_eq] at hvalid
            have hc := creates_row hp hu hnone (some targetId)
              (if p.corrects then none else row.validFrom)
            apply Writes.replaced content _ targetId m _ _ hc hid hl hrow hvalid.1.1.1
            · exact replace_target hmis (by simpa [explicitTarget] using hvalid.1.1.2)
            · rw [complete_memories,Tables.addProvenance_memories,
                Tables.addCandidateLineage_memories]
              exact .modify (getElem?_insert_of_some hrow) _
            · rfl
            · exact ⟨rfl,rfl,rfl,nofun⟩
            all_goals rfl

/-- Without a restriction to report there is no restricting row. -/
theorem unrestricted_of_restriction {content : String} (h : p.restriction s content = none) :
    Unrestricted s.memories content := by
  intro j r hr
  rw [restriction,Option.bind_eq_none_iff] at h
  have hnone : newest (·.updatedAt) (restricts (memoryFingerprint content)) s.memories = none := by
    by_contra hn
    obtain ⟨i,hi⟩ := Option.ne_none_iff_exists'.mp hn
    obtain ⟨x,hx,_⟩ := newest_row hi
    have hrow := h i hi
    rw [hx] at hrow
    cases hrow
  exact newest_eq_none hnone hr

theorem write_writes {r : Tables × Published} (hun : UniqueActive s.memories)
    (h : p.write s = .ok r) : p.Writes s.memories r.1.memories := by
  obtain ⟨content,hp,h⟩ := bind_ok h
  dsimp only at h
  split at h
  · cases h
    exact .nothing
  · next hres =>
    have hu : p.decision.decision ≠ .historicalPredecessor → Unrestricted s.memories content := by
      intro hd
      refine unrestricted_of_restriction (p := p) ?_
      cases hr : p.restriction s content with
      | none => rfl
      | some q => simp [hr,hd] at hres
    split at h
    · next hd => exact groundLegacy_writes hun hp (hu (by rw [hd]; nofun)) h
    · cases h
      exact historicalPredecessor_writes s content _
    · next hd =>
      cases h
      exact create_writes hp (hu (by rw [hd]; nofun))
    · next hd =>
      cases h
      exact replace_writes hp (hu (by rw [hd]; nofun))
    · next hd =>
      cases h
      exact replace_writes hp (hu (by rw [hd]; nofun))
    · cases h
      exact .nothing

theorem decide_writes {config : PublisherConfig} {r : Tables × Published}
    (hun : UniqueActive s.memories) (h : p.decide config s = .ok r) :
    p.Writes s.memories r.1.memories := by
  unfold decide at h
  extract_lets sourceStale durable at h
  split at h
  · cases h
    exact .nothing
  · split at h
    · cases h
      exact .nothing
    · split at h
      · cases h
        exact .nothing
      · split at h
        · cases h
          exact .nothing
        · split at h
          · cases h
            exact .nothing
          · split at h
            · cases h
              exact .nothing
            · split at h
              · cases h
                exact .nothing
              · rw [Tables.graph_memories (Tables.footing_graph (conflict_footing h))]
                exact .nothing
              · cases h
                exact equivalent_writes s
              · exact write_writes hun h

end Publication

namespace Tables

variable [PyRuntime] {s s' : Tables} {claim : CandidateLease}

omit [PyRuntime] in
theorem advanceCandidateState_memories {c i : ℕ} {row : CandidateRow} {a : AttemptRow}
    (h : s.advanceCandidateState c i row a = .ok s') : s'.memories = s.memories := by
  rw [advanceCandidateState_eq h]
  rfl

/-- What a publication writes, it writes as the publication of the claimed candidate at a
lease that holds. -/
theorem publishAndSettle_writes {config : PublisherConfig} {snapshot : EvaluationSnapshot}
    {decision : ReconciliationDecision} {operationId : OperationId} {now : Time} {pub : Published}
    (hun : UniqueActive s.memories)
    (h : s.publishAndSettle config claim snapshot decision operationId now = .ok (s',pub)) :
    s'.memories = s.memories ∨ ∃ row turnId, s.candidates[claim.candidateId]? = some row ∧
      Publication.Writes ⟨claim.candidateId,claim.attemptId,row,snapshot,decision,turnId,now⟩
        s.memories s'.memories := by
  obtain ⟨r,hp,hr⟩ := map_ok h
  have hs' : s'.memories = r.1.memories := by
    split at hr
    · cases hr
      exact settle_memories ..
    · cases hr
      rfl
  rw [hs']
  unfold publishMutate at hp
  split at hp
  · cases hp
  · extract_lets candidate s₁ close at hp
    split at hp
    · cases hp
      exact Or.inl rfl
    · have hc : s.candidates[claim.candidateId]? = candidate := rfl
      clear_value candidate
      cases candidate with
      | none =>
        cases hp
        exact Or.inl rfl
      | some row =>
        dsimp only at hp
        split at hp
        · cases hp
          left
          split <;> rfl
        · split at hp
          · cases hp
            exact Or.inl rfl
          · split at hp
            · cases hp
              exact Or.inl rfl
            · obtain ⟨s₂,hadv,hp⟩ := bind_ok hp
              have hm : s₂.memories = s.memories := (advanceCandidateState_memories hadv).trans rfl
              have hw := Publication.decide_writes (hm ▸ hun) hp
              exact Or.inr ⟨row,_,hc,hm ▸ hw⟩

end Tables

end Memory
end Atlas
