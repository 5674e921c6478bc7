import Atlas.Memory.Closure
import Atlas.Memory.PublisherFrame

/-! What a committed deletion leaves of the lineage of the memories it marked: the edges out of
them are gone, and the candidates behind them are purged where the first walk found the memory. -/
namespace Atlas
namespace Memory

open RowTable

/-- A candidate whose text a purge removed. -/
def CandidateRow.Forgotten (row : CandidateRow) : Prop :=
  row.status = .invalidated ∧ row.content = none ∧ row.fingerprint = none

/-- The memories a deletion's walk from its target finds, the candidates it purges, the evidence
turns that purge redacts, and all the memories it deletes. -/
structure DeletionPlan where
  walked : List ℕ
  candidateIds : List ℕ
  evidenceTurnIds : List ℕ
  affected : List ℕ
  deriving Repr, DecidableEq

/-- The memories that only the second walk reaches. -/
def DeletionPlan.latecomers (d : DeletionPlan) : List ℕ :=
  d.affected.filter fun id => !d.walked.contains id

namespace Tables

variable {s s' : Tables}

@[simp] theorem settle_receipts (s : Tables) (c : ℕ) (now : Time) (memoryId : Option ℕ)
    (code resolution : Option String) :
    (s.settleExplicitObligation c now memoryId code resolution).receipts = s.receipts := by
  obtain ⟨_,_,h⟩ := s.settle_eq c now memoryId code resolution
  rw [h]

theorem purgeCandidate_receipts (operationId : OperationId) (now : Time) (scrub : Bool) (s : Tables)
    (p : ℕ × CandidateRow) : (purgeCandidate operationId now scrub s p).receipts = s.receipts := by
  unfold purgeCandidate
  dsimp only
  split
  · exact settle_receipts ..
  · exact settle_receipts ..

section

variable [PyRuntime] {loaded : Tables → Tables}

theorem redactEvidenceTurn_receipts (operationId : OperationId) (now : Time)
    (content redactContent : Option String) (s : Tables) (row : CandidateRow) :
    (redactEvidenceTurn operationId now content redactContent s row).receipts = s.receipts := by
  unfold redactEvidenceTurn
  split
  · rfl
  · split
    · rfl
    · dsimp only
      split <;> rfl

theorem invalidateCandidates_receipts (loaded : Tables → Tables) (s : Tables)
    (operationId : OperationId) (turnIds candidateIds : List ℕ)
    (content redactContent : Option String) (scrub : Bool) (now : Time) :
    (s.invalidateCandidates loaded operationId turnIds candidateIds content redactContent scrub
      now).1.receipts = s.receipts := by
  unfold invalidateCandidates
  extract_lets read selected redacted evidenceTurns purged
  have hred : redacted.receipts = s.receipts := by
    dsimp only [redacted]
    split
    · exact Trace.foldl_invariant (I := fun t : Tables => t.receipts = s.receipts) _
        (fun t row _ ht => (redactEvidenceTurn_receipts operationId now content redactContent t
          row).trans ht) rfl
    · rfl
  have hpurged : purged.receipts = s.receipts :=
    Trace.foldl_invariant (I := fun t : Tables => t.receipts = s.receipts) read
      (fun t p _ ht => (purgeCandidate_receipts operationId now scrub t p).trans ht) hred
  dsimp only
  split
  · exact hpurged
  · exact hpurged

theorem deletionSources_receipts {operationId : OperationId} {scope : String} {target : Option ℕ}
    {selected : Option String} {now : Time} {d : DeletionSources}
    (h : s.deletionSources operationId scope target selected now = .ok (s',d)) :
    s'.receipts = s.receipts := by
  obtain ⟨⟨affected,preserved⟩,_,h⟩ := bind_ok h
  obtain ⟨⟨s₁,redacted⟩,hr,h⟩ := bind_ok h
  cases h
  unfold redactSources at hr
  split at hr
  · cases hr
    rfl
  · split at hr
    · cases hr
      rfl
    · extract_lets r at hr
      split at hr
      · cases hr
      · rw [show s' = r.1 from (congrArg Prod.fst (Except.ok.inj hr)).symm]
        rfl

/-- The candidates of the memories the first walk found are named for the purge. -/
theorem deletionSources_candidateIds {operationId : OperationId} {scope : String}
    {target : Option ℕ} {selected : Option String} {now : Time} {d : DeletionSources}
    (h : s.deletionSources operationId scope target selected now = .ok (s',d)) {p : ProvenanceRow}
    (hp : p ∈ s.provenance) (hm : p.memoryId ∈ d.affected) {c : ℕ}
    (hc : p.sourceCandidateId = some c) : c ∈ d.candidateIds := by
  obtain ⟨⟨affected,preserved⟩,_,h⟩ := bind_ok h
  obtain ⟨⟨s₁,redacted⟩,_,h⟩ := bind_ok h
  cases h
  refine (mem_firstOccurrences _ _).mpr (List.mem_filterMap.mpr ⟨p,List.mem_filter.mpr ⟨hp,?_⟩,hc⟩)
  exact List.contains_iff_mem.mpr hm

theorem mem_readSelected {turnIds candidateIds : List ℕ} {content : Option String} {c : ℕ}
    {row : CandidateRow} (hrow : s.candidates[c]? = some row) (hc : c ∈ candidateIds) :
    c ∈ (s.readSelected turnIds candidateIds content).map (·.1) := by
  refine List.mem_map.mpr ⟨(c,row),List.mem_filterMap.mpr ⟨c,?_,by rw [hrow]; rfl⟩,rfl⟩
  refine List.mem_filter.mpr ⟨List.mem_range.mpr (List.getElem?_eq_some_iff.mp hrow).1,?_⟩
  rw [hrow]
  simp [hc]

end

section

variable {r : Tables × List ℕ × List ℕ} {d : DeletionSources} {affected found : List ℕ}
  {target : Option ℕ} {source : OwnerSource} {commandId : ℕ} {now : Time}

/-- Detaching changes no memory's status. -/
theorem detached_memory (m : ℕ) : ((detached r d affected found now).memories[m]?).map (·.status) =
    (r.1.memories[m]?).map (·.status) := by
  unfold detached
  split
  · rfl
  · simp only [detachPurgedDependencies,List.getElem?_mapIdx,Option.map_map]
    refine congrArg (Option.map · _) (funext fun row => ?_)
    dsimp only [Function.comp]
    split
    · split
      · rfl
      · split
        · rfl
        · split <;> split <;> rfl
    · rfl

/-- What a preserved memory derived from the purged rows is detached. -/
theorem detached_provenance {p : ProvenanceRow}
    (hp : p ∈ (detached r d affected found now).provenance) : p ∈ r.1.provenance ∧
      (p.memoryId ∈ found → (∀ m ∈ affected, p.sourceMemoryId ≠ some m) ∧
        ∀ c ∈ r.2.1, p.sourceCandidateId ≠ some c) := by
  unfold detached at hp
  split at hp
  · next hnone =>
    refine ⟨hp,fun hf => ?_⟩
    have : p.memoryId ∈ addMembers d.preserved found := mem_addMembers.mpr (Or.inr hf)
    rw [hnone] at this
    cases this
  · obtain ⟨hp,hkept⟩ := List.mem_filter.mp hp
    refine ⟨hp,fun hf => ⟨fun m hm hs => ?_,fun c hc hs => ?_⟩⟩
    · simp [mem_addMembers,hf,hs,hm] at hkept
    · simp [mem_addMembers,hf,hs,hc] at hkept

theorem deleteRows_memory {operationId : OperationId} {m : ℕ} (hm : m < s.memories.length) :
    (s.deleteRows operationId target affected source now).1.memories[m]? =
      (s.memories[m]?).map fun row =>
        if affected.contains m then deletedRow operationId now row else row := by
  cases target with
  | some id => simp only [deleteRows,List.getElem?_mapIdx]
  | none =>
    simp only [deleteRows]
    rw [List.getElem?_append_left (by simpa using hm),List.getElem?_mapIdx]

/-- A deletion marks the rows of the memories it reached and no others. -/
theorem Deletion.memory_status (h : Deletion s' r d commandId target source now affected found)
    {m : ℕ} {row : DurableMemoryRow} (hm : r.1.memories[m]? = some row) :
    ∃ row', s'.memories[m]? = some row' ∧
      (m ∈ affected → row'.status = .deleted ∧ row'.deletionOperationId = some (.command commandId)) ∧
      (m ∉ affected → row'.status = row.status) := by
  have hrow := @detached_memory r d affected found now m
  rw [hm,Option.map_some] at hrow
  obtain ⟨mid,hmid,hs⟩ := Option.map_eq_some_iff.mp hrow
  have hafter : s'.memories[m]? = some
      (if affected.contains m then deletedRow (.command commandId) now mid else mid) := by
    rw [graph_memories h.graph,deleteRows_memory (List.getElem?_eq_some_iff.mp hmid).1,hmid]
    rfl
  refine ⟨_,hafter,fun hin => ?_,fun hout => ?_⟩
  · rw [if_pos (List.contains_iff_mem.mpr hin)]
    exact ⟨rfl,rfl⟩
  · rw [if_neg fun hc => hout (List.contains_iff_mem.mp hc)]
    exact hs

theorem deleteRows_provenance (operationId : OperationId) :
    (s.deleteRows operationId target affected source now).1.provenance = s.provenance := by
  cases target <;> rfl

/-- A row that is not deleted afterwards was there before and was not reached. -/
theorem deleteRows_kept {operationId : OperationId} {m : ℕ} {row : DurableMemoryRow}
    (hrow : (s.deleteRows operationId target affected source now).1.memories[m]? = some row)
    (hs : row.status ≠ .deleted) : m ∉ affected ∧ s.memories[m]? = some row := by
  have hmark : ∀ x, (s.memories.mapIdx fun id row =>
      if affected.contains id then deletedRow operationId now row else row)[m]? = some x →
      x.status ≠ .deleted → m ∉ affected ∧ s.memories[m]? = some x := by
    intro x hx hxs
    rw [List.getElem?_mapIdx] at hx
    obtain ⟨y,hy,rfl⟩ := Option.map_eq_some_iff.mp hx
    split at hxs
    · exact absurd rfl hxs
    · next hout =>
      rw [if_neg hout]
      exact ⟨fun hin => hout (List.contains_iff_mem.mpr hin),hy⟩
  cases target with
  | some id => exact hmark row hrow hs
  | none =>
    simp only [deleteRows,getElem?_insert] at hrow
    split at hrow
    · cases hrow
      exact absurd rfl hs
    · exact hmark row hrow hs

/-- No memory that is left rests on a memory or a candidate that the deletion removed. -/
theorem Deletion.severed (h : Deletion s' r d commandId target source now affected found)
    {p : ProvenanceRow} (hp : p ∈ s'.provenance) {row : DurableMemoryRow}
    (hrow : s'.memories[p.memoryId]? = some row) (hs : row.status ≠ .deleted) :
    (∀ m ∈ affected, p.sourceMemoryId ≠ some m) ∧ ∀ c ∈ r.2.1, p.sourceCandidateId ≠ some c := by
  have hprov : p ∈ (detached r d affected found now).provenance := by
    rwa [graph_provenance h.graph,deleteRows_provenance] at hp
  obtain ⟨hp,hdetached⟩ := detached_provenance hprov
  have hdeps := dependentMemoryClosure_dependents h.closure
  have hout : p.memoryId ∉ affected := by
    rw [graph_memories h.graph] at hrow
    exact (deleteRows_kept hrow hs).1
  refine ⟨fun m hm hsrc => ?_,fun c hc hsrc => ?_⟩
  · have hf := (hdeps.memory p hp m hm hsrc).resolve_left hout
    exact (hdetached hf).1 m hm hsrc
  · have hf := (hdeps.candidate p hp c hc hsrc).resolve_left hout
    exact (hdetached hf).2 c hc hsrc

end

/-- What a deletion finds in the store before it deletes rows. -/
def deletionPlan [PyRuntime] (loaded : Tables → Tables) (memoryId : Option ℕ)
    (content : Option String) (scope : String) (now : Time) (commandId : ℕ) (s : Tables) :
    Option DeletionPlan :=
  match s.deleteTarget memoryId content with
  | .ok (.selected target selected) =>
      match s.deletionSources (.command commandId) scope target selected now with
      | .ok (s,d) =>
          let r := s.invalidateCandidates loaded (.command commandId) d.dependencies d.candidateIds
            (d.unsourced selected) selected true now
          match r.1.dependentMemoryClosure (addMembers d.affected (r.1.turnDependents d.dependencies))
            r.2.1 target.toList with
          | .ok (affected,_) => some ⟨d.affected,r.2.1,r.2.2,affected⟩
          | .error _ => none
      | .error _ => none
  | _ => none

theorem deletionPlan_eq [PyRuntime] {loaded : Tables → Tables} {memoryId : Option ℕ}
    {content : Option String} {scope : String} {s₁ : Tables} {selected : Option String}
    {r : Tables × List ℕ × List ℕ}
    (ht : s.deleteTarget memoryId content = .ok (.selected target selected))
    (hd : s.deletionSources (.command commandId) scope target selected now = .ok (s₁,d))
    (hr : s₁.invalidateCandidates loaded (.command commandId) d.dependencies d.candidateIds
      (d.unsourced selected) selected true now = r)
    (hc : r.1.dependentMemoryClosure (addMembers d.affected (r.1.turnDependents d.dependencies)) r.2.1
      target.toList = .ok (affected,found)) :
    s.deletionPlan loaded memoryId content scope now commandId =
      some ⟨d.affected,r.2.1,r.2.2,affected⟩ := by
  subst hr
  simp only [deletionPlan,ht,hd,hc]

/-- The candidates behind the marked memories are purged, and no memory that is left rests on a
marked one or on a purged candidate. -/
def LineageScrubbed (s s' : Tables) (r : DeletionReceiptRow) : Prop :=
  (∀ p ∈ s.provenance, p.memoryId < s.memories.length → p.memoryId ∈ r.memoryIds →
    ∀ c row, p.sourceCandidateId = some c → s'.candidates[c]? = some row → row.Forgotten) ∧
  ∀ p ∈ s'.provenance, ∀ row, s'.memories[p.memoryId]? = some row → row.status ≠ .deleted →
    (∀ m ∈ r.memoryIds, m < s.memories.length → p.sourceMemoryId ≠ some m) ∧
      ∀ c ∈ r.candidateIds, p.sourceCandidateId ≠ some c

/-- The rows a deletion marked are those its receipt lists. -/
def Marks (s s' : Tables) (r : DeletionReceiptRow) : Prop :=
  ∀ m row, s.memories[m]? = some row → ∃ row', s'.memories[m]? = some row' ∧
    (m ∈ r.memoryIds → row'.status = .deleted ∧ row'.deletionOperationId = some r.operationId) ∧
    (m ∉ r.memoryIds → row'.status = row.status)

/-- The candidates behind the memories that only the second walk reaches are purged, or an
earlier purge has emptied them. -/
def PurgedBehind (s : Tables) (d : DeletionPlan) : Prop :=
  ∀ p ∈ s.provenance, p.memoryId < s.memories.length → p.memoryId ∈ d.latecomers →
    ∀ c row, p.sourceCandidateId = some c → s.candidates[c]? = some row →
      c ∈ d.candidateIds ∨ row.Forgotten

/-- What a deletion did about a lineage, given what its purge did about candidates. -/
theorem Deletion.lineage {r : Tables × List ℕ × List ℕ} {d : DeletionSources}
    {affected found : List ℕ}
    (h : Deletion s' r d commandId target source now affected found) (hgraph : r.1.graph = s.graph)
    (hpurged : ∀ c row, c ∈ r.2.1 → r.1.candidates[c]? = some row → row.Forgotten)
    (hothers : ∀ c, c ∉ r.2.1 → r.1.candidates[c]? = s.candidates[c]?)
    (hfirst : ∀ p ∈ s.provenance, p.memoryId ∈ d.affected → ∀ c row, p.sourceCandidateId = some c →
      s.candidates[c]? = some row → c ∈ r.2.1) {receipt : DeletionReceiptRow}
    (hop : receipt.operationId = .command commandId) (hcand : receipt.candidateIds = r.2.1)
    (hids : receipt.memoryIds = if target = none then affected ++ [r.1.memories.length] else affected) :
    s.Marks s' receipt ∧ (s.LineageScrubbed s' receipt ↔
      s.PurgedBehind ⟨d.affected,r.2.1,r.2.2,affected⟩) := by
  have hmem := graph_memories hgraph
  have hlate : ∀ m, m ∈ DeletionPlan.latecomers ⟨d.affected,r.2.1,r.2.2,affected⟩ ↔
      m ∈ affected ∧ m ∉ d.affected := by simp [DeletionPlan.latecomers]
  have hlisted : ∀ m, m < s.memories.length → (m ∈ receipt.memoryIds ↔ m ∈ affected) := by
    intro m hm
    rw [hids,hmem]
    split
    · rw [List.mem_append,List.mem_singleton]
      exact or_iff_left (Nat.ne_of_lt hm)
    · exact Iff.rfl
  refine ⟨fun m row hrow => ?_,fun hl p hp hlt hnew c row hc hrow => ?_,fun hb => ⟨?_,?_⟩⟩
  · obtain ⟨row',hrow',hin,hout⟩ := h.memory_status (hmem ▸ hrow)
    have hm := hlisted m (List.getElem?_eq_some_iff.mp hrow).1
    rw [hop]
    exact ⟨row',hrow',fun hx => hin (hm.mp hx),fun hx => hout fun hy => hx (hm.mpr hy)⟩
  · by_cases hsel : c ∈ r.2.1
    · exact Or.inl hsel
    · have hafter : s'.candidates[c]? = some row := by rw [h.candidates,hothers c hsel,hrow]
      exact Or.inr (hl.1 p hp hlt ((hlisted _ hlt).mpr ((hlate _).mp hnew).1) c row hc
        hafter)
  · intro p hp hlt hin c row hc hrow
    rw [h.candidates] at hrow
    by_cases hsel : c ∈ r.2.1
    · exact hpurged c row hsel hrow
    · rw [hothers c hsel] at hrow
      by_cases hd : p.memoryId ∈ d.affected
      · exact absurd (hfirst p hp hd c row hc hrow) hsel
      · have hnew := (hlate _).mpr ⟨(hlisted _ hlt).mp hin,hd⟩
        exact (hb p hp hlt hnew c row hc hrow).resolve_left hsel
  · intro p hp row hrow hs
    obtain ⟨hm,hc⟩ := h.severed hp hrow hs
    exact ⟨fun m hx hlt => hm m ((hlisted m hlt).mp hx),fun c hx => hc c (hcand ▸ hx)⟩

section

variable [PyRuntime]

theorem invalidateCandidates_forgotten {operationId : OperationId} {turnIds candidateIds : List ℕ}
    {content redactContent : Option String} {c : ℕ} {row : CandidateRow}
    (hc : c ∈ (s.readSelected turnIds candidateIds content).map (·.1))
    (hrow : (s.invalidateCandidates id operationId turnIds candidateIds content redactContent true
      now).1.candidates[c]? = some row) : row.Forgotten := by
  obtain ⟨p,hp,rfl⟩ := List.mem_map.mp hc
  have hpurged := @invalidateCandidates_purged s _ id operationId turnIds candidateIds content redactContent
    true now (fun p hp => readSelected_spec (s := s) hp)
  have h := ((hpurged.selected p hp).2).symm.trans hrow
  rw [← Option.some.inj h]
  exact ⟨rfl,rfl,rfl⟩

theorem deleteMutate_lineage {memoryId : Option ℕ} {content : Option String} {scope : String}
    {applied : Applied}
    (h : s.deleteMutate id memoryId content scope source now commandId = .ok (s',applied)) :
    (s'.receipts = s.receipts ∧ s'.graph = s.graph) ∨
    ∃ r, s'.receipts = s.receipts ++ [r] ∧ s.Marks s' r ∧ ∃ d,
      s.deletionPlan id memoryId content scope now commandId = some d ∧
        (s.LineageScrubbed s' r ↔ s.PurgedBehind d) := by
  rcases deleteMutate_cases h with ⟨id,_,ha⟩ | ⟨target,selected,s₁,d,affected,found,ht,hd,hdel⟩
  · exact Or.inl ⟨applyCommand_receipts ha,footing_graph (applyCommand_footing ha)⟩
  · refine Or.inr ?_
    have hread : ∀ p ∈ (id s₁).readSelected d.dependencies d.candidateIds (d.unsourced selected),
        s₁.candidates[p.1]? = some p.2 := fun p hp => readSelected_spec hp
    have hpurged := @invalidateCandidates_purged s₁ _ _ (.command commandId) _ _ _ selected true now hread
    obtain ⟨receipt,hreceipts,hop,hcand,hids⟩ := hdel.receipt
    have hgraph := (invalidateCandidates_graph id s₁ (.command commandId) d.dependencies
      d.candidateIds (d.unsourced selected) selected true now).trans (deletionSources_graph hd)
    have hmem := (deletionSources_frame hd).candidates
    refine ⟨receipt,?_,(hdel.lineage hgraph ?_ ?_ ?_ hop hcand hids).imp_right fun hiff =>
      ⟨_,deletionPlan_eq ht hd rfl hdel.closure,hiff⟩⟩
    · rw [hreceipts,invalidateCandidates_receipts,deletionSources_receipts hd]
    · exact fun c row hc hrow => invalidateCandidates_forgotten hc hrow
    · exact fun c hc => (hpurged.others c hc).trans (congrArg (·[c]?) hmem)
    · intro p hp hm c row hc hrow
      rw [← hmem] at hrow
      exact mem_readSelected hrow (deletionSources_candidateIds hd hp hm hc)

end

end Tables

section

variable [PyRuntime] {w : State}

/-- What an operation would delete and purge in the store, if it is a deletion. -/
def deletionPlan (w : State) : Op → Option DeletionPlan
  | .delete arguments transcriptId now =>
      let source := w.data.latestOwnerSource transcriptId
      match arguments.content.mapM fun c => cleanMemoryContent (some c) "content" with
      | .ok content => Tables.deletionPlan id arguments.memoryId content arguments.effectiveScope now
          w.data.commands.length (w.data.beginCommand "delete" arguments.stored source).1
      | .error _ => none
  | _ => none

/-- A lifecycle command writes nothing, fails with its row marked, or runs its mutation. -/
theorem runCommand_cases {Q : Tables → Prop} {operation : String} {arguments : Dict}
    {source : OwnerSource} {hb : 1 ≤ operation.length ∧ operation.length ≤ 64} {now : Time}
    {mutate : ℕ → Tables → Except Failure (Tables × Applied)} (hsame : Q w.data)
    (hbegun : Q (w.data.beginCommand operation arguments source).1)
    (hfail : ∀ e s', (w.data.beginCommand operation arguments source).1.failCommand
      w.data.commands.length e now = .ok s' → Q s')
    (h : ∀ applied s', mutate w.data.commands.length (w.data.beginCommand operation arguments source).1 =
      .ok (s',applied) → Q s') : Q (runCommand w operation arguments source hb now mutate).1.data := by
  unfold runCommand
  rcases transact_cases w fun s => .ok (s.beginCommand operation arguments source) with
    ⟨e,he⟩ | ⟨s,commandId,hs,_,he⟩
  · rw [he]
    exact hsame
  · cases hs
    rw [he]
    dsimp only
    rcases execute_written {w with data := (w.data.beginCommand operation arguments source).1}
      (lifecycleEnvelope w.data.commands.length operation source hb)
      (memoryMutation (mutate w.data.commands.length)) with hdata | ⟨outcome,receipt,hr,hm⟩
    · split
      · exact hdata ▸ hbegun
      · refine transact_rel (R := fun s t => s = (w.data.beginCommand operation arguments source).1 →
          Q t) (fun s hs => hs ▸ hbegun) (fun s u hs he => ?_) hdata
        obtain ⟨s₁,hf,hs₁⟩ := map_ok hs
        cases hs₁
        exact hfail _ _ (he ▸ hf)
    · obtain ⟨_,applied,hm⟩ := memoryMutation_ok hm
      split
      · exact h applied _ hm
      · next he => cases hr.symm.trans he

theorem delete_cases {Q : Tables → Prop} {loaded : Tables → Tables} {arguments : DeleteArguments}
    {transcriptId : Option ℕ} {now : Time} (hsame : Q w.data)
    (hbegun : Q (w.data.beginCommand "delete" arguments.stored
      (w.data.latestOwnerSource transcriptId)).1)
    (hfail : ∀ e s', (w.data.beginCommand "delete" arguments.stored
      (w.data.latestOwnerSource transcriptId)).1.failCommand w.data.commands.length e now = .ok s' →
        Q s')
    (h : ∀ content applied s',
      arguments.content.mapM (fun c => cleanMemoryContent (some c) "content") = .ok content →
      (w.data.beginCommand "delete" arguments.stored
        (w.data.latestOwnerSource transcriptId)).1.deleteMutate loaded arguments.memoryId content
          arguments.effectiveScope (w.data.latestOwnerSource transcriptId) now w.data.commands.length =
            .ok (s',applied) → Q s') :
    Q (delete w loaded arguments transcriptId now).1.data := by
  unfold delete
  extract_lets scope
  split
  · exact hsame
  · next content hc =>
    split
    · exact hsame
    · split
      · exact hsame
      · exact runCommand_cases hsame hbegun hfail fun applied s' hm => h content applied s' hc hm

/-- A deletion marks nothing, or the rows its receipt lists. Their lineage is scrubbed if and only
if the candidates behind those that only the second walk reaches are purged. -/
theorem deletion_lineage (w : State) (arguments : DeleteArguments) (transcriptId : Option ℕ)
    (now : Time) :
    let op := Op.delete arguments transcriptId now
    let s' := (step w op).data
    (s'.receipts = w.data.receipts ∧ s'.graph = w.data.graph) ∨
    ∃ r, s'.receipts = w.data.receipts ++ [r] ∧ w.data.Marks s' r ∧ ∃ d, deletionPlan w op = some d ∧
      (w.data.LineageScrubbed s' r ↔ w.data.PurgedBehind d) := by
  intro op s'
  refine delete_cases (Q := fun t => (t.receipts = w.data.receipts ∧ t.graph = w.data.graph) ∨
    ∃ r, t.receipts = w.data.receipts ++ [r] ∧ w.data.Marks t r ∧ ∃ d, deletionPlan w op = some d ∧
      (w.data.LineageScrubbed t r ↔ w.data.PurgedBehind d))
    (Or.inl ⟨rfl,rfl⟩) (Or.inl ⟨rfl,rfl⟩) (fun e t he => Or.inl ?_) (fun content applied t hc he => ?_)
  · exact ⟨(Tables.failCommand_receipts he).trans rfl,
      (Tables.footing_graph (Tables.failCommand_footing he)).trans rfl⟩
  · simp only [deletionPlan,op,hc]
    exact Tables.deleteMutate_lineage he

end

/-- A second owner turn confirms a memory that rests on the turn of another one. -/
def corroborated : List Op :=
  let second : CandidateLease := ⟨1,1,1,1⟩
  let third : CandidateLease := ⟨2,2,2,1⟩
  let seen := evaluated second 0 1 1 [0] 1 {}
  let seenAgain := evaluated third 1 2 2 [0,1] 2 {}
  remembered ++ [proposed "likes mate" 0,.claimBatch {} 1 {} 6] ++ evaluation second seen 1 7 ++
    [.publish {} second seen createDecision (.uuid 1) 8,
      .appendTurn 0 .owner [textBlock "I like mate, as I said"] 9,proposed "likes mate" 1,
      .claimBatch {} 1 {} 10] ++ evaluation third seenAgain 2 11 ++
    [Op.publish {} third seenAgain (equivalentDecision 1) (.uuid 2) 12]

/-- The deletion of the first memory takes the second with it and leaves its later candidate. -/
theorem corroboration_kept :
    letI := plainRuntime
    let w := ran corroborated
    let s' := (step w (.delete {memoryId := some 0, scope := some "memory_only"} none 13)).data
    Reachable (fun _ _ => True) w ∧
    ∃ r, s'.receipts.head? = some r ∧ (∃ m, s'.memories[1]? = some m ∧ m.status = .deleted) ∧
      ¬w.data.LineageScrubbed s' r := by
  obtain ⟨hrun,r,hr,hm,p,hp,hlt,hin,row,hrow,hc,ht⟩ : letI := plainRuntime
    let w := ran corroborated
    let s' := (step w (.delete {memoryId := some 0, scope := some "memory_only"} none 13)).data
    Trace.Allowed step (fun w op => Legal w op ∧ True) emptyStore corroborated ∧
    ∃ r, s'.receipts.head? = some r ∧ (∃ m, s'.memories[1]? = some m ∧ m.status = .deleted) ∧
      ∃ p, w.data.provenance[4]? = some p ∧ p.memoryId < w.data.memories.length ∧
        p.memoryId ∈ r.memoryIds ∧ ∃ row, s'.candidates[2]? = some row ∧
          p.sourceCandidateId = some 2 ∧ row.content = some "likes mate" := by
    rw [plainRuntime_eq]
    decide +kernel
  refine ⟨@ran_reachable plainRuntime _ _ hrun,r,hr,hm,fun hl => ?_⟩
  rw [(hl.1 p (List.mem_of_getElem? hp) hlt hin 2 row hc hrow).2.1] at ht
  cases ht

end Memory
end Atlas
