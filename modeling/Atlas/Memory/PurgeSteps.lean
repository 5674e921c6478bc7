import Atlas.Memory.GraphSteps

/-! What the purge of retire and delete leaves: every selected candidate is invalidated, and
with scrubbing its text is gone and its derivatives are tombstoned. -/
namespace Atlas
namespace Memory

open RowTable

/-- A selected candidate after its purge. -/
def CandidateRow.purgedRow (row : CandidateRow) (operationId : OperationId) (now : Time)
    (scrub : Bool) : CandidateRow :=
  if scrub then (row.purged operationId now).scrubbed else row.purged operationId now

theorem purgedRow_status (row : CandidateRow) (operationId : OperationId) (now : Time)
    (scrub : Bool) : (row.purgedRow operationId now scrub).status = .invalidated := by
  unfold CandidateRow.purgedRow
  split <;> rfl

theorem purgedRow_version (row : CandidateRow) (operationId : OperationId) (now : Time)
    (scrub : Bool) : (row.purgedRow operationId now scrub).stateVersion =
      (row.purged operationId now).stateVersion := by
  unfold CandidateRow.purgedRow
  split <;> rfl

namespace Tables

variable {s : Tables}

/-- A candidate found as it was read is purged. -/
theorem purgeCandidate_row {p : ℕ × CandidateRow} (hrow : s.candidates[p.1]? = some p.2)
    (operationId : OperationId) (now : Time) (scrub : Bool) :
    (purgeCandidate operationId now scrub s p).candidates[p.1]? =
      some (p.2.purgedRow operationId now scrub) := by
  have hpurged : ((s.setCandidate p.1 fun current =>
      p.2.flush (p.2.purged operationId now) current).settleExplicitObligation p.1 now none
        (some "evidence_purged") (some "evidence_purged")).candidates[p.1]? =
      some (p.2.purged operationId now) := by
    rw [settle_candidates]
    have h := (Changes.modify hrow fun current => p.2.flush (p.2.purged operationId now) current).after
    rwa [flush_purged] at h
  unfold purgeCandidate CandidateRow.purgedRow
  split
  · have h := (Changes.modify hpurged fun current =>
      (p.2.purged operationId now).flush (p.2.purged operationId now).scrubbed current).after
    rwa [flush_scrubbed] at h
  · exact hpurged

theorem purgeCandidate_attempts (operationId : OperationId) (now : Time) (scrub : Bool) (s : Tables)
    (p : ℕ × CandidateRow) : (purgeCandidate operationId now scrub s p).attempts = s.attempts := by
  unfold purgeCandidate
  dsimp only
  split
  · exact settle_attempts ..
  · exact settle_attempts ..

theorem redactEvidenceTurn_candidates [PyRuntime] (operationId : OperationId) (now : Time)
    (content redactContent : Option String) (s : Tables) (row : CandidateRow) :
    (redactEvidenceTurn operationId now content redactContent s row).candidates = s.candidates ∧
      (redactEvidenceTurn operationId now content redactContent s row).attempts = s.attempts := by
  unfold redactEvidenceTurn
  split
  · exact ⟨rfl,rfl⟩
  · split
    · exact ⟨rfl,rfl⟩
    · extract_lets values r
      split <;> exact ⟨rfl,rfl⟩

section

variable [PyRuntime] {loaded : Tables → Tables} {operationId : OperationId}
  {turnIds candidateIds : List ℕ} {content redactContent : Option String} {scrub : Bool} {now : Time}

/-- The candidate rows and attempts after a purge whose reads were current. -/
structure Purged (s s' : Tables) (operationId : OperationId) (now : Time) (scrub : Bool)
    (read : List (ℕ × CandidateRow)) : Prop where
  selected : ∀ p ∈ read, s.candidates[p.1]? = some p.2 ∧
    s'.candidates[p.1]? = some (p.2.purgedRow operationId now scrub)
  others : ∀ c, c ∉ read.map (·.1) → s'.candidates[c]? = s.candidates[c]?
  attempts : s'.attempts = if scrub then s.attempts.map fun a =>
      if (read.map (·.1)).contains a.candidateId ∧ a.completedAt = none then tombstoneAttempt now a
      else a
    else s.attempts

theorem invalidateCandidates_purged
    (hread : ∀ p ∈ (loaded s).readSelected turnIds candidateIds content,
      s.candidates[p.1]? = some p.2) :
    Purged s (s.invalidateCandidates loaded operationId turnIds candidateIds content redactContent
      scrub now).1 operationId now scrub ((loaded s).readSelected turnIds candidateIds content) := by
  unfold invalidateCandidates
  extract_lets read selected redacted evidenceTurns purged
  have hred : redacted.candidates = s.candidates ∧ redacted.attempts = s.attempts := by
    dsimp only [redacted]
    split
    · refine Trace.foldl_invariant
        (I := fun t : Tables => t.candidates = s.candidates ∧ t.attempts = s.attempts) _ ?_ ⟨rfl,rfl⟩
      intro t row _ ht
      obtain ⟨hc,ha⟩ := redactEvidenceTurn_candidates operationId now content redactContent t row
      exact ⟨hc.trans ht.1,ha.trans ht.2⟩
    · exact ⟨rfl,rfl⟩
  have hnodup : (read.map (·.1)).Nodup := nodup_readSelected _ _ _ _
  have hatt : purged.attempts = s.attempts :=
    Trace.foldl_invariant (I := fun t : Tables => t.attempts = s.attempts) read
      (fun t p _ ht => (purgeCandidate_attempts operationId now scrub t p).trans ht) hred.2
  have hrows := fun j => Trace.foldl_rows (I := fun _ => True) (k := fun p : ℕ × CandidateRow => p.1)
    (g := fun (t : Tables) (c : ℕ) => t.candidates[c]?) (f := purgeCandidate operationId now scrub)
    (R := fun p before after => before = some p.2 →
      after = some (p.2.purgedRow operationId now scrub))
    read hnodup (fun t p j _ hj => purgeCandidate_frame operationId now scrub t p hj)
    (fun _ _ _ => trivial) (fun t p _ _ hrow => purgeCandidate_row hrow operationId now scrub)
    (s := redacted) trivial j
  rw [hred.1] at hrows
  have hcand : (if scrub then purged.tombstoneCandidateDerivatives operationId selected now
      else purged).candidates = purged.candidates := by
    split <;> rfl
  exact
    { selected := fun p hp => ⟨hread p hp,by
        rw [hcand]
        rcases hrows p.1 with ⟨hn,_⟩ | ⟨q,hq,hk,hr⟩
        · exact absurd (List.mem_map_of_mem hp) hn
        · have hqp : q.2 = p.2 := Option.some.inj ((hread q hq).symm.trans (hk ▸ hread p hp))
          rw [← hqp]
          exact hr (hqp ▸ hread p hp)⟩
      others := fun c hc => by
        rw [hcand]
        rcases hrows c with ⟨_,he⟩ | ⟨q,hq,rfl,_⟩
        · exact he
        · exact absurd (List.mem_map_of_mem hq) hc
      attempts := by
        split
        · rw [← hatt]
          rfl
        · exact hatt }

/-- The store before the rows of the reached memories are deleted. -/
def detached (r : Tables × List ℕ × List ℕ) (d : DeletionSources) (affected found : List ℕ)
    (now : Time) : Tables :=
  if addMembers d.preserved found = [] then r.1
  else r.1.detachPurgedDependencies (addMembers d.preserved found) d.redacted r.2.1 affected now

/-- The tables that hold what was read, compared and decided about candidates. -/
def shelf (s : Tables) :
    List ReadingRow × List ComparisonRow × List ReconciliationRecordRow × List ConflictRow :=
  (s.readings,s.comparisons,s.records,s.conflicts)

/-- The shelf together with the obligations. -/
def docket (s : Tables) := (s.shelf,s.obligations)

/-- What a deletion leaves after its purge: candidates, evidence, turns and attempts are as the
purge left them, the obligation of its command is resolved, and the rows of the memories it
reached are deleted. -/
structure Deletion (s' : Tables) (r : Tables × List ℕ × List ℕ) (d : DeletionSources)
    (commandId : ℕ) (target : Option ℕ) (source : OwnerSource) (now : Time)
    (affected found : List ℕ) : Prop where
  closure : r.1.dependentMemoryClosure (addMembers d.affected (r.1.turnDependents d.dependencies))
    r.2.1 target.toList = .ok (affected,found)
  candidates : s'.candidates = r.1.candidates
  evidence : s'.evidence = r.1.evidence
  turns : s'.turns = r.1.turns
  attempts : s'.attempts = r.1.attempts
  applied : ∃ (t : Tables) (id : ℕ), t.docket = r.1.docket ∧
    t.applyCommand commandId (some id) none now = .ok s'
  receipt : ∃ receipt : DeletionReceiptRow, s'.receipts = r.1.receipts ++ [receipt] ∧
    receipt.operationId = .command commandId ∧ receipt.candidateIds = r.2.1 ∧
    receipt.memoryIds = if target = none then affected ++ [r.1.memories.length] else affected
  graph : s'.graph = ((detached r d affected found now).deleteRows (.command commandId) target affected
    source now).1.graph

omit [PyRuntime] in
theorem invalidateTranscriptDerivatives_shelf (s : Tables) (turnIds : List ℕ) (now : Time) :
    (s.invalidateTranscriptDerivatives turnIds now).shelf = s.shelf := by
  unfold invalidateTranscriptDerivatives
  split
  · rfl
  · extract_lets rows transcripts
    change Tables.shelf (List.foldl _ s transcripts) = s.shelf
    refine Trace.foldl_invariant (I := fun t : Tables => t.shelf = s.shelf) transcripts ?_ rfl
    intro t id _ ht
    split
    · exact ht
    · exact ht

omit [PyRuntime] in
theorem invalidateTranscriptDerivatives_receipts (s : Tables) (turnIds : List ℕ) (now : Time) :
    (s.invalidateTranscriptDerivatives turnIds now).receipts = s.receipts := by
  unfold invalidateTranscriptDerivatives
  split
  · rfl
  · extract_lets rows transcripts
    change Tables.receipts (List.foldl _ s transcripts) = s.receipts
    refine Trace.foldl_invariant (I := fun t : Tables => t.receipts = s.receipts) transcripts ?_ rfl
    intro t id _ ht
    split
    · exact ht
    · exact ht

omit [PyRuntime] in
theorem applyCommand_receipts {commandId : ℕ} {target replacement : Option ℕ} {s' : Tables}
    (h : s.applyCommand commandId target replacement now = .ok s') : s'.receipts = s.receipts := by
  obtain ⟨id?,_,h⟩ := map_ok h
  split at h <;> (cases h; rfl)

omit [PyRuntime] in
theorem failCommand_receipts {commandId : ℕ} {e : Failure} {s' : Tables}
    (h : s.failCommand commandId e now = .ok s') : s'.receipts = s.receipts := by
  obtain ⟨id?,_,h⟩ := map_ok h
  split at h <;> (cases h; rfl)

omit [PyRuntime] in
theorem deleteRows_ids (operationId : OperationId) (target : Option ℕ) (affected : List ℕ)
    (source : OwnerSource) (now : Time) :
    (s.deleteRows operationId target affected source now).2.2 =
      if target = none then affected ++ [s.memories.length] else affected := by
  cases target <;> simp [deleteRows]

omit [PyRuntime] in
theorem deleteRows_receipts (operationId : OperationId) (target : Option ℕ) (affected : List ℕ)
    (source : OwnerSource) (now : Time) :
    (s.deleteRows operationId target affected source now).1.receipts = s.receipts := by
  cases target <;> rfl

omit [PyRuntime] in
theorem resolveCommandObligation_core {commandId : ℕ} {code : String} {resolution : ResolutionJson}
    {s' : Tables} (h : s.resolveCommandObligation commandId code resolution now = .ok s') :
    ∃ obligations, s'.core = {s.core with obligations := obligations} := by
  obtain ⟨id?,_,h⟩ := map_ok h
  split at h <;> (cases h; exact ⟨_,rfl⟩)

omit [PyRuntime] in
theorem deleteRows_graph {t : Tables} (h : t.graph = s.graph) (operationId : OperationId)
    (target : Option ℕ) (affected : List ℕ) (source : OwnerSource) (now : Time) :
    (t.deleteRows operationId target affected source now).1.graph =
      (s.deleteRows operationId target affected source now).1.graph := by
  simp only [deleteRows,graph_memories h]
  split <;> simp only [graph,graph_provenance h]

/-- A deletion finds its target deleted, or purges and deletes what it reaches. -/
theorem deleteMutate_cases {s' : Tables} {memoryId : Option ℕ} {content : Option String}
    {scope : String} {source : OwnerSource} {commandId : ℕ} {applied : Applied}
    (h : s.deleteMutate loaded memoryId content scope source now commandId = .ok (s',applied)) :
    (∃ id, s.deleteTarget memoryId content = .ok (.alreadyDeleted id) ∧
      s.applyCommand commandId (some id) none now = .ok s') ∨
    ∃ target selected s₁ d affected found,
      s.deleteTarget memoryId content = .ok (.selected target selected) ∧
      s.deletionSources (.command commandId) scope target selected now = .ok (s₁,d) ∧
      Deletion s' (s₁.invalidateCandidates loaded (.command commandId) d.dependencies d.candidateIds
        (d.unsourced selected) selected true now) d commandId target source now affected found := by
  obtain ⟨target,ht,h⟩ := bind_ok h
  split at h
  · next id =>
    obtain ⟨s₁,ha,h⟩ := bind_ok h
    cases h
    exact Or.inl ⟨id,ht,ha⟩
  · next target selected =>
    obtain ⟨⟨s₁,d⟩,hd,h⟩ := bind_ok h
    refine Or.inr ⟨target,selected,s₁,d,?_⟩
    dsimp -zeta only at h
    revert h
    generalize s₁.invalidateCandidates loaded (.command commandId) d.dependencies
      d.candidateIds (d.unsourced selected) selected true now = r
    intro h
    obtain ⟨⟨affected,found⟩,hcl,h⟩ := bind_ok h
    refine ⟨affected,found,ht,hd,?_⟩
    dsimp -zeta only at h
    extract_lets preserved s₃ allRedacted s₄ s₅ receipt s₆ s₇ at h
    obtain ⟨s₈,ha,h⟩ := bind_ok h
    cases h
    have h₄ : s₄.graph = s₃.graph :=
      footing_graph (invalidateTranscriptDerivatives_footing s₃ allRedacted now)
    have h₅ : s₅.graph = s₃.graph := by
      dsimp only [s₅]
      split
      · exact h₄
      · exact h₄
    have hcore : s₇.core = r.1.core ∧ s₇.shelf = r.1.shelf := by
      have h₃ : s₃.core = r.1.core ∧ s₃.shelf = r.1.shelf := by
        dsimp only [s₃]
        split <;> exact ⟨rfl,rfl⟩
      have h₄ : s₄.core = s₃.core ∧ s₄.shelf = s₃.shelf :=
        ⟨invalidateTranscriptDerivatives_core s₃ allRedacted now,
          invalidateTranscriptDerivatives_shelf s₃ allRedacted now⟩
      have h₅ : s₅.core = s₄.core ∧ s₅.shelf = s₄.shelf := by
        dsimp only [s₅]
        split <;> exact ⟨rfl,rfl⟩
      have hrows : ∀ t : Tables,
          (t.deleteRows (.command commandId) target affected source now).1.core = t.core ∧
          (t.deleteRows (.command commandId) target affected source now).1.shelf = t.shelf := by
        intro t
        unfold deleteRows
        dsimp only
        split <;> exact ⟨rfl,rfl⟩
      exact ⟨(hrows s₅).1.trans (h₅.1.trans (h₄.1.trans h₃.1)),
        (hrows s₅).2.trans (h₅.2.trans (h₄.2.trans h₃.2))⟩
    have hrec : (s₅.deleteRows (.command commandId) target affected source now).1.receipts =
        r.1.receipts := by
      have h₃ : s₃.receipts = r.1.receipts := by
        dsimp only [s₃]
        split <;> rfl
      have h₅ : s₅.receipts = s₄.receipts := by
        dsimp only [s₅]
        split <;> rfl
      exact (deleteRows_receipts ..).trans
        (h₅.trans ((invalidateTranscriptDerivatives_receipts s₃ allRedacted now).trans h₃))
    have hlen : s₅.memories.length = r.1.memories.length := by
      rw [graph_memories h₅]
      dsimp only [s₃]
      split
      · rfl
      · exact List.length_mapIdx
    obtain ⟨obligations,hob⟩ := resolveCommandObligation_core ha
    have hobl := congrArg Core.obligations hcore.1
    simp only [core,Core.mk.injEq] at hcore hob
    exact
      { closure := hcl
        candidates := hob.1.trans hcore.1.1
        evidence := hob.2.1.trans hcore.1.2.1
        turns := hob.2.2.1.trans hcore.1.2.2.1
        attempts := hob.2.2.2.1.trans hcore.1.2.2.2.1
        applied := ⟨s₇,_,Prod.ext hcore.2 hobl,ha⟩
        receipt := ⟨receipt,(applyCommand_receipts ha).trans (congrArg (· ++ [receipt]) hrec),rfl,rfl,
          (deleteRows_ids ..).trans (by rw [hlen])⟩
        graph := (footing_graph (applyCommand_footing ha)).trans
          (deleteRows_graph h₅ _ target affected source now) }

end

end Tables

end Memory
end Atlas
