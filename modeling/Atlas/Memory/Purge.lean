import Atlas.Memory.Chats
import Atlas.Memory.Worker

/-! What owner lifecycle commands do to everything that depends on a memory: candidates
are invalidated, their derivatives tombstoned, sources redacted and dependents found. -/
namespace Atlas
namespace Memory

open RowTable

section

variable [PyRuntime]

/-- `content.casefold() in text.casefold()`. -/
def containsFolded (content text : String) : Bool :=
  (PyRuntime.casefold text).toList.tails.any fun rest =>
    (PyRuntime.casefold content).toList.isPrefixOf rest

/-- The members of the second list that the first lacks, once each. -/
def newMembers (seen new : List ℕ) : List ℕ :=
  (firstOccurrences new).filter fun i => !seen.contains i

def addMembers (seen new : List ℕ) : List ℕ := seen ++ newMembers seen new

/-- How the owner's command leaves a candidate. -/
def CandidateRow.purged (row : CandidateRow) (operationId : OperationId) (now : Time) : CandidateRow :=
  {row.cleared with
    stateVersion := if row.invalidatedAt.isNone then row.stateVersion + 1 else row.stateVersion
    status := .invalidated
    processedAt := some now
    invalidatedAt := some now
    invalidationOperationId := some operationId}

def CandidateRow.scrubbed (row : CandidateRow) : CandidateRow :=
  {row with content := none, fingerprint := none, evidence := none, decisionJson := {}}

namespace Tables

/-- The candidates that rest on these turns, are named, or contain the content. -/
def selectedCandidates (s : Tables) (turnIds candidateIds : List ℕ) (content : Option String) :
    List ℕ :=
  let cited := (s.evidence.filter fun e => turnIds.contains e.turnId).map (·.candidateId)
  (List.range s.candidates.length).filter fun id =>
    (s.candidates[id]?).any fun row =>
      turnIds.contains row.sourceTurnId || candidateIds.contains id || cited.contains id ||
        (content.bind orNone).any fun c =>
          (row.content.bind orNone).any fun text => containsFolded c text

/-- Redact the provider evidence turn of one selected candidate. -/
def redactEvidenceTurn (operationId : OperationId) (now : Time)
    (content redactContent : Option String) (s : Tables) (row : CandidateRow) : Tables :=
  match row.sourceProviderEvidenceId.bind fun id => (s.turns[id]?).map fun t => (id,t) with
  | none => s
  | some (id,turn) =>
      if turn.deletedAt.isSome then s
      else
        let values := [content,redactContent,row.content,row.evidence].filterMap (·.bind orNone)
        let r := values.foldl (fun (p : List Json × Bool) value =>
          let step := redactItems value p.1
          (step.1,p.2 || step.2)) (turn.blocks,false)
        if r.2 then
          {s with turns := s.turns.modify id fun t => {t with
            blocks := r.1
            deletedAt := some now
            deletionOperationId := some operationId}}
        else s

/-- One selected candidate, with its row as the session read it. -/
def purgeCandidate (operationId : OperationId) (now : Time) (scrub : Bool) (s : Tables)
    (read : ℕ × CandidateRow) : Tables :=
  let s := (s.setCandidate read.1 fun current =>
    read.2.flush (read.2.purged operationId now) current
    ).settleExplicitObligation read.1 now none (some "evidence_purged") (some "evidence_purged")
  if scrub then
    s.setCandidate read.1 fun current =>
      (read.2.purged operationId now).flush (read.2.purged operationId now).scrubbed current
  else s

def tombstoneAttempt (now : Time) (a : AttemptRow) : AttemptRow :=
  {a with
    status := "invalidated"
    completedAt := some now
    error := none
    evidenceJson := none
    resultJson := {result := some "invalidated", code := some "evidence_purged"}}

/-- `_tombstone_candidate_derivatives`. -/
def tombstoneCandidateDerivatives (s : Tables) (operationId : OperationId) (candidateIds : List ℕ)
    (now : Time) : Tables :=
  let conflictIds := ids (fun c => candidateIds.contains c.candidateId) s.conflicts
  let concerns (o : ObligationRow) : Bool :=
    match o.subjectType, o.subjectId with
    | .memoryCandidate, some id => candidateIds.contains id
    | .memoryConflict, some id => conflictIds.contains id
    | _, _ => false
  {s with
    attempts := s.attempts.map fun a =>
      if candidateIds.contains a.candidateId ∧ a.completedAt = none then tombstoneAttempt now a
      else a
    readings := s.readings.map fun r =>
      if candidateIds.contains r.candidateId then
        {r with
          extractedClaims := []
          category := none
          scope := none
          durability := none
          eventValidFrom := none
          eventValidTo := none
          tombstonedAt := some now
          tombstoneOperationId := some operationId}
      else r
    comparisons := s.comparisons.map fun r =>
      if candidateIds.contains r.candidateId then
        {r with
          normalizedContent := none
          category := none
          scope := none
          durability := none
          tombstonedAt := some now
          tombstoneOperationId := some operationId}
      else r
    records := s.records.map fun r =>
      if candidateIds.contains r.candidateId then
        {r with
          replacementContent := none
          tombstonedAt := some now
          tombstoneOperationId := some operationId}
      else r
    conflicts := s.conflicts.map fun c =>
      if candidateIds.contains c.candidateId then
        {c with
          proposedContent := none
          status := "evidence_purged"
          tombstonedAt := some now
          tombstoneOperationId := some operationId
          resolvedAt := some now}
      else c
    obligations := s.obligations.map fun o =>
      if concerns o then
        if o.status = .pending then
          {o with
            status := .resolved
            resolutionCode := some "evidence_purged"
            resolvedAt := some now
            resolutionJson := {}}
        else {o with resolutionJson := {}}
      else o}

/-- The rows of the selected candidates as the session reads them, without a lock. -/
def readSelected (s : Tables) (turnIds candidateIds : List ℕ) (content : Option String) :
    List (ℕ × CandidateRow) :=
  (s.selectedCandidates turnIds candidateIds content).filterMap fun id =>
    (s.candidates[id]?).map fun row => (id,row)

/-- `_invalidate_candidates`: the candidates it selected and the evidence turns it redacted.
`loaded` is the store its unlocked reads see. -/
def invalidateCandidates (loaded : Tables → Tables) (s : Tables) (operationId : OperationId)
    (turnIds candidateIds : List ℕ) (content redactContent : Option String) (scrub : Bool)
    (now : Time) : Tables × List ℕ × List ℕ :=
  let read := (loaded s).readSelected turnIds candidateIds content
  let selected := read.map (·.1)
  let redacted := if scrub then
      (read.map (·.2)).foldl (redactEvidenceTurn operationId now content redactContent) s
    else s
  let evidenceTurns := (List.range s.turns.length).filter fun id =>
    (s.turns[id]?).any (·.deletedAt.isNone) && (redacted.turns[id]?).any (·.deletedAt.isSome)
  let purged := read.foldl (purgeCandidate operationId now scrub) redacted
  (if scrub then purged.tombstoneCandidateDerivatives operationId selected now else purged,
    selected,evidenceTurns)

/-- `_independent_owner_grounded_ids`. -/
def independentOwnerGroundedIds (s : Tables) (memoryIds neverPreserve : List ℕ) : List ℕ :=
  (newMembers neverPreserve memoryIds).filter fun id =>
    (s.memories[id]?).any fun m =>
      m.status != .deleted && m.groundingStatus == .verified &&
        m.ownerAssertionTurnId.any fun turnId => (s.turns[turnId]?).any (·.deletedAt.isNone)

def safetyBound : ℕ := 1000

def safetyFailure : Failure := valueError "memory dependency graph exceeds deletion safety bound"

/-- The loop of `_memory_descendants`, a batch of at most a hundred memories a round. -/
def memoryDescendantsLoop (s : Tables) (neverPreserve : List ℕ) :
    ℕ → List ℕ → List ℕ → List ℕ → Except Failure (List ℕ × List ℕ)
  | 0, seen, preserved, _ => .ok (seen,preserved)
  | _ + 1, seen, preserved, [] => .ok (seen,preserved)
  | fuel + 1, seen, preserved, m :: queue =>
      let batch := (m :: queue).take 100
      let rest := (m :: queue).drop 100
      let found := newMembers (seen ++ preserved)
        ((s.provenance.filter fun p => p.sourceMemoryId.any batch.contains).map (·.memoryId))
      let barriers := s.independentOwnerGroundedIds found neverPreserve
      let fresh := found.filter fun id => !barriers.contains id
      if fresh ≠ [] ∧ safetyBound < seen.length + fresh.length then .error safetyFailure
      else s.memoryDescendantsLoop neverPreserve fuel (seen ++ fresh)
        (addMembers preserved barriers) (rest ++ fresh)

def memoryDescendants (s : Tables) (initial neverPreserve : List ℕ) :
    Except Failure (List ℕ × List ℕ) :=
  s.memoryDescendantsLoop neverPreserve (initial.length + s.provenance.length + 1) initial [] initial

/-- The loop of `_dependent_memory_closure`, one frontier a round. -/
def dependentMemoryClosureLoop (s : Tables) (neverPreserve : List ℕ) :
    ℕ → List ℕ → List ℕ → List ℕ → List ℕ → Except Failure (List ℕ × List ℕ)
  | 0, seen, preserved, _, _ => .ok (seen,preserved)
  | _ + 1, seen, preserved, [], [] => .ok (seen,preserved)
  | fuel + 1, seen, preserved, memories, candidates =>
      let rows := s.provenance.filter fun p =>
        p.sourceMemoryId.any memories.contains || p.sourceCandidateId.any candidates.contains
      let found := newMembers (seen ++ preserved) (rows.map (·.memoryId))
      let barriers := s.independentOwnerGroundedIds found neverPreserve
      let fresh := found.filter fun id => !barriers.contains id
      if safetyBound < seen.length + fresh.length then .error safetyFailure
      else s.dependentMemoryClosureLoop neverPreserve fuel (seen ++ fresh)
        (addMembers preserved barriers) fresh
        ((rows.filter fun p => fresh.contains p.memoryId).filterMap (·.sourceCandidateId))

/-- `_dependent_memory_closure`. -/
def dependentMemoryClosure (s : Tables) (memoryIds candidateIds neverPreserve : List ℕ) :
    Except Failure (List ℕ × List ℕ) :=
  let barriers := s.independentOwnerGroundedIds memoryIds neverPreserve
  let seen := memoryIds.filter fun id => !barriers.contains id
  s.dependentMemoryClosureLoop neverPreserve (s.provenance.length + 2) seen barriers seen candidateIds

/-- `_detach_purged_dependencies`. -/
def detachPurgedDependencies (s : Tables)
    (memoryIds purgedTurnIds invalidatedCandidateIds deletedMemoryIds : List ℕ) (now : Time) : Tables :=
  let invalidRecords := ids (fun r => invalidatedCandidateIds.contains r.candidateId) s.records
  let detach (m : DurableMemoryRow) : DurableMemoryRow :=
    match m.ownerAssertionTurnId.bind fun id => (s.turns[id]?).map fun t => (id,t) with
    | none => m
    | some (assertionId,assertion) =>
        if assertion.deletedAt.isSome then m
        else
          let m := if m.sourceTurnId.any purgedTurnIds.contains then
              {m with
                sourceTurnId := some assertionId
                sourceTranscriptId := some assertion.transcriptId}
            else m
          let m := if m.verificationRecordId.any invalidRecords.contains then
              {m with verificationRecordId := none}
            else m
          {m with updatedAt := now}
  {s with
    memories := s.memories.mapIdx fun id m => if memoryIds.contains id then detach m else m
    provenance := s.provenance.filter fun p =>
      !(memoryIds.contains p.memoryId && (p.sourceTurnId.any purgedTurnIds.contains ||
        p.sourceCandidateId.any invalidatedCandidateIds.contains ||
        p.sourceMemoryId.any deletedMemoryIds.contains))}

/-- `_redact_source_turns`: the turns whose text it changed. -/
def redactSourceTurns (s : Tables) (operationId : OperationId) (content : String)
    (preferredTurnIds : List ℕ) (now : Time) : Tables × List ℕ :=
  let considered (id : ℕ) (t : TurnRow) : Bool :=
    if preferredTurnIds.isEmpty then t.actor == .owner else preferredTurnIds.contains id
  let changed := (List.range s.turns.length).filter fun id =>
    (s.turns[id]?).any fun t => considered id t && (redactItems content t.blocks).2
  ({s with turns := s.turns.mapIdx fun id t =>
    if changed.contains id then
      {t with
        blocks := (redactItems content t.blocks).1
        deletedAt := some now
        deletionOperationId := some operationId}
    else t},changed)

/-- The least number of a list. -/
def least : List ℕ → Option ℕ
  | [] => none
  | n :: ns => some (ns.foldl min n)

/-- One transcript of `_invalidate_transcript_derivatives`. -/
def invalidateTranscript (now : Time) (s : Tables) (transcriptId sequence : ℕ) : Tables :=
  let chunkStart := least ((s.chunks.filter fun c =>
    c.transcriptId == transcriptId && sequence ≤ c.endSequence).map (·.startSequence))
  let rebuildFrom := (chunkStart.map fun start => min sequence start).getD sequence
  ({s with
    chunks := s.chunks.filter fun c =>
      !(c.transcriptId == transcriptId && rebuildFrom ≤ c.endSequence)
    indexStates := s.indexStates.map fun (r : IndexStateRow) =>
      if r.transcriptId = transcriptId then
        {r with lastIndexedSequence := min r.lastIndexedSequence (rebuildFrom - 1)}
      else r
    discoveries := s.discoveries.map fun (r : DiscoveryStateRow) =>
      if r.transcriptId = transcriptId then
        {r with lastScannedSequence := min r.lastScannedSequence (sequence - 1), updatedAt := now}
      else r}).setTranscript transcriptId fun t => {t with
        contentRevision := t.contentRevision + 1
        contextSummary := none
        summarizedThroughTurnId := none
        activeTaskState := []
        activeTaskRevision := t.activeTaskRevision + 1}

/-- `_invalidate_transcript_derivatives`. -/
def invalidateTranscriptDerivatives (s : Tables) (turnIds : List ℕ) (now : Time) : Tables :=
  if turnIds.isEmpty then s
  else
    let rows := turnIds.filterMap fun id => s.turns[id]?
    let transcripts := firstOccurrences (rows.map (·.transcriptId))
    (transcripts.foldl (fun s transcriptId =>
      match least ((rows.filter fun t => t.transcriptId == transcriptId).map (·.sequence)) with
      | none => s
      | some sequence => s.invalidateTranscript now transcriptId sequence) s
      ).invalidateContinuityCapsules

/-- `_scrub_command_payloads`. -/
def scrubCommandPayloads (s : Tables) (content : String) (memoryIds turnIds : List ℕ) : Tables :=
  {s with commands := s.commands.map fun c =>
    let r := redactFields content c.arguments
    if c.targetMemoryId.any memoryIds.contains || c.replacementMemoryId.any memoryIds.contains ||
        c.sourceTurnId.any turnIds.contains || r.2 then
      {c with
        arguments := r.1
        error := c.error.map fun e => (redactString e content).1}
    else c}

end Tables

end

end Memory
end Atlas
