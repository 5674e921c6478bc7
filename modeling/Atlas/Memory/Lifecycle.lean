import Atlas.Memory.Intake
import Atlas.Memory.Purge

/-! Owner lifecycle commands: each begins a command row, runs one shared write under the
command's own id, and marks the command failed when the write raises. -/
namespace Atlas
namespace Memory

open RowTable

/-- What a lifecycle mutation reports: whether it changed anything, and its result. -/
structure Applied where
  mutated : Bool
  result : String
  memoryId : Option ℕ := none
  deriving Repr, DecidableEq

def Applied.dict (a : Applied) : Dict :=
  ("result",.str a.result) :: idEntry "memory_id" a.memoryId

structure RetireArguments where
  memoryId : Option ℕ := none
  content : Option String := none
  deriving Repr, DecidableEq

/-- The arguments a retirement's command row keeps. -/
def RetireArguments.stored (a : RetireArguments) : Dict :=
  ("selector",.str (if a.memoryId.isSome then "memory_id" else "legacy_content")) ::
    idEntry "memory_id" a.memoryId

structure DeleteArguments where
  memoryId : Option ℕ := none
  content : Option String := none
  scope : Option String := none
  deriving Repr, DecidableEq

/-- The scope of a deletion, sources included unless it says otherwise. -/
def DeleteArguments.effectiveScope (a : DeleteArguments) : String :=
  (a.scope.bind orNone).getD "memory_and_sources"

/-- The arguments a deletion's command row keeps. -/
def DeleteArguments.stored (a : DeleteArguments) : Dict :=
  ("scope",.str a.effectiveScope) ::
    ("selector",.str (if a.memoryId.isSome then "memory_id" else "content")) ::
    idEntry "memory_id" a.memoryId

namespace Tables

/-- The command row of `_begin`. -/
def beginCommand (s : Tables) (operation : String) (arguments : Dict) (source : OwnerSource) :
    Tables × ℕ :=
  ({s with commands := s.commands ++ [{
    operation := operation
    arguments := arguments
    sourceTranscriptId := source.1
    sourceTurnId := source.2 }]},s.commands.length)

/-- The pending obligation of a command, resolved with the given outcome. -/
def resolveCommandObligation (s : Tables) (commandId : ℕ) (code : String)
    (resolution : ResolutionJson) (now : Time) : Except Failure Tables :=
  (atMostOne (ids (fun o => o.commandId == some commandId && o.status == .pending) s.obligations)).map
    fun id? =>
      match id? with
      | none => s
      | some id => s.setObligation id fun o => {o with
          status := .resolved
          resolutionCode := some code
          resolutionJson := resolution
          resolvedAt := some now}

/-- `_apply_command`. -/
def applyCommand (s : Tables) (commandId : ℕ) (target replacement : Option ℕ) (now : Time) :
    Except Failure Tables :=
  (s.setCommand commandId fun c => {c with
    status := .applied
    targetMemoryId := target
    replacementMemoryId := replacement
    appliedAt := some now}).resolveCommandObligation commandId "persisted"
      {targetMemoryId := target, replacementMemoryId := replacement} now

/-- `_fail`. -/
def failCommand (s : Tables) (commandId : ℕ) (e : Failure) (now : Time) : Except Failure Tables :=
  (s.setCommand commandId fun c => {c with
    status := .failed
    error := some (clipText 2000 e.text)
    failedAt := some now}).resolveCommandObligation commandId "failed" {} now

/-- A memory row as `retire` and a rejected review leave it. -/
def retiredRow (now : Time) (m : DurableMemoryRow) : DurableMemoryRow :=
  {m with status := .retired, suppressesRecall := true, retiredAt := some now, updatedAt := now
    }.clearEmbedding

end Tables

section

variable [PyRuntime]

def lifecycleEnvelope (commandId : ℕ) (operation : String) (source : OwnerSource)
    (h : 1 ≤ operation.length ∧ operation.length ≤ 64) : SharedWrites.Envelope OperationId :=
  { operationId := .command commandId
    resourceType := memoryResource.1
    resourceId := memoryResource.2
    operation := operation
    expectedVersion := none
    payload := .obj [("command_id",.str (toString commandId)),("operation",.str operation)]
    actor := "owner"
    sourceTranscriptId := source.1
    sourceTurnId := source.2
    sourceRunId := none
    resourceType_bounds := memoryResource_type
    resourceId_bounds := memoryResource_id
    operation_bounds := h
    actor_bounds := owner_actor }

/-- A mutation of the memory tables as the coordinator calls it. -/
def memoryMutation (mutate : Tables → Except Failure (Tables × Applied)) (s : Tables) (_ : ℕ) :
    Except Failure (SharedWrites.Mutation Dict × Tables) :=
  (checked (mutate s)).map fun r => (⟨r.2.mutated,r.2.dict⟩,r.1)

/-- The failure a coordinator error reaches its caller as. -/
def writeFailure : SharedWrites.WriteError Failure → Failure
  | .idempotencyConflict message => ⟨.idempotencyConflict,message⟩
  | .raised e => e

/-- `_begin` followed by `_run`. -/
def runCommand (w : State) (operation : String) (arguments : Dict) (source : OwnerSource)
    (h : 1 ≤ operation.length ∧ operation.length ≤ 64) (now : Time)
    (mutate : ℕ → Tables → Except Failure (Tables × Applied)) :
    State × Except Failure (SharedWrites.Receipt OperationId Dict) :=
  match transact w fun s => .ok (s.beginCommand operation arguments source) with
  | (w,.error e) => (w,.error e)
  | (w,.ok commandId) =>
      let attempted := SharedWrites.execute w (lifecycleEnvelope commandId operation source h)
        (memoryMutation (mutate commandId))
      match attempted.receipt with
      | .ok receipt => (attempted.world,.ok receipt)
      | .error e =>
          ((transact attempted.world fun s =>
              (s.failCommand commandId (writeFailure e) now).map fun s => (s,())).1,
            .error ⟨.memoryMutationError,operation ++ " failed (command_id=" ++
              toString commandId ++ "): " ++ (writeFailure e).message⟩)

namespace Tables

/-- The memory a retirement acts on: the named or matching row, or a fresh guard. -/
inductive RetireTarget where
  | alreadyRetired (id : ℕ)
  | active (id : ℕ)
  | guardFor (content : String)
  deriving Repr, DecidableEq

def retireTarget (s : Tables) (memoryId : Option ℕ) (content : Option String) :
    Except Failure RetireTarget :=
  match memoryId, content with
  | some id, content =>
      match s.memories[id]? with
      | none => .error (valueError "target memory does not exist")
      | some m =>
          if m.status = .deleted then .error (valueError "deleted memory is terminal")
          else if m.status = .retired then .ok (.alreadyRetired id)
          else if m.status ≠ .active then .error (valueError "only active memory can be retired")
          else if content.any fun c => m.fingerprint != some (memoryFingerprint c) then
            .error (valueError "content does not match target memory")
          else .ok (.active id)
  | none, some c =>
      match s.activeByFingerprint (memoryFingerprint c) with
      | some id => .ok (.active id)
      | none => .ok (.guardFor c)
  | none, none => .error (valueError "retire requires memory_id or content")

/-- The retirement of one target: the tables, the row, and what the caller is told. -/
def retireRow (s : Tables) (target : RetireTarget) (source : OwnerSource) (now : Time) :
    Except Failure (Tables × ℕ × String) :=
  match target with
  | .alreadyRetired id => .ok (s,id,"already_retired")
  | .active id => .ok (s.setMemory id (retiredRow now),id,"retired")
  | .guardFor content =>
      (s.createGuard content .retired "owner_retire_guard" source now).map fun r =>
        (r.1,r.2.1,if r.2.2 then "retire_guard_created" else "already_retired")

/-- The turns and the content of a retired row, which its purge selects candidates by. -/
def retiredSources (s : Tables) (id : ℕ) : List ℕ × Option String :=
  let row := s.memories[id]?
  ((row.bind (·.sourceTurnId)).toList,row.bind (·.content))

/-- The mutation of `retire`. -/
def retireMutate (loaded : Tables → Tables) (memoryId : Option ℕ) (content : Option String)
    (source : OwnerSource) (now : Time) (commandId : ℕ) (s : Tables) :
    Except Failure (Tables × Applied) := do
  let target ← s.retireTarget memoryId content
  match target with
  | .alreadyRetired id =>
      let s ← s.applyCommand commandId (some id) none now
      .ok (s,⟨false,"already_retired",some id⟩)
  | target =>
      let (s,id,result) ← s.retireRow target source now
      let (turnIds,text) := s.retiredSources id
      let (s,_,_) := s.invalidateCandidates loaded (.command commandId) turnIds [] text none false now
      let s ← s.invalidateContinuityCapsules.applyCommand commandId (some id) none now
      .ok (s,⟨true,result,some id⟩)

/-- The mutation of `restore`. -/
def restoreMutate (memoryId : ℕ) (now : Time) (commandId : ℕ) (s : Tables) :
    Except Failure (Tables × Applied) :=
  match s.memories[memoryId]? with
  | none => .error (valueError "target memory does not exist")
  | some m =>
      if m.status = .deleted then
        .error (valueError "deleted memory is terminal and cannot be restored")
      else if m.status = .active then do
        let s ← s.applyCommand commandId none (some memoryId) now
        .ok (s,⟨false,"already_active",some memoryId⟩)
      else if m.status ≠ .retired then .error (valueError "only retired memory can be restored")
      else if (m.fingerprint.bind orNone).isNone ∨ (m.content.bind orNone).isNone then
        .error (valueError "retired memory payload is unavailable")
      else if (m.fingerprint.bind s.activeByFingerprint).any (· ≠ memoryId) then
        .error (valueError "another active memory already owns this content")
      else do
        let s := s.setMemory memoryId fun m => {m with
          status := .active
          suppressesRecall := false
          retiredAt := none
          updatedAt := now}
        let s ← s.invalidateContinuityCapsules.applyCommand commandId none (some memoryId) now
        .ok (s,⟨true,"restored",some memoryId⟩)

/-- The memory a deletion selects and the text it purges. -/
inductive DeleteTarget where
  | alreadyDeleted (id : ℕ)
  | selected (id : Option ℕ) (content : Option String)
  deriving Repr, DecidableEq

def deleteTarget (s : Tables) (memoryId : Option ℕ) (content : Option String) :
    Except Failure DeleteTarget :=
  match memoryId, content with
  | some id, content =>
      match s.memories[id]? with
      | none => .error (valueError "target memory does not exist")
      | some m =>
          if m.status = .deleted then .ok (.alreadyDeleted id)
          else if m.content.isNone then .error (valueError "target memory content is unavailable")
          else if content.any fun c => m.fingerprint != some (memoryFingerprint c) then
            .error (valueError "content does not match target memory")
          else .ok (.selected (some id) m.content)
  | none, some c =>
      let fingerprint := memoryFingerprint c
      .ok (.selected (((s.activeByFingerprint fingerprint).or (s.retiredByFingerprint fingerprint)).or
        (newest (·.updatedAt) (fun m => m.fingerprint == some fingerprint && m.status != .deleted)
          s.memories)) (some c))
  | none, none => .error (valueError "delete requires memory_id or content")

/-- The turns and candidates a set of memories was derived from. -/
def memorySources (s : Tables) (memoryIds : List ℕ) : List ℕ × List ℕ :=
  let rows := memoryIds.filterMap fun id => s.memories[id]?
  let provenance := s.provenance.filter fun p => memoryIds.contains p.memoryId
  let candidateIds := firstOccurrences (provenance.filterMap (·.sourceCandidateId))
  let turnIds := rows.filterMap (·.sourceTurnId) ++ rows.filterMap (·.ownerAssertionTurnId) ++
    provenance.filterMap (·.sourceTurnId) ++
    (s.evidence.filter fun e => candidateIds.contains e.candidateId).map (·.turnId)
  (firstOccurrences turnIds,candidateIds)

/-- The memories that rest on these turns, directly or by provenance. -/
def turnDependents (s : Tables) (turnIds : List ℕ) : List ℕ :=
  ids (fun m => m.status != .deleted && (m.sourceTurnId.any turnIds.contains ||
      m.ownerAssertionTurnId.any turnIds.contains)) s.memories ++
    (s.provenance.filter fun p => p.sourceTurnId.any turnIds.contains).map (·.memoryId)

def deletedRow (operationId : OperationId) (now : Time) (m : DurableMemoryRow) : DurableMemoryRow :=
  {m with
    status := .deleted
    content := none
    fingerprint := none
    suppressesRecall := true
    retiredAt := none
    deletedAt := some now
    deletionOperationId := some operationId
    updatedAt := now}.clearEmbedding

/-- The row that records the deletion of content no memory held. -/
def tombstoneRow (source : OwnerSource) (operationId : OperationId) (now : Time) : DurableMemoryRow :=
  { status := .deleted
    recordKind := "owner_delete_tombstone"
    content := none
    fingerprint := none
    suppressesRecall := true
    sourceTranscriptId := source.1
    sourceTurnId := source.2
    deletedAt := some now
    deletionOperationId := some operationId
    updatedAt := now }

/-- The source passages of a deletion, redacted if its scope includes them. -/
def redactSources (s : Tables) (operationId : OperationId) (scope : String)
    (content : Option String) (turnIds : List ℕ) (now : Time) : Except Failure (Tables × List ℕ) :=
  match content.bind orNone with
  | none => .ok (s,[])
  | some text =>
      if scope ≠ "memory_and_sources" then .ok (s,[])
      else
        let r := s.redactSourceTurns operationId text turnIds now
        if turnIds ≠ [] ∧ ¬ (turnIds.all r.2.contains ∧ r.2.all turnIds.contains) then
          .error (valueError ("every selected source passage must be isolated safely; " ++
            "retry with the exact source content"))
        else .ok r

/-- What a deletion found before it purges candidates: the memories it reaches, the turns and
candidates they rest on, and the turns it redacted. -/
structure DeletionSources where
  affected : List ℕ
  preserved : List ℕ
  turnIds : List ℕ
  candidateIds : List ℕ
  redacted : List ℕ
  deriving Repr, DecidableEq

/-- Source turns together with the turns whose text was redacted. -/
def DeletionSources.dependencies (d : DeletionSources) : List ℕ := addMembers d.turnIds d.redacted

/-- The content a deletion without any recorded source purges candidates by. -/
def DeletionSources.unsourced (d : DeletionSources) (selected : Option String) : Option String :=
  if d.dependencies = [] ∧ d.candidateIds = [] then selected else none

/-- The memories derived from the deleted one, and those the owner grounded independently. -/
def deletionClosure (s : Tables) : Option ℕ → Except Failure (List ℕ × List ℕ)
  | none => .ok ([],[])
  | some id => s.memoryDescendants [id] [id]

def deletionSources (s : Tables) (operationId : OperationId) (scope : String) (target : Option ℕ)
    (selected : Option String) (now : Time) : Except Failure (Tables × DeletionSources) := do
  let (affected,preserved) ← s.deletionClosure target
  let (turnIds,candidateIds) := s.memorySources affected
  let (s,redacted) ← s.redactSources operationId scope selected turnIds now
  .ok (s,⟨affected,preserved,turnIds,candidateIds,redacted⟩)

/-- The rows of the deleted memories, with a tombstone if there was none. -/
def deleteRows (s : Tables) (operationId : OperationId) (target : Option ℕ) (affected : List ℕ)
    (source : OwnerSource) (now : Time) : Tables × ℕ × List ℕ :=
  let s := {s with memories := s.memories.mapIdx fun id m =>
    if affected.contains id then deletedRow operationId now m else m}
  match target with
  | some id => (s,id,affected)
  | none => ({s with memories := s.memories ++ [tombstoneRow source operationId now]},
      s.memories.length,affected ++ [s.memories.length])

/-- The mutation of `delete`. -/
def deleteMutate (loaded : Tables → Tables) (memoryId : Option ℕ) (content : Option String)
    (scope : String) (source : OwnerSource) (now : Time) (commandId : ℕ) (s : Tables) :
    Except Failure (Tables × Applied) := do
  match ← s.deleteTarget memoryId content with
  | .alreadyDeleted id =>
      let s ← s.applyCommand commandId (some id) none now
      .ok (s,⟨false,"already_deleted",some id⟩)
  | .selected target selected =>
      let operationId := OperationId.command commandId
      let (s,d) ← s.deletionSources operationId scope target selected now
      let (s,candidateIds,evidenceTurnIds) := s.invalidateCandidates loaded operationId d.dependencies
        d.candidateIds (d.unsourced selected) selected true now
      let roots := addMembers d.affected (s.turnDependents d.dependencies)
      let (affected,found) ← s.dependentMemoryClosure roots candidateIds target.toList
      let preserved := addMembers d.preserved found
      let s := if preserved = [] then s
        else s.detachPurgedDependencies preserved d.redacted candidateIds affected now
      let allRedacted := addMembers d.redacted evidenceTurnIds
      let s := s.invalidateTranscriptDerivatives allRedacted now
      let s := match selected.bind orNone with
        | none => s
        | some text => s.scrubCommandPayloads text affected (addMembers d.turnIds evidenceTurnIds)
      let (s,targetId,affected) := s.deleteRows operationId target affected source now
      let receipt : DeletionReceiptRow :=
        { operationId := operationId
          targetMemoryId := some targetId
          scope := scope
          memoryIds := affected
          turnIds := allRedacted
          candidateIds := candidateIds
          preservedMemoryIds := preserved }
      let s := {s.invalidateContinuityCapsules with receipts := s.receipts ++ [receipt]}
      let s ← s.applyCommand commandId (some targetId) none now
      .ok (s,⟨true,"deleted",some targetId⟩)

end Tables

def retire (w : State) (loaded : Tables → Tables) (arguments : RetireArguments)
    (currentTranscript : Option ℕ) (now : Time) :
    State × Except Failure (SharedWrites.Receipt OperationId Dict) :=
  match arguments.content.mapM fun c => cleanMemoryContent (some c) "content" with
  | .error e => (w,.error e)
  | .ok content =>
      if arguments.memoryId.isNone ∧ content.isNone then
        (w,.error (valueError "retire requires memory_id or content"))
      else
        let source := w.data.latestOwnerSource currentTranscript
        runCommand w "retire" arguments.stored source (by decide) now fun commandId s =>
          s.retireMutate loaded arguments.memoryId content source now commandId

def restore (w : State) (memoryId : ℕ) (currentTranscript : Option ℕ) (now : Time) :
    State × Except Failure (SharedWrites.Receipt OperationId Dict) :=
  runCommand w "restore" (idEntry "memory_id" (some memoryId))
    (w.data.latestOwnerSource currentTranscript) (by decide) now fun commandId s =>
      s.restoreMutate memoryId now commandId

def delete (w : State) (loaded : Tables → Tables) (arguments : DeleteArguments)
    (currentTranscript : Option ℕ) (now : Time) :
    State × Except Failure (SharedWrites.Receipt OperationId Dict) :=
  let scope := arguments.effectiveScope
  match arguments.content.mapM fun c => cleanMemoryContent (some c) "content" with
  | .error e => (w,.error e)
  | .ok content =>
      if arguments.memoryId.isNone ∧ content.isNone then
        (w,.error (valueError "delete requires memory_id or content"))
      else if scope ≠ "memory_only" ∧ scope ≠ "memory_and_sources" then
        (w,.error (valueError "invalid deletion scope"))
      else
        let source := w.data.latestOwnerSource currentTranscript
        runCommand w "delete" arguments.stored source (by decide) now fun commandId s =>
          s.deleteMutate loaded arguments.memoryId content scope source now commandId

end

end Memory
end Atlas
