import Atlas.Memory.Worker

/-! Explicit owner commands `remember` and `correct`: a command row, a candidate that may be
shared with an earlier proposal on the same evidence, and a pending obligation about it. -/
namespace Atlas
namespace Memory

open RowTable

/-- `str.strip()`. -/
def strip (s : String) : String :=
  String.ofList ((s.toList.dropWhile isSpace).reverse.dropWhile isSpace).reverse

structure Classification where
  memoryKind : String
  scope : Scope
  scopeKey : Option ScopeKey
  durability : Durability
  subject : Option String
  nameSpace : Option String
  deriving Repr, DecidableEq

structure RememberArguments where
  content : Option String
  kind : Option String := none
  scope : Option String := none
  durability : Option String := none
  subject : Option String := none
  nameSpace : Option String := none
  deriving Repr, DecidableEq

structure CorrectArguments where
  content : Option String
  memoryId : Option ℕ := none
  oldContent : Option String := none
  changeType : Option String := none
  deriving Repr, DecidableEq

abbrev OwnerSource := Option ℕ × Option ℕ

def clippedLabel (value : Option String) : Option String :=
  orNone (clipText 160 (normalizeSpace (orEmpty value)))

/-- `_classification`. -/
def classification (arguments : RememberArguments) (sourceTranscriptId : Option ℕ) :
    Except Failure Classification :=
  let memoryKind := strip ((arguments.kind.bind orNone).getD "fact")
  let scope := strip ((arguments.scope.bind orNone).getD "cross_chat")
  let durability := strip ((arguments.durability.bind orNone).getD "long_term")
  if memoryKind ∉ candidateKinds then .error (valueError "invalid memory kind")
  else if scope ≠ "chat" ∧ scope ≠ "cross_chat" then
    .error (valueError "project-scoped durable memory requires a runtime-bound project identity")
  else
    match Durability.parse durability with
    | none => .error (valueError "invalid memory durability")
    | some durability =>
        let subject := clippedLabel arguments.subject
        let nameSpace := clippedLabel arguments.nameSpace
        if scope = "chat" then
          match sourceTranscriptId with
          | none => .error (valueError "chat-scoped memory requires an owner transcript")
          | some id => .ok ⟨memoryKind,.chat,some (.chat id),durability,subject,nameSpace⟩
        else .ok ⟨memoryKind,.crossChat,some .owner,durability,subject,nameSpace⟩

/-- One explicit content command with everything its caller decided about it. -/
structure ExplicitCommand where
  operation : String
  content : String
  classification : Classification
  targetMemoryId : Option ℕ := none
  changeType : Option String := none
  legacyOldContent : Option String := none
  suppressionContent : Option String := none
  deriving Repr, DecidableEq

structure Queued where
  commandId : ℕ
  candidateId : ℕ
  obligationId : ℕ
  deriving Repr, DecidableEq

/-- What the caller of an explicit content command sees. -/
inductive ExplicitResult where
  | queued (q : Queued)
  | intakeFailed (commandId obligationId : ℕ) (reason : String)
  deriving Repr, DecidableEq

def ExplicitCommand.storedArguments (c : ExplicitCommand) : Dict :=
  [("kind",Json.str c.classification.memoryKind),
    ("scope",Json.str c.classification.scope.value),
    ("durability",Json.str c.classification.durability.value)] ++
  (c.changeType.map fun t => [("change_type",Json.str t)]).getD []

/-- The ledger entry of a command. -/
def ExplicitCommand.commandRow (c : ExplicitCommand) (transcriptId turnId : ℕ)
    (target : Option ℕ) : CommandRow where
  operation := c.operation
  arguments := c.storedArguments
  sourceTranscriptId := some transcriptId
  sourceTurnId := some turnId
  targetMemoryId := target

def ExplicitCommand.obligationRow (c : ExplicitCommand) (transcriptId turnId candidateId commandId : ℕ) :
    ObligationRow where
  kind := obligationKindFor c.operation
  subjectType := .memoryCandidate
  subjectId := some candidateId
  origin := originFor c.operation
  commandId := some commandId
  sourceTranscriptId := some transcriptId
  sourceTurnId := some turnId

section

variable [PyRuntime]

/-- The proposal an explicit command puts into the candidate pipeline. -/
def ExplicitCommand.proposal (c : ExplicitCommand) (sourceTurnId : ℕ) : RawCandidate :=
  { kind := c.classification.memoryKind
    content := c.content
    scope := c.classification.scope.value
    confidence := 1
    durability := c.classification.durability.value
    subject := c.classification.subject
    nameSpace := c.classification.nameSpace
    evidenceRefs := [{turnId := some sourceTurnId}] }

/-- The text a queued correction asks later contexts to suppress. -/
def ExplicitCommand.suppression (c : ExplicitCommand) : Except Failure (Option String) :=
  match c.suppressionContent.bind orNone with
  | none => .ok none
  | some text =>
      if c.operation = "correct" then (cleanMemoryContent (some text) "content").map some else .ok none

def ExplicitCommand.intakeSource (c : ExplicitCommand) (transcriptId turnId : ℕ) : IntakeSource :=
  { sourceTranscriptId := transcriptId
    sourceTurnId := turnId
    allowedEvidenceTurnIds := some [turnId]
    intakePath := "explicit_command"
    origin := originFor c.operation }

namespace Tables

/-- The guard row a correction without an active target keeps of the old wording. -/
def correctionGuardRow (s : Tables) (c : ExplicitCommand) (source : OwnerSource) (now : Time) :
    Except Failure (Tables × Option ℕ) :=
  match c.legacyOldContent.bind orNone with
  | none => .ok (s,c.targetMemoryId)
  | some old =>
      if c.operation ≠ "correct" then .ok (s,c.targetMemoryId)
      else (s.createGuard old .superseded "owner_correction_guard" source now).map fun r =>
        (r.1,some r.2.1)

/-- `_queue_explicit_content_command_in`: the caller's transaction, which any failure ends. -/
def queueExplicitContentCommandIn (s : Tables) (c : ExplicitCommand) (source : OwnerSource)
    (now : Time) : Except Failure (Tables × Queued) :=
  if c.operation ≠ "remember" ∧ c.operation ≠ "correct" then
    .error (valueError "unsupported explicit content command")
  else
    match source with
    | (some transcriptId,some turnId) =>
        if (s.turns[turnId]?).all fun t =>
            t.deletedAt.isSome || t.actor != .owner || t.transcriptId != transcriptId then
          .error (valueError "canonical owner evidence is unavailable")
        else do
          let candidate ← (c.proposal turnId).validate
          let (enqueued,candidateId,_) ← s.enqueue candidate (c.intakeSource transcriptId turnId)
          let (guarded,target) ← enqueued.correctionGuardRow c source now
          let commandId := s.commands.length
          let obligationId := s.obligations.length
          let _ ← c.suppression
          .ok ({guarded with
            commands := guarded.commands ++ [c.commandRow transcriptId turnId target]
            obligations := guarded.obligations ++
              [c.obligationRow transcriptId turnId candidateId commandId]},
            ⟨commandId,candidateId,obligationId⟩)
    | _ => .error (valueError "no canonical owner turn is available for evidence")

/-- `_record_explicit_intake_failure`. -/
def recordExplicitIntakeFailure (s : Tables) (operation : String) (source : OwnerSource)
    (reason : String) (now : Time) : Tables × ExplicitResult :=
  let commandId := s.commands.length
  let command : CommandRow :=
    { operation := operation
      status := .failed
      sourceTranscriptId := source.1
      sourceTurnId := source.2
      error := some reason
      failedAt := some now }
  let obligation : ObligationRow :=
    { kind := obligationKindFor operation
      status := .resolved
      subjectType := .memoryCommand
      subjectId := some commandId
      origin := originFor operation
      commandId := some commandId
      sourceTranscriptId := source.1
      sourceTurnId := source.2
      resolutionCode := some "intake_failed"
      resolutionJson := {reason := some reason}
      resolvedAt := some now }
  ({s with
    commands := s.commands ++ [command]
    obligations := s.obligations ++ [obligation]},
    .intakeFailed commandId s.obligations.length reason)

end Tables

/-- A failed intake becomes a visible terminal obligation in a transaction of its own. -/
def intakeFailure (w : State) (operation : String) (source : OwnerSource) (reason : String)
    (now : Time) : State × Except Failure ExplicitResult :=
  transact w fun s => .ok (s.recordExplicitIntakeFailure operation source reason now)

/-- `_queue_explicit_content_command`. -/
def queueExplicitContentCommand (w : State) (c : ExplicitCommand) (source : OwnerSource) (now : Time) :
    State × Except Failure ExplicitResult :=
  if source.1.isNone ∨ source.2.isNone then
    intakeFailure w c.operation source "no canonical owner turn is available for evidence" now
  else
    match transact w fun s => s.queueExplicitContentCommandIn c source now with
    | (w',.ok q) => (w',.ok (.queued q))
    | (_,.error e) => intakeFailure w c.operation source (clipText 500 e.text) now

def remember (w : State) (arguments : RememberArguments) (currentTranscript : Option ℕ) (now : Time) :
    State × Except Failure ExplicitResult :=
  let source := w.data.latestOwnerSource currentTranscript
  match cleanMemoryContent arguments.content "content" with
  | .error e => (w,.error e)
  | .ok content =>
      match classification arguments source.1 with
      | .error e => (w,.error e)
      | .ok classification =>
          queueExplicitContentCommand w
            {operation := "remember", content := content, classification := classification} source now

/-- The classification a correction takes over from its target. -/
def targetClassification (target : Option DurableMemoryRow) : Classification :=
  match target with
  | none => ⟨"fact",.crossChat,some .owner,.longTerm,none,none⟩
  | some m => ⟨(m.memoryKind.bind orNone).getD "fact",m.scope,m.scopeKey,m.durability,m.subject,
      m.nameSpace⟩

/-- The memory a correction names, or the reason its intake fails. -/
def correctionTarget (s : Tables) (memoryId : Option ℕ) (oldContent : Option String) :
    Except String (Option ℕ) :=
  match memoryId, oldContent with
  | some id, _ =>
      match s.memories[id]? with
      | none => .error "target memory does not exist"
      | some m =>
          if m.status = .deleted then .error "target memory does not exist"
          else if m.status ≠ .active then .error "target memory is not active"
          else .ok (some id)
  | none, some old => .ok (s.activeByFingerprint (memoryFingerprint old))
  | none, none => .ok none

def correct (w : State) (arguments : CorrectArguments) (currentTranscript : Option ℕ) (now : Time) :
    State × Except Failure ExplicitResult :=
  let source := w.data.latestOwnerSource currentTranscript
  let changeType := (arguments.changeType.bind orNone).getD "correction"
  match cleanMemoryContent arguments.content "content",
      arguments.oldContent.mapM fun old => cleanMemoryContent (some old) "old_content" with
  | .error e, _ => (w,.error e)
  | .ok _, .error e => (w,.error e)
  | .ok content, .ok old =>
      if arguments.memoryId.isNone ∧ old.isNone then
        (w,.error (valueError "correct requires memory_id or old_content"))
      else if changeType ≠ "correction" ∧ changeType ≠ "change_over_time" then
        (w,.error (valueError "invalid change_type"))
      else
        match correctionTarget w.data arguments.memoryId old with
        | .error reason => intakeFailure w "correct" source reason now
        | .ok targetId =>
            let target := targetId.bind fun id => w.data.memories[id]?
            queueExplicitContentCommand w
              { operation := "correct"
                content := content
                classification := targetClassification target
                targetMemoryId := targetId
                changeType := some changeType
                legacyOldContent := if target.isNone then old else none
                suppressionContent := match target with
                  | some m => m.content
                  | none => old } source now

end

end Memory
end Atlas
