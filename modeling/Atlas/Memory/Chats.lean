import Atlas.Memory.Candidates

/-! Transcripts and turns: chats are created, selected and deleted, turns are appended, and
deleting a chat tombstones its turns and bulk-updates the candidates it sourced. -/
namespace Atlas
namespace Memory

open RowTable

def defaultChatTitle : String := "New chat"

/-- `_clean_title`. -/
def cleanTitle (value : Option String) (fallback : String) : String :=
  clipText 120 ((orNone (normalizeSpace (orEmpty value))).getD fallback)

/-- `_suggest_title`. -/
def suggestTitle (blocks : List Json) : Option String :=
  (blocks.filterMap fun block =>
    if block.textAt "type" = some "text" then
      orNone (normalizeSpace (orEmpty (block.textAt "text")))
    else none).head?.map fun text =>
      if text.length ≤ 64 then text
      else String.ofList ((text.toList.take 61).reverse.dropWhile isSpace).reverse ++ "…"

def textBlock (text : String) : Json := .obj [("type",.str "text"),("text",.str text)]

namespace Tables

/-- `TranscriptRepository.create`. -/
def createTranscript (s : Tables) (kind : String) (title : Option String) (now : Time) :
    Tables × ℕ :=
  ({s with transcripts := s.transcripts ++ [{
    kind := kind
    retentionPolicy := if kind = "memory_review" then "dependency_protected" else "standard"
    title := if kind = "owner" then some (cleanTitle title defaultChatTitle) else title
    createdAt := now
    updatedAt := now }]},s.transcripts.length)

def closeOwnerChats (s : Tables) (now : Time) (kept : Option ℕ) : Tables :=
  {s with transcripts := s.transcripts.mapIdx fun i t =>
    if t.kind = "owner" ∧ t.closedAt = none ∧ kept ≠ some i then {t with closedAt := some now}
    else t}

def createOwnerChat (s : Tables) (title : Option String) (now : Time) : Tables × ℕ :=
  (s.closeOwnerChats now none).createTranscript "owner" title now

def activateOwnerChat (s : Tables) (chatId : ℕ) (now : Time) : Except Failure (Tables × ℕ) :=
  match (s.transcripts[chatId]?).filter fun t => t.kind == "owner" with
  | none => .error (lookupError "Chat not found")
  | some t =>
      if t.closedAt.isNone then .ok (s,chatId)
      else .ok ((s.closeOwnerChats now (some chatId)).setTranscript chatId fun t =>
        {t with closedAt := none},chatId)

def getOrCreateActive (s : Tables) (now : Time) : Tables × ℕ :=
  match newest (·.createdAt) (fun t => t.closedAt.isNone && t.kind == "owner") s.transcripts with
  | some id => (s,id)
  | none => s.createTranscript "owner" none now

/-- `append_turn`. -/
def appendTurn (s : Tables) (transcriptId : ℕ) (actor : Actor) (blocks : List Json) (now : Time) :
    Except Failure (Tables × ℕ) :=
  match s.transcripts[transcriptId]? with
  | none => .error ⟨.runtimeError,"No row was found when one was required"⟩
  | some transcript =>
      let sequence := transcript.nextTurnSequence + 1
      let suggested := if actor = .owner ∧ sequence = 1 ∧ transcript.kind = "owner" ∧
          transcript.title = some defaultChatTitle then suggestTitle blocks else none
      let turn : TurnRow :=
        { transcriptId := transcriptId
          actor := actor
          sequence := sequence
          blocks := blocks
          createdAt := now }
      .ok ({(s.setTranscript transcriptId fun t => {t with
          nextTurnSequence := sequence
          contentRevision := t.contentRevision + 1
          updatedAt := now
          title := suggested.or t.title}) with turns := s.turns ++ [turn]},s.turns.length)

/-- The bulk update `delete_owner_chat` makes on the candidates of a chat. -/
def invalidateWithChat (now : Time) (row : CandidateRow) : CandidateRow :=
  {row with
    status := .invalidated
    content := none
    fingerprint := none
    evidence := none
    evidenceSetHash := none
    decisionJson := {}
    leaseToken := none
    leasedUntil := none
    reviewAfter := none
    processedAt := some now
    invalidatedAt := some now
    stateVersion := row.stateVersion + 1}

/-- Everything `delete_owner_chat` removes or tombstones with the chat. -/
def eraseChat (s : Tables) (chatId : ℕ) (now : Time) : Tables :=
  {s with
    turns := s.turns.map fun t =>
      if t.transcriptId = chatId then
        {t with blocks := [textBlock "[Chat deleted by owner]"], deletedAt := some now}
      else t
    candidates := s.candidates.map fun c =>
      if c.sourceTranscriptId = chatId then invalidateWithChat now c else c
    chunks := s.chunks.filter fun r => r.transcriptId ≠ chatId
    indexStates := s.indexStates.filter fun r => r.transcriptId ≠ chatId
    capsules := s.capsules.filter fun r => r.transcriptId ≠ chatId
    discoveries := s.discoveries.filter fun r => r.transcriptId ≠ chatId}

/-- `delete_owner_chat`: the chat that is active afterwards. -/
def deleteOwnerChat (s : Tables) (chatId : ℕ) (now : Time) : Except Failure (Tables × ℕ) :=
  match (s.transcripts[chatId]?).filter fun t => t.kind == "owner" with
  | none => .error (lookupError "Chat not found")
  | some chat =>
      let s := (s.setTranscript chatId fun t => {t with
        kind := "owner_deleted"
        title := none
        closedAt := some now
        updatedAt := now
        contextSummary := none
        summarizedThroughTurnId := none
        activeTaskState := []
        activeTaskRevision := t.activeTaskRevision + 1
        contentRevision := t.contentRevision + 1}).eraseChat chatId now
      if chat.closedAt.isSome then .ok (s.getOrCreateActive now)
      else
        match newest (·.updatedAt) (fun t => t.kind == "owner") s.transcripts with
        | none => .ok (s.createTranscript "owner" none now)
        | some id => .ok (s.setTranscript id fun t => {t with closedAt := none},id)

/-- `_append_owner_assertion_turn`: a closed review transcript with the owner's wording. -/
def appendOwnerAssertionTurn (s : Tables) (content : String) (now : Time) :
    Except Failure (Tables × ℕ × ℕ) := do
  let (s,transcriptId) := s.createTranscript "memory_review" none now
  let (s,turnId) ← s.appendTurn transcriptId .owner [textBlock content] now
  .ok (s.setTranscript transcriptId fun t => {t with closedAt := some now, updatedAt := now},
    transcriptId,turnId)

end Tables

end Memory
end Atlas
