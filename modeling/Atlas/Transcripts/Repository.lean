import Atlas.Transcripts.Database

/-! The operations of the transcript repository on owner chats, one statement at a time. -/
namespace Atlas
namespace Transcripts

open Memory Dialogue

abbrev Transaction (α : Type) := Prog Statement Statement.Answer Failure α

def ask (q : Statement) : Transaction q.Answer := Prog.request q

/-- A transcript with its id. -/
abbrev Transcript := ℕ × TranscriptRow

/-- The unique index refuses a write. -/
def uniqueViolation : Failure :=
  ⟨.integrityError,"duplicate key value violates unique constraint \"uq_active_owner_transcript\""⟩

def chatNotFound : Failure := lookupError "Chat not found"

def written (found : Option Transcript) : Transaction Transcript :=
  match found with
  | some transcript => return transcript
  | none => Prog.raise uniqueViolation

/-- `TranscriptRepository.create`. -/
def create (kind : String) (title retentionPolicy : Option String) : Transaction Transcript :=
  let effectiveRetention := (orNone (orEmpty retentionPolicy)).getD
    (if kind = "memory_review" then "dependency_protected" else "standard")
  if kind = "memory_review" ∧ effectiveRetention ≠ "dependency_protected" then
    Prog.raise (valueError "memory_review transcripts must be dependency protected")
  else do
    let row ← ask (.insert {
      kind := kind
      retentionPolicy := effectiveRetention
      title := if kind = "owner" then some (cleanTitle title defaultChatTitle) else title})
    written row

/-- The part of `get_or_create_active` under the lock. -/
def createIfNone : Transaction Transcript := do
  ask .advisoryLock
  match ← ask .findActive with
  | some transcript => return transcript
  | none => create "owner" none none

def getOrCreateActive : Transaction Transcript := do
  match ← ask .findActive with
  | some transcript => return transcript
  | none => createIfNone

def createOwnerChat (title : Option String) : Transaction Transcript := do
  ask .advisoryLock
  ask (.closeOthers none)
  create "owner" title none

/-- A row that is set open again is flushed with the unique index in place. -/
def reopen (chatId : ℕ) : Transaction Transcript := do
  match ← ask (.reopen chatId) with
  | some row => return (chatId,row)
  | none => Prog.raise uniqueViolation

def activateOwnerChat (chatId : ℕ) : Transaction Transcript := do
  ask .advisoryLock
  match ← ask (.selectForUpdate chatId) with
  | none => Prog.raise chatNotFound
  | some row =>
      if row.closedAt.isSome then do
        ask (.closeOthers (some chatId))
        reopen chatId
      else return (chatId,row)

/-- The chat that is active once another one has been deleted. -/
def replaceActive (wasActive : Bool) : Transaction Transcript := do
  if wasActive then
    match ← ask .newestForUpdate with
    | none => create "owner" none none
    | some replacement => reopen replacement.1
  else getOrCreateActive

def deleteOwnerChat (chatId : ℕ) : Transaction Transcript := do
  ask .advisoryLock
  match ← ask (.selectForUpdate chatId) with
  | none => Prog.raise chatNotFound
  | some row => do
      let now ← ask .now
      ask (.tombstone chatId now)
      ask (.eraseContent chatId now)
      replaceActive row.closedAt.isNone

inductive Call where
  | getOrCreateActive
  | createOwnerChat (title : Option String)
  | activateOwnerChat (chatId : ℕ)
  | deleteOwnerChat (chatId : ℕ)

def perform : Call → Transaction Transcript
  | .getOrCreateActive => getOrCreateActive
  | .createOwnerChat title => createOwnerChat title
  | .activateOwnerChat chatId => activateOwnerChat chatId
  | .deleteOwnerChat chatId => deleteOwnerChat chatId

/-- An operation and those that follow it in the same transaction, which commits after the last
one; an error ends it. -/
def transaction (call : Call) : List Call → Transaction Unit
  | [] => do
      let _ ← perform call
      ask .returned
      ask .commit
  | next :: calls => do
      let _ ← perform call
      ask .returned
      transaction next calls

/-- Any number of transactions on the transcripts. -/
abbrev OwnerChats := Crowd Database (Call × List Call) Statement Statement.Answer Failure Unit

def serve (c : Call × List Call) : Transaction Unit := transaction c.1 c.2

def step (m : OwnerChats) (a : Move Database.Occasion (Call × List Call)) : OwnerChats :=
  m.step shared serve a

end Transcripts
end Atlas
