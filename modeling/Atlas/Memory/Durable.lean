import Atlas.Memory.Rows

/-! The durable-memory repository: content identity, guards, owner sources, and the
constraints the database puts on the tables. -/
namespace Atlas
namespace Memory

open RowTable

section

variable [PyRuntime]

def maxContentChars : ℕ := 4000

def cleanMemoryContent (value : Option String) (field : String) : Except Failure String :=
  let content := normalizeSpace (orEmpty value)
  if content.isEmpty then .error (valueError (field ++ " cannot be empty"))
  else if maxContentChars < content.length then
    .error (valueError (field ++ " exceeds 4000 characters"))
  else .ok content

def memoryFingerprint (content : String) : String :=
  PyRuntime.sha256 (normalizeSpace (PyRuntime.casefold content))

end

/-- The listed row with the greatest time, the latest of them on a tie. -/
def newest {ρ : Type*} (time : ρ → Time) (p : ρ → Bool) (t : List ρ) : Option ℕ :=
  (ids p t).foldl (fun best i =>
    match best with
    | none => some i
    | some j =>
        match t[i]?, t[j]? with
        | some x, some y => if time y ≤ time x then some i else some j
        | _, _ => some j) none

namespace Tables

/-- `latest_owner_source`: the newest owner turn of the given or the open owner chat. -/
def latestOwnerSource (s : Tables) (transcriptId : Option ℕ) : Option ℕ × Option ℕ :=
  let applicable (t : TurnRow) : Bool :=
    t.actor == .owner &&
      match s.transcripts[t.transcriptId]? with
      | none => false
      | some chat => chat.kind == "owner" &&
          match transcriptId with
          | some id => t.transcriptId == id
          | none => chat.closedAt.isNone
  match newest (·.sequence) applicable s.turns with
  | none => (none,none)
  | some i => ((s.turns[i]?).map (·.transcriptId),some i)

def activeByFingerprint (s : Tables) (fingerprint : String) : Option ℕ :=
  (ids (fun m => m.status == .active && m.fingerprint == some fingerprint) s.memories).head?

def retiredByFingerprint (s : Tables) (fingerprint : String) : Option ℕ :=
  newest (·.updatedAt) (fun m => m.status == .retired && m.fingerprint == some fingerprint)
    s.memories

def invalidateContinuityCapsules (s : Tables) : Tables := {s with capsules := []}

/-- `create_active`: the active row with this content, made from the given one if there is
none yet. -/
def createActive [PyRuntime] (s : Tables) (content : String) (row : DurableMemoryRow) :
    Tables × ℕ × Bool :=
  let fingerprint := memoryFingerprint content
  match s.activeByFingerprint fingerprint with
  | some existing => (s,existing,false)
  | none =>
      let created := {row with
        status := .active
        content := some content
        fingerprint := some fingerprint
        suppressesRecall := false}
      ({s with memories := s.memories ++ [created]},s.memories.length,true)

/-- `create_guard` for the statuses `superseded` and `retired`. -/
def createGuard [PyRuntime] (s : Tables) (content : String) (status : MemoryStatus)
    (recordKind : String) (source : Option ℕ × Option ℕ) (now : Time) :
    Except Failure (Tables × ℕ × Bool) :=
  if status ≠ .superseded ∧ status ≠ .retired then
    .error (valueError "guards may only be superseded or retired")
  else
    let fingerprint := memoryFingerprint content
    match (ids (fun m => m.fingerprint == some fingerprint && m.status == status &&
        m.suppressesRecall) s.memories).getLast? with
    | some existing => .ok (s,existing,false)
    | none =>
        let guardRow : DurableMemoryRow :=
          { status := status
            recordKind := recordKind
            origin := "owner_lifecycle"
            groundingStatus := if source.2.isSome then .verified else .legacyUnverified
            ownerAssertionTurnId := source.2
            scope := .crossChat
            durability := .longTerm
            content := some content
            fingerprint := some fingerprint
            suppressesRecall := true
            sourceTranscriptId := source.1
            sourceTurnId := source.2
            retiredAt := if status = .retired then some now else none
            updatedAt := now }
        .ok ({s with memories := s.memories ++ [guardRow]},s.memories.length,true)

/-- Unique indexes, checks and foreign keys. -/
def consistent (s : Tables) : Bool :=
  decide ((s.candidates.filterMap fun c =>
      if c.status.reconcilable then c.evidenceSetHash else none).Nodup) &&
  s.candidates.all (fun c => !c.status.reconcilable || (c.content.isSome && c.fingerprint.isSome)) &&
  decide ((s.memories.filterMap fun m =>
      if m.status = .active then m.fingerprint else none).Nodup) &&
  decide ((s.memories.filterMap (·.originatingCandidateId)).Nodup) &&
  s.memories.all (fun m =>
    (m.status != .deleted || (m.content.isNone && m.fingerprint.isNone && !m.embedded &&
      m.deletedAt.isSome && m.deletionOperationId.isSome && m.suppressesRecall)) &&
    (m.status == .deleted || (m.content.isSome && m.fingerprint.isSome)) &&
    (m.groundingStatus != .verified || m.verificationRecordId.isSome ||
      m.ownerAssertionTurnId.isSome) &&
    m.verificationRecordId.all (· < s.records.length)) &&
  decide ((s.transcripts.filter fun t => t.kind == "owner" && t.closedAt.isNone).length ≤ 1) &&
  s.attempts.all (fun a => a.targetMemoryId.all (· < s.memories.length)) &&
  s.conflicts.all (fun c => c.reconciliationId < s.records.length) &&
  s.obligations.all (fun o => o.commandId.all (· < s.commands.length))

end Tables

/-- `_clear_embedding`. -/
def DurableMemoryRow.clearEmbedding (m : DurableMemoryRow) : DurableMemoryRow :=
  {m with embedded := false}

/-- `_owner_directed`. -/
def DurableMemoryRow.ownerDirected (m : DurableMemoryRow) : Bool :=
  m.recordKind == "owner_directed" || "owner_".toList.isPrefixOf m.recordKind.toList

/-- `record_kind.startswith("derived")`. -/
def DurableMemoryRow.derived (m : DurableMemoryRow) : Bool :=
  "derived".toList.isPrefixOf m.recordKind.toList

/-- The state of the memory store: its tables under the shared-write coordinator. -/
abbrev State := SharedWrites.World OperationId Dict Tables

def memoryResource : String × String := ("memory_state","owner")

theorem memoryResource_type : 1 ≤ memoryResource.1.length ∧ memoryResource.1.length ≤ 64 := by
  decide

theorem memoryResource_id : 1 ≤ memoryResource.2.length ∧ memoryResource.2.length ≤ 255 := by
  decide

theorem owner_actor : 1 ≤ "owner".length ∧ "owner".length ≤ 64 := by decide

def integrityFailure : Failure := ⟨.integrityError,"constraint violation"⟩

/-- A transaction's result is kept only if the constraints accept it. -/
def checked {α : Type*} (r : Except Failure (Tables × α)) : Except Failure (Tables × α) :=
  r.bind fun p => if p.1.consistent then .ok p else .error integrityFailure

/-- A transaction of its own: an exception rolls it back. -/
def transact {α : Type*} (w : State) (tx : Tables → Except Failure (Tables × α)) :
    State × Except Failure α :=
  match checked (tx w.data) with
  | .ok (s,a) => ({w with data := s},.ok a)
  | .error e => (w,.error e)

/-- `_memory_revision`. -/
def memoryRevision (w : State) : ℕ := w.version memoryResource

end Memory
end Atlas
