import Mathlib.Data.List.Basic
import Mathlib.Tactic.Common
import Atlas.Python

/-! Shared-state writes: one transaction under the resource lock, with an operation
ledger for idempotency and a version column for optimistic concurrency. -/
namespace Atlas
namespace SharedWrites

/-- Runtime-owned identity and provenance for one shared-state write. -/
structure Envelope (ι : Type*) where
  operationId : ι
  resourceType : String
  resourceId : String
  operation : String
  expectedVersion : Option ℕ
  payload : Json
  actor : String
  sourceTranscriptId : Option ℕ
  sourceTurnId : Option ℕ
  sourceRunId : Option ℕ
  resourceType_bounds : 1 ≤ resourceType.length ∧ resourceType.length ≤ 64
  resourceId_bounds : 1 ≤ resourceId.length ∧ resourceId.length ≤ 255
  operation_bounds : 1 ≤ operation.length ∧ operation.length ≤ 64
  actor_bounds : 1 ≤ actor.length ∧ actor.length ≤ 64

/-- What a resource-specific mutation reports back to the coordinator. -/
structure Mutation (ρ : Type*) where
  mutated : Bool
  result : ρ

inductive WriteStatus where
  | committed
  | conflict
  deriving Repr, DecidableEq

inductive WriteOutcome where
  | applied
  | noChange
  | versionConflict
  deriving Repr, DecidableEq

/-- The request identity that a replay has to repeat. -/
structure Identity where
  resourceType : String
  resourceId : String
  operation : String
  expectedVersion : Option ℕ
  payloadHash : String
  actor : String
  sourceTranscriptId : Option ℕ
  sourceTurnId : Option ℕ
  sourceRunId : Option ℕ
  deriving Repr, DecidableEq

structure OperationRow (ι ρ : Type*) where
  id : ι
  identity : Identity
  status : WriteStatus
  outcome : WriteOutcome
  observedVersion : ℕ
  committedVersion : Option ℕ
  /-- `none` is the empty object the row is inserted with. -/
  result : Option ρ
  deriving Repr, DecidableEq

/-- Durable result of a shared-state write attempt. -/
structure Receipt (ι ρ : Type*) where
  operationId : ι
  status : WriteStatus
  outcome : WriteOutcome
  resourceType : String
  resourceId : String
  observedVersion : ℕ
  committedVersion : Option ℕ
  replayed : Bool
  result : Option ρ
  deriving Repr, DecidableEq

/-- The version rows, the operation ledger and the resource they protect. -/
structure World (ι ρ δ : Type*) where
  versions : String × String → Option ℕ
  operations : List (OperationRow ι ρ)
  data : δ

inductive WriteError (ε : Type*) where
  | idempotencyConflict (message : String)
  | raised (e : ε)

/-- One write attempt: the world it leaves, what its caller sees, and the version its
mutation was called with, if it was called at all. -/
structure Attempted (ι ρ δ ε : Type*) where
  world : World ι ρ δ
  receipt : Except (WriteError ε) (Receipt ι ρ)
  invoked : Option ℕ

section

variable {ι ρ δ ε : Type*} [DecidableEq ι] [PyRuntime]

def payloadHash (payload : Json) : String := PyRuntime.sha256 (PyRuntime.dumps false payload)

def Envelope.identity (envelope : Envelope ι) : Identity :=
  ⟨envelope.resourceType,envelope.resourceId,envelope.operation,envelope.expectedVersion,
    payloadHash envelope.payload,envelope.actor,envelope.sourceTranscriptId,
    envelope.sourceTurnId,envelope.sourceRunId⟩

def Envelope.resource (envelope : Envelope ι) : String × String :=
  (envelope.resourceType,envelope.resourceId)

def Identity.resource (i : Identity) : String × String := (i.resourceType,i.resourceId)

def OperationRow.receipt (row : OperationRow ι ρ) (replayed : Bool) : Receipt ι ρ :=
  ⟨row.id,row.status,row.outcome,row.identity.resourceType,row.identity.resourceId,
    row.observedVersion,row.committedVersion,replayed,row.result⟩

def World.version (w : World ι ρ δ) (resource : String × String) : ℕ :=
  (w.versions resource).getD 0

def World.find (w : World ι ρ δ) (id : ι) : Option (OperationRow ι ρ) :=
  w.operations.find? fun row => decide (row.id = id)

def reusedMessage : String := "operation_id already belongs to a different shared-state write"

/-- The transaction of `SharedWriteRepository.execute`; an exception rolls it back. -/
def execute (w : World ι ρ δ) (envelope : Envelope ι)
    (mutation : δ → ℕ → Except ε (Mutation ρ × δ)) : Attempted ι ρ δ ε :=
  match w.find envelope.operationId with
  | some row =>
      if row.identity = envelope.identity then ⟨w,.ok (row.receipt true),none⟩
      else ⟨w,.error (.idempotencyConflict reusedMessage),none⟩
  | none =>
      let current := w.version envelope.resource
      if envelope.expectedVersion ≠ none ∧ envelope.expectedVersion ≠ some current then
        let row : OperationRow ι ρ :=
          ⟨envelope.operationId,envelope.identity,.conflict,.versionConflict,current,none,none⟩
        ⟨{w with
            versions := Function.update w.versions envelope.resource (some current)
            operations := w.operations ++ [row]},.ok (row.receipt false),none⟩
      else
        match mutation w.data current with
        | .error e => ⟨w,.error (.raised e),some current⟩
        | .ok (outcome,data) =>
            let next := if outcome.mutated then current + 1 else current
            let row : OperationRow ι ρ :=
              ⟨envelope.operationId,envelope.identity,.committed,
                if outcome.mutated then .applied else .noChange,current,some next,
                some outcome.result⟩
            ⟨⟨Function.update w.versions envelope.resource (some next),
                w.operations ++ [row],data⟩,.ok (row.receipt false),some current⟩

end

end SharedWrites
end Atlas
