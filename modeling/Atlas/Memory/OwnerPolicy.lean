import Atlas.Memory.TemporalOrder
import Atlas.Memory.PublisherWrites

/-! The policy between a reconciled claim and its publication: which claims are published, which
wait for the owner and which are blocked, and that waiting for the owner changes no memory. -/
namespace Atlas
namespace Memory

open RowTable

def effectiveScope (snapshot : Evaluation) (reading : IndependentReading)
    (comparison : ComparisonVerdict) : Scope :=
  (comparison.scope.or (reading.scope.or snapshot.payload.scope)).getD .chat

def candidateOrigin (snapshot : Evaluation) : String :=
  (textOr snapshot.payload.origin none).getD "conversation"

section

variable [PyRuntime]

end

section

variable [PyRuntime]

end

end Memory
end Atlas
