import Atlas.Runtime.WorkingContext
import Atlas.Lib.Markers
import Atlas.Lib.Lines
import Atlas.Lib.Numerals

/-! The handles under which an inference may cite what it was shown, against what its messages
show. -/
namespace Atlas
namespace Conversation

open JsonText Evidence Guards Memory Markers

/-- A turn with its number in the chat. -/
structure NumberedTurn (F : Type) extends Turn F where
  sequence : ℕ

def Block.isText {F : Type} : Block F → Bool
  | .text _ => true
  | _ => false

def Block.isObservation {F : Type} : Block F → Bool
  | .toolObservation .. => true
  | _ => false

/-- The handles of a turn. -/
def turnHandles {F : Type} (turn : NumberedTurn F) : Handles :=
  let texts (letter : String) := (turn.blocks.zipIdx.filter fun p => p.1.isText).map fun p =>
    (letter ++ toString turn.sequence ++ "." ++ toString p.2,turn.id,"text:" ++ toString p.2)
  match turn.actor with
  | .owner => texts "o"
  | .atlas => texts "a"
  | .tool =>
      if turn.blocks.any Block.isObservation then [("t" ++ toString turn.sequence,turn.id,"")]
      else []
  | .system => []

/-- An entry of a dictionary of handles; a handle that is there keeps its place. -/
def setHandle (handles : Handles) (entry : String × ℕ × String) : Handles :=
  if entry.1 ∈ handles.map Prod.fst then
    handles.map fun p => if p.1 = entry.1 then entry else p
  else handles ++ [entry]

/-- `memory_evidence_handle_map`. -/
def evidenceHandleMap {F : Type} (turns : List (NumberedTurn F)) : Handles :=
  (turns.flatMap turnHandles).foldl setHandle []

/-- `needle in text`. -/
def occurs (needle text : String) : Prop := needle.toList <:+: text.toList

instance decidableOccurs (needle text : String) : Decidable (occurs needle text) :=
  inferInstanceAs (Decidable (_ <:+: _))

section

variable {F : Type} [ConversationRuntime F] (count : List Message → ℕ)

/-- The texts of a turn that are shown, with the places of their blocks. -/
def shownParts (guards : List String) : List (Block F) → ℕ → List (ℕ × String)
  | [],_ => []
  | .text text :: blocks,index =>
      letI := TextRuntime.toPyRuntime F
      let shown := strip (redactGuardedText text guards)
      let rest := shownParts guards blocks (index + 1)
      if shown = "" then rest else (index,shown) :: rest
  | _ :: blocks,index => shownParts guards blocks (index + 1)

/-- The spans of a turn that its messages show. -/
def shownSpans (guards : List String) (turn : Turn F) : List String :=
  match turn.actor with
  | .owner => (shownParts guards turn.blocks 0).map fun p => "text:" ++ toString p.1
  | .atlas => (shownParts guards turn.blocks 0).map fun p => "text:" ++ toString p.1
  | .tool => if turn.blocks.any Block.isObservation then [""] else []
  | .system => []

/-- Whether a block is one of those that the messages of a projection show. -/
def Shown (src : ContextSource F) (p : Projection F) (ref : ℕ × String) : Prop :=
  ∃ turn ∈ p.turns, turn.id = ref.1 ∧ ref.2 ∈ shownSpans src.suppressedContents turn

instance decidableShown (src : ContextSource F) (p : Projection F) (ref : ℕ × String) :
    Decidable (Shown src p ref) :=
  inferInstanceAs (Decidable (∃ turn ∈ p.turns, _ ∧ _))

def stamp (s : Surroundings) (turn : Turn F) : String :=
  "[Owner turn timestamp: " ++
    ConversationRuntime.ownerLocalTimestamp F turn.createdAt s.ownerTimezone ++ "]"

end

/-! The entries of the map. -/

section

variable {handles : Handles} {entry : String × ℕ × String} {h h' : String}

/-- A handle without the letters that end one where it is printed. -/
def Plain (handle : String) : Prop := ∀ c ∈ ['⟦','⟧',' ','\n',']'], c ∉ handle.toList

end

/-! Where a printed handle occurs in the messages. -/

section

variable {F : Type} [ConversationRuntime F] {handles : Handles} {h : String}

end

end Conversation
end Atlas
