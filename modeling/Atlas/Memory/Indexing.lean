import Atlas.Actions.Rows
import Atlas.Lib.Packing
import Atlas.Memory.Discovery
import Atlas.Memory.Intake

/-! The transcript indexer: it packs the texts of the turns behind its cursor into chunks for the
search and moves the cursor to the last turn it has seen. -/
namespace Atlas
namespace Memory

open RowTable
open Actions (ActionRuntime)

def Actor.value : Actor → String
  | .owner => "owner"
  | .atlas => "atlas"
  | .tool => "tool"
  | .system => "system"

section

variable [ActionRuntime]

/-- `str(block.get(key) or default)`. -/
def fieldText (block : Dict) (key default : String) : String :=
  match Dict.get block key with
  | some value => if value.truthy then ActionRuntime.str value else default
  | none => default

/-- What a block contributes to the text of its turn. -/
def blockText : Json → Option String
  | .obj block =>
      if Dict.text block "type" = some "text" then orNone (strip (fieldText block "text" ""))
      else if Dict.text block "type" = some "tool_observation" then
        let label := fieldText block "operation" "runtime" ++ " [" ++
          fieldText block "phase" "observed" ++ "]"
        match orNone (strip (fieldText block "summary" "")) with
        | some summary => some (label ++ ": " ++ summary)
        | none => some label
      else none
  | _ => none

/-- `_turn_text`. -/
def turnText (t : TurnRow) : String :=
  match t.blocks.filterMap blockText with
  | [] => ""
  | parts => t.actor.value ++ ": " ++ "\n".intercalate parts

/-- `_chunk_rows`. -/
def chunkRows (maxChars : ℕ) (rows : TurnRows) : List (TurnRows × String) :=
  (Packing.pack (fun r => (turnText r.2).length) 2 maxChars [] 0
    (rows.filter fun r => turnText r.2 ≠ "")).map fun c =>
      (c,"\n\n".intercalate (c.map fun r => turnText r.2))

/-- A chunk as it is entered. -/
def chunkOf (transcriptId : ℕ) (chunk : TurnRows × String) : IndexChunkRow where
  transcriptId := transcriptId
  startSequence := (chunk.1.head?.map (·.2.sequence)).getD 0
  endSequence := (chunk.1.getLast?.map (·.2.sequence)).getD 0
  content := chunk.2

namespace Tables

/-- How far a transcript was indexed. -/
def lastIndexed (s : Tables) (transcriptId : ℕ) : ℕ :=
  ((s.indexStates.find? fun r => r.transcriptId == transcriptId).map (·.lastIndexedSequence)).getD 0

/-- `_state_for_update`. -/
def stateForUpdate (s : Tables) (transcriptId : ℕ) : Tables :=
  if s.indexStates.any fun r => r.transcriptId == transcriptId then s
  else {s with indexStates := s.indexStates ++ [⟨transcriptId,0⟩]}

def setIndexed (s : Tables) (transcriptId sequence : ℕ) : Tables :=
  {s with indexStates := s.indexStates.map fun r =>
    if r.transcriptId = transcriptId then {r with lastIndexedSequence := sequence} else r}

/-- `index_transcript`: the tables, the chunks created and the turns processed. -/
def indexTranscript (s : Tables) (maxChars transcriptId throughSequence : ℕ) : Tables × ℕ × ℕ :=
  if throughSequence = 0 then (s,0,0)
  else if (s.transcripts[transcriptId]?).isNone then (s,0,0)
  else
    let s := s.stateForUpdate transcriptId
    let last := s.lastIndexed transcriptId
    if throughSequence ≤ last then (s,0,0)
    else
      let rows := s.turnsInOrder fun t => t.transcriptId == transcriptId &&
        decide (last < t.sequence) && decide (t.sequence ≤ throughSequence)
      match rows.getLast? with
      | none => (s.setIndexed transcriptId throughSequence,0,0)
      | some row =>
          let chunks := (chunkRows maxChars rows).map (chunkOf transcriptId)
          ({s with chunks := s.chunks ++ chunks}.setIndexed transcriptId row.2.sequence,
            chunks.length,rows.length)

/-- `_active_cutoff`. -/
def activeCutoff (s : Tables) (transcriptId : ℕ) (t : TranscriptRow) (tailExchanges : ℕ) : ℕ :=
  if t.closedAt.isSome ∨ tailExchanges = 0 then t.nextTurnSequence
  else
    let owner := ((s.turnsInOrder fun t => t.transcriptId == transcriptId &&
      t.actor == .owner).map (·.2.sequence)).reverse.take tailExchanges
    if owner.length < tailExchanges then 0 else (least owner).getD 0 - 1

structure IndexRunResult where
  transcriptsSeen : ℕ := 0
  transcriptsAdvanced : ℕ := 0
  chunksCreated : ℕ := 0
  turnsProcessed : ℕ := 0
  deriving Repr, DecidableEq

/-- One transcript of a pass. -/
def indexOne (maxChars tailExchanges : ℕ) (r : Tables × IndexRunResult) (p : ℕ × TranscriptRow) :
    Tables × IndexRunResult :=
  let (s,created,processed) :=
    r.1.indexTranscript maxChars p.1 (r.1.activeCutoff p.1 p.2 tailExchanges)
  if processed = 0 then (s,r.2)
  else (s,{r.2 with
    transcriptsAdvanced := r.2.transcriptsAdvanced + 1
    chunksCreated := r.2.chunksCreated + created
    turnsProcessed := r.2.turnsProcessed + processed})

/-- The transcripts in the order a pass takes them. -/
def transcriptsInOrder (s : Tables) : List (ℕ × TranscriptRow) :=
  (s.transcripts.zipIdx.map fun p => (p.2,p.1)).insertionSort fun a b =>
    a.2.createdAt < b.2.createdAt ∨ a.2.createdAt = b.2.createdAt ∧ a.1 ≤ b.1

/-- `run_once`, with the size of chunks that the service was configured with. -/
def indexRunOnce (s : Tables) (chunkChars tailExchanges : ℕ) : Tables × IndexRunResult :=
  s.transcriptsInOrder.foldl (indexOne (max 500 chunkChars) tailExchanges)
    (s,{transcriptsSeen := s.transcripts.length})

end Tables

end

end Memory
end Atlas
