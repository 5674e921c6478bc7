import Atlas.Memory.Chronicle

/-! The background discovery sweep: it reads a window of turns after a transcript's cursor, asks a
model for candidates, takes them in, and moves the cursor if it still stands where the sweep
read it. Every select and every transaction of a sweep is a step of its own. -/
namespace Atlas
namespace Memory

open RowTable

/-- The rows of a snapshot, with their identifiers. -/
abbrev TurnRows := List (ℕ × TurnRow)

/-- The service, and which blocks its turns can be read from. -/
structure DiscoveryConfig where
  maxTurnsPerTranscript : ℕ := 12
  contextTurns : ℕ := 4
  proposerModel : Option String := none
  domainTurn : TurnRow → Bool := fun _ => true

def DiscoveryConfig.maxTurns (config : DiscoveryConfig) : ℕ :=
  max 1 (min config.maxTurnsPerTranscript 40)

def DiscoveryConfig.context (config : DiscoveryConfig) : ℕ := min config.contextTurns 12

/-- `memory_evidence_handle_map`. -/
def memoryEvidenceHandleMap (turns : TurnRows) : List (String × ℕ × String) :=
  turns.flatMap fun (id,turn) =>
    let texts (handle : String) := turn.blocks.zipIdx.filterMap fun (block,index) =>
      if block.textAt "type" = some "text" then
        some (handle ++ toString turn.sequence ++ "." ++ toString index,id,"text:" ++ toString index)
      else none
    match turn.actor with
    | .owner => texts "o"
    | .atlas => texts "a"
    | .tool =>
        if turn.blocks.any fun block => block.textAt "type" == some "tool_observation" then
          [("t" ++ toString turn.sequence,id,"")]
        else []
    | .system => []

namespace Tables

/-- Turns in the order of their numbers. -/
def turnsInOrder (s : Tables) (p : TurnRow → Bool) : TurnRows :=
  ((ids p s.turns).filterMap fun id => (s.turns[id]?).map fun t => (id,t)).insertionSort
    fun a b => a.2.sequence ≤ b.2.sequence

/-- The turns a sweep scans from a cursor on. -/
def scanTurns (s : Tables) (config : DiscoveryConfig) (transcriptId cursor : ℕ) : TurnRows :=
  (s.turnsInOrder fun t => t.transcriptId == transcriptId && decide (cursor < t.sequence) &&
    t.deletedAt.isNone).take config.maxTurns

/-- The turns a sweep shows its model, the earlier ones as context. -/
def visibleTurns (s : Tables) (config : DiscoveryConfig) (transcriptId first last : ℕ) : TurnRows :=
  s.turnsInOrder fun t => t.transcriptId == transcriptId &&
    decide (max 1 (first - config.context) ≤ t.sequence) && decide (t.sequence ≤ last) &&
    t.deletedAt.isNone

/-- `_locked_state`. -/
def lockedState (s : Tables) (transcriptId : ℕ) (now : Time) : Tables :=
  if s.discoveries.any fun r => r.transcriptId == transcriptId then s
  else {s with discoveries := s.discoveries ++ [{
    transcriptId := transcriptId
    lastScannedSequence := 0
    updatedAt := now}]}

def setDiscovery (s : Tables) (transcriptId : ℕ) (f : DiscoveryStateRow → DiscoveryStateRow) :
    Tables :=
  {s with discoveries := s.discoveries.map fun r => if r.transcriptId = transcriptId then f r else r}

/-- Whether every turn of a window is live. -/
def liveWindow (s : Tables) (window : List ℕ) : Bool :=
  window.all fun id => (s.turns[id]?).any (·.deletedAt.isNone)

/-- `_advance`: whether it moved the cursor. -/
def advance (s : Tables) (transcriptId sequence expectedCursor : ℕ) (window : List ℕ)
    (sourceRevision : ℕ) (now : Time) : Tables × Bool :=
  let s := s.lockedState transcriptId now
  if s.cursor transcriptId ≠ expectedCursor then (s,false)
  else if ¬s.liveWindow window then (s,false)
  else (s.setDiscovery transcriptId fun r => {r with
    lastScannedSequence := sequence
    sourceRevision := sourceRevision
    updatedAt := now},true)

/-- `_touch`. -/
def touch (s : Tables) (transcriptId : ℕ) (now : Time) : Tables :=
  (s.lockedState transcriptId now).setDiscovery transcriptId fun r => {r with updatedAt := now}

/-- The rewinds of a purge that saw cursors which needed none, and so wrote none. -/
def keepCursors (s : Tables) (unwritten : List ℕ) (cursor : ℕ → ℕ) : Tables :=
  {s with discoveries := s.discoveries.map fun r =>
    if unwritten.contains r.transcriptId then
      {r with lastScannedSequence := cursor r.transcriptId}
    else r}

end Tables

/-- How far a sweep of one transcript has come. -/
inductive SweepPhase where
  | opened
  | positioned
  | scanned
  | viewed
  | discovered
  | enqueued
  | advanced
  | skipped
  | stale
  | failed
  | touched
  deriving Repr, DecidableEq

/-- One round of `run_once` for a transcript. It remembers whether its model answered, whether its
candidates were taken in, and how often the cursor had moved when it read it. -/
structure Sweep where
  transcriptId : ℕ
  contentRevision : ℕ
  cursor : ℕ := 0
  scanTurns : TurnRows := []
  visibleTurns : TurnRows := []
  proposals : List RawCandidate := []
  phase : SweepPhase := .opened
  answered : Bool := false
  intake : Bool := false
  moves : ℕ := 0

/-- The last scanned turn, on which the sweep anchors its candidates. -/
def Sweep.anchor (sweep : Sweep) : Option (ℕ × TurnRow) := sweep.scanTurns.getLast?

def Sweep.window (sweep : Sweep) : List ℕ := sweep.scanTurns.map (·.1)

/-- The source of the candidates a sweep proposes. -/
def Sweep.source (config : DiscoveryConfig) (sweep : Sweep) (anchorId : ℕ) : IntakeSource :=
  { sourceTranscriptId := sweep.transcriptId
    sourceTurnId := anchorId
    allowedEvidenceTurnIds := some (sweep.visibleTurns.map (·.1))
    evidenceHandleMap := some (memoryEvidenceHandleMap
      (sweep.visibleTurns.filter fun t => config.domainTurn t.2))
    proposerModel := config.proposerModel.bind orNone
    intakePath := "sweep"
    temporalHorizonAt := (sweep.scanTurns.map (·.2.createdAt)).max? }

/-- The store with its sweeps, and how often each cursor has moved. -/
structure Discovery where
  store : State
  sweeps : List Sweep := []
  moves : ℕ → ℕ := fun _ => 0

/-- The steps of the store and of its sweeps. -/
inductive Sweeping where
  | store (op : Op) (unwritten : List ℕ)
  | open (transcriptId : ℕ)
  | position (i : ℕ)
  | scan (i : ℕ)
  | view (i : ℕ)
  | discover (i : ℕ) (reply : Option (List RawCandidate))
  | enqueue (i : ℕ)
  | advance (i : ℕ) (now : Time)
  | fail (i : ℕ)
  | touch (i : ℕ) (now : Time)

namespace Discovery

def cursor (m : Discovery) (transcriptId : ℕ) : ℕ := m.store.data.cursor transcriptId

def setSweep (m : Discovery) (i : ℕ) (f : Sweep → Sweep) : Discovery :=
  {m with sweeps := m.sweeps.modify i f}

/-- A step of one sweep, if it is in the phase the step needs. -/
def inPhase (m : Discovery) (i : ℕ) (p : SweepPhase → Bool) (f : Sweep → Discovery) : Discovery :=
  match (m.sweeps[i]?).filter fun sweep => p sweep.phase with
  | none => m
  | some sweep => f sweep

section

variable [PyRuntime]

/-- `enqueue_many` for the proposals of a sweep. -/
def takeIn (config : DiscoveryConfig) (m : Discovery) (i : ℕ) (sweep : Sweep) : Discovery :=
  match sweep.anchor with
  | none => m.setSweep i fun sweep => {sweep with phase := .failed}
  | some (anchorId,_) =>
      match transact m.store fun s =>
        .ok (s.enqueueMany sweep.proposals (sweep.source config anchorId),()) with
      | (store,.ok _) => {m with store := store}.setSweep i fun sweep =>
          {sweep with phase := .enqueued, intake := true}
      | (_,.error _) => m.setSweep i fun sweep => {sweep with phase := .failed}

/-- The transaction that moves the cursor, or finds the sweep stale. -/
def moveCursor (m : Discovery) (i : ℕ) (sweep : Sweep) (now : Time) : Discovery :=
  match sweep.anchor with
  | none => m.setSweep i fun sweep => {sweep with phase := .failed}
  | some (_,anchor) =>
      let r := m.store.data.advance sweep.transcriptId anchor.sequence sweep.cursor sweep.window
        sweep.contentRevision now
      {m with store := {m.store with data := r.1}}.setSweep i fun sweep =>
        {sweep with phase := if r.2 then .advanced else .stale}

def act (config : DiscoveryConfig) (m : Discovery) : Sweeping → Discovery
  | .store op unwritten =>
      let w := step m.store op
      {m with store := {w with data := w.data.keepCursors unwritten m.cursor}}
  | .open transcriptId =>
      match m.store.data.transcripts[transcriptId]? with
      | none => m
      | some t => {m with sweeps := m.sweeps ++ [⟨transcriptId,t.contentRevision,0,[],[],[],.opened,
          false,false,0⟩]}
  | .position i => m.inPhase i (· == .opened) fun sweep => m.setSweep i fun _ => {sweep with
      cursor := m.cursor sweep.transcriptId
      moves := m.moves sweep.transcriptId
      phase := .positioned}
  | .scan i => m.inPhase i (· == .positioned) fun sweep =>
      let turns := m.store.data.scanTurns config sweep.transcriptId sweep.cursor
      m.setSweep i fun _ => {sweep with
        scanTurns := turns
        phase := if turns.isEmpty then .skipped else .scanned}
  | .view i => m.inPhase i (· == .scanned) fun sweep =>
      match sweep.scanTurns.head?, sweep.anchor with
      | some first, some last => m.setSweep i fun _ => {sweep with
          visibleTurns := m.store.data.visibleTurns config sweep.transcriptId first.2.sequence
            last.2.sequence
          phase := .viewed}
      | _, _ => m
  | .discover i reply => m.inPhase i (· == .viewed) fun sweep =>
      match reply.filter fun proposals => decide (proposals.length ≤ 8) with
      | none => m.setSweep i fun _ => {sweep with phase := .failed}
      | some proposals => m.setSweep i fun _ => {sweep with
          proposals := proposals
          answered := true
          phase := .discovered}
  | .enqueue i => m.inPhase i (· == .discovered) fun sweep => takeIn config m i sweep
  | .advance i now => m.inPhase i (· == .enqueued) fun sweep => m.moveCursor i sweep now
  | .fail i => m.inPhase i (fun p => p ∈ [.opened,.positioned,.scanned,.viewed,.discovered,.enqueued])
      fun sweep => m.setSweep i fun _ => {sweep with phase := .failed}
  | .touch i now => m.inPhase i (fun p => p ∈ [.stale,.failed]) fun sweep =>
      {m with store := {m.store with data := m.store.data.touch sweep.transcriptId now}}.setSweep i
        fun _ => {sweep with phase := .touched}

/-- A step, and the cursors it moved. -/
def next (config : DiscoveryConfig) (m : Discovery) (a : Sweeping) : Discovery :=
  let m' := act config m a
  {m' with moves := fun t => if m'.cursor t = m.cursor t then m.moves t else m.moves t + 1}

end

end Discovery

end Memory
end Atlas
