import Atlas.Runtime.Conversation
import Mathlib.Data.Finset.Card

/-! The working context of an inference: what is shown of a chat is reduced step by step until it
fits a budget. -/
namespace Atlas
namespace Conversation

open JsonText Evidence Guards Memory Atlas.Runtime

/-- The settings that bound a working context. -/
structure ContextSettings where
  workingContextExchanges : ℤ := 10
  workingContextTokens : ℤ := 64000
  workingContextRawToolExchanges : ℤ := 2
  openaiContextWindow : ℤ := 1000000
  ownerTimezone : String := "Africa/Johannesburg"

def ContextSettings.exchangeLimit (s : ContextSettings) : ℕ :=
  (max 1 s.workingContextExchanges).toNat

/-- Three quarters of the smaller limit. -/
def ContextSettings.tokenBudget (s : ContextSettings) : ℕ :=
  (max 1 ((min s.workingContextTokens s.openaiContextWindow * 3).tdiv 4)).toNat

def ContextSettings.rawToolExchanges (s : ContextSettings) : ℕ :=
  (max 0 s.workingContextRawToolExchanges).toNat

inductive Stage where
  | verbatim
  | olderToolsCompacted
  | successfulToolsCompacted
  | continuityOmitted
  | historyTrimmed
  | capsuleOmitted
  deriving Repr, DecidableEq

/-- What an inference is assembled from. -/
structure ContextSource (F : Type) where
  settings : ContextSettings
  turns : List (Turn F)
  summarizedThroughTurnId : Option ℕ := none
  contextSummary : Option String := none
  activeTaskState : Dict := []
  suppressedContents : List String := []
  continuityContext : Option String := none
  continuityCount : ℕ := 0
  evidenceHandles : Handles := []
  memoryOutcomes : Option String := none
  memoryAttention : Option String := none

/-- What is shown of a chat. -/
structure Projection (F : Type) where
  turns : List (Turn F)
  compactIds : Finset ℕ
  continuity : Bool
  summary : Bool

/-- A projection with its messages and their tokens. -/
structure Rung (F : Type) where
  projection : Projection F
  messages : List Message
  inputTokens : ℕ
  stage : Stage

/-- What is reported beside the messages. -/
structure ContextReport where
  inputTokens : ℕ
  tokenBudget : ℤ
  initialContextBudget : ℕ
  exchangeLimit : ℕ
  selectedExchanges : ℕ
  compactedToolTurns : ℕ
  summaryIncluded : Bool
  continuityIncluded : Bool
  continuityChats : ℕ
  memorySuppressionGuards : ℕ
  budgetExceeded : Bool
  stage : Stage
  deriving Repr, DecidableEq

def given (text : Option String) : Bool := text.getD "" != ""

section

variable {F : Type} [ConversationRuntime F]

mutual

def valueOf : Json → Value F
  | .null => .null
  | .bool b => .bool b
  | .num n => .int n
  | .str s => .str s
  | .arr items => .arr (valuesOf items)
  | .obj fields => .obj (fieldsOf fields)

def valuesOf : List Json → List (Value F)
  | [] => []
  | item :: items => valueOf item :: valuesOf items

def fieldsOf : List (String × Json) → List (String × Value F)
  | [] => []
  | (key,item) :: fields => (key,valueOf item) :: fieldsOf fields

end

def fieldOr (state : Dict) (key : String) (other : Json) : Json := (Dict.get state key).getD other

/-- The fields of a pending action that are shown. -/
def pendingShown (item : Json) : Json :=
  match item with
  | .obj fields => .obj (["action_id","operation","phase","evidence_id"].filterMap fun key =>
      (Dict.get fields key).map fun value => (key,value))
  | _ => .obj []

def taskProjection (state : Dict) : Dict :=
  let runtime := part state "runtime"
  let pending := listed runtime "pending_actions"
  [("task_id",fieldOr state "task_id" .null),
    ("revision",fieldOr state "revision" (.num 0)),
    ("status",fieldOr state "status" .null),
    ("mode",fieldOr state "mode" (.str "conversation")),
    ("semantic",.obj (part state "semantic")),
    ("runtime",.obj [
      ("owner_request",fieldOr runtime "owner_request" .null),
      ("owner_turn_id",fieldOr runtime "owner_turn_id" .null),
      ("pending_actions",.arr ((pending.take 16).map pendingShown)),
      ("pending_actions_count",.num pending.length),
      ("pending_actions_overflow",if 16 < pending.length then .obj [
        ("operation_id",.str "evidence.task.read"),
        ("task_id",fieldOr state "task_id" .null),
        ("expected_revision",fieldOr state "revision" (.num 0)),
        ("message",.str ("Additional unresolved action references remain in the exact task " ++
          "checkpoint; page it before planning effects."))] else .null),
      ("errors",fieldOr runtime "errors" (.arr [])),
      ("recent_events",.arr (lastItems 8 (listed runtime "recent_events"))),
      ("working_set",.arr (lastItems 8 (listed runtime "working_set"))),
      ("completion_rejected",fieldOr runtime "completion_rejected" .null)])]

def managedProjection (state : Dict) : Dict :=
  [("project_id",fieldOr state "project_id" .null),
    ("project_title",fieldOr state "project_title" .null),
    ("source_chat_id",fieldOr state "source_chat_id" .null),
    ("policy_preset",fieldOr state "policy_preset" .null),
    ("authority_grants",.arr (listed state "authority_grants")),
    ("scope",.arr (listed state "scope")),
    ("acceptance_criteria",.arr (listed state "acceptance_criteria")),
    ("checkpoints",.arr (listed state "checkpoints")),
    ("progress",.obj (part state "progress"))]

def checkpointPrefix : String :=
  "Protected active-task checkpoint. Runtime fields are authoritative facts; semantic fields are " ++
  "the model's compact task meaning. Keep this task coherent even if older dialogue or tool " ++
  "evidence is omitted. "

def managedPrefix : String :=
  "MANAGED TASK CONTROL: this is a durable background objective, not a one-turn chat reply. " ++
  "Continue working without asking the owner again for authority already contained in the agreed " ++
  "scope and central Atlas policy. Exact operation IDs in authority_grants were approved with this " ++
  "task: the runtime may promote Ask me to Auto for those operations only; a current Control Deny " ++
  "or disabled capability still blocks dispatch. Do not create a scheduled task merely to continue " ++
  "this work. Delegate coding to the Coding agent capability when appropriate, monitor it, and " ++
  "continue from its result. Semantic findings and next_step may describe blockers observed on " ++
  "earlier turns; they are not immutable runtime facts. Before repeating a blocker, asking the " ++
  "owner for a repair, or consuming another no-progress retry, use an available safe READ " ++
  "capability in the current turn to verify that the blocker still exists. If a safe read can test " ++
  "it, do not infer continued blockage only from prior semantic text. At the end of every " ++
  "inference set task_state_delta.status=active with next_step while anything remains, or " ++
  "status=complete only after every acceptance criterion is passed with runtime evidence and no " ++
  "action is pending. The runtime, not the owner, will invoke the next Atlas turn while status " ++
  "remains active. "

variable (F) in
/-- `active_task_provider_message`. -/
def activeTaskProviderMessage (state : Dict) : Option Message :=
  if Dict.text state "status" ≠ some "active" then none
  else
    let shown := if managed state then taskProjection state ++ managedProjection state
      else taskProjection state
    some ⟨.developer,checkpointPrefix ++ (if managed state then managedPrefix else "") ++
      String.ofList (encode Evidence.compact (.obj (fieldsOf (F := F) shown)))⟩

def ContextSource.surroundings (src : ContextSource F) : Surroundings where
  suppressedContents := src.suppressedContents
  evidenceHandles := src.evidenceHandles
  memoryOutcomes := src.memoryOutcomes
  memoryAttention := src.memoryAttention
  ownerTimezone := src.settings.ownerTimezone

def ContextSource.activeTurns (src : ContextSource F) : List (Turn F) :=
  contextTurns src.turns src.summarizedThroughTurnId

/-- The messages of a projection. -/
def projected (src : ContextSource F) (p : Projection F) : List Message :=
  (activeTaskProviderMessage F src.activeTaskState).toList ++
    turnsToProviderMessages src.surroundings p.turns
      (if p.summary then src.contextSummary else none)
      (if p.continuity then src.continuityContext else none) p.compactIds

def measure (count : List Message → ℕ) (src : ContextSource F) (p : Projection F)
    (stage : Stage) : Rung F :=
  let messages := projected src p
  ⟨p,messages,count messages,stage⟩

/-- The phases of the tool observations of a turn. -/
def observedPhases (turn : Turn F) : List (Option String) :=
  turn.blocks.filterMap fun
    | .toolObservation _ phase _ _ => some phase
    | _ => none

/-- `compactable_ids`. -/
def compactableIds (turns : List (Turn F)) : Finset ℕ :=
  ((turns.filter fun turn => turn.actor == .tool && !(observedPhases turn).isEmpty &&
    (observedPhases turn).all (toolObservationIsCompactable F)).map Turn.id).toFinset

/-- The compactable tool turns that are older than those shown whole. -/
def olderCompactable (raw : ℕ) (turns : List (Turn F)) : Finset ℕ :=
  (compactableIds turns).filter fun id => raw < ageOf (toolTurnExchangeAges turns) id

section

variable (count : List Message → ℕ) (src : ContextSource F)

def Rung.exceeds (r : Rung F) : Bool := decide (src.settings.tokenBudget < r.inputTokens)

def verbatimRung : Rung F :=
  measure count src ⟨recentExchangeTurns src.activeTurns src.settings.exchangeLimit,∅,
    given src.continuityContext,given src.contextSummary⟩ .verbatim

/-- Another projection in place of one that exceeds the budget, where it applies. -/
def reduceTo (p : Projection F) (applies : Bool) (stage : Stage) (r : Rung F) : Rung F :=
  if r.exceeds src && applies then measure count src p stage else r

def compactOlder (r : Rung F) : Rung F :=
  reduceTo count src {r.projection with
    compactIds := olderCompactable src.settings.rawToolExchanges r.projection.turns}
    true .olderToolsCompacted r

def compactAll (r : Rung F) : Rung F :=
  reduceTo count src {r.projection with compactIds := compactableIds r.projection.turns}
    true .successfulToolsCompacted r

def omitContinuity (r : Rung F) : Rung F :=
  reduceTo count src {r.projection with continuity := false}
    r.projection.continuity .continuityOmitted r

/-- One exchange less, until the rest fits or one is left. -/
def trimExchanges : ℕ → Rung F → Rung F
  | 0,r => r
  | exchangeCount + 1,r =>
      let trimmed := recentExchangeTurns r.projection.turns (exchangeCount + 1)
      let r := measure count src {r.projection with
        turns := trimmed, compactIds := compactableIds trimmed} .historyTrimmed
      if r.exceeds src then trimExchanges exchangeCount r else r

def trimHistory (r : Rung F) : Rung F :=
  let ownerCount := r.projection.turns.countP Turn.isOwner
  if r.exceeds src && decide (1 < ownerCount) then trimExchanges count src (ownerCount - 1) r else r

def omitCapsule (r : Rung F) : Rung F :=
  reduceTo count src {r.projection with summary := false}
    r.projection.summary .capsuleOmitted r

/-- Where the ladder ends. -/
def lastRung : Rung F :=
  omitCapsule count src (trimHistory count src (omitContinuity count src (compactAll count src
    (compactOlder count src (verbatimRung count src)))))

/-- `_assemble_working_context`. -/
def assembleWorkingContext : List Message × ContextReport :=
  let r := lastRung count src
  (r.messages,{
    inputTokens := r.inputTokens
    tokenBudget := src.settings.workingContextTokens
    initialContextBudget := src.settings.tokenBudget
    exchangeLimit := src.settings.exchangeLimit
    selectedExchanges := r.projection.turns.countP Turn.isOwner
    compactedToolTurns := r.projection.compactIds.card
    summaryIncluded := r.projection.summary
    continuityIncluded := r.projection.continuity
    continuityChats := if r.projection.continuity then src.continuityCount else 0
    memorySuppressionGuards := src.suppressedContents.length
    budgetExceeded := r.exceeds src
    stage := r.stage})

/-! What is reported of a chat is counted on what is shown of it. -/

/-- The latest owner turn of the active turns and what follows it. -/
def latestExchange : List (Turn F) := Windows.ending Turn.isOwner 1 src.activeTurns

def Over (p : Projection F) : Prop := src.settings.tokenBudget < count (projected src p)

/-- A rung that is measured, and has not lost the latest exchange. -/
structure Rung.Sound (r : Rung F) : Prop where
  measured : r.messages = projected src r.projection
  counted : r.inputTokens = count (projected src r.projection)
  latest : Windows.ending Turn.isOwner 1 r.projection.turns = latestExchange src

variable {count src}

theorem sound_measure {p : Projection F}
    (h : Windows.ending Turn.isOwner 1 p.turns = latestExchange src) (stage : Stage) :
    (measure count src p stage).Sound count src :=
  ⟨rfl,rfl,h⟩

theorem Rung.Sound.exceeds_iff {r : Rung F} (h : r.Sound count src) :
    r.exceeds src = true ↔ Over count src r.projection := by
  simp [Rung.exceeds,Over,h.counted]

theorem exceeds_measure (p : Projection F) (stage : Stage) :
    (measure count src p stage).exceeds src = true ↔ Over count src p :=
  decide_eq_true_iff

variable (count src) in
/-- A rung that exceeds the budget in a given case only, and what it shows then. -/
structure Rung.Reached (r : Rung F) (case : Prop) (p : Projection F) : Prop where
  sound : r.Sound count src
  exceeds : r.exceeds src = true ↔ case
  shows : r.exceeds src = true → r.projection = p

/-- A step is reached with the case that its projection exceeds the budget too. -/
theorem Rung.Reached.reduceTo {r : Rung F} {case : Prop} {p : Projection F}
    (h : r.Reached count src case p) (f : Projection F → Projection F)
    (applies : Projection F → Bool) (stage : Stage) (hf : ∀ q, applies q = false → f q = q)
    (hturns : ∀ q, (f q).turns = q.turns) :
    (reduceTo count src (f r.projection) (applies r.projection) stage r).Reached count src
      (case ∧ Over count src (f p)) (f p) := by
  by_cases hr : r.exceeds src = true
  · have hshows := h.shows hr
    have hcase := h.exceeds.mp hr
    by_cases happlies : applies r.projection = true
    · have hstep : Conversation.reduceTo count src (f r.projection) (applies r.projection) stage r =
          measure count src (f p) stage := by
        rw [Conversation.reduceTo,hr,happlies,hshows]
        rfl
      rw [hstep]
      refine ⟨sound_measure ?_ stage,(exceeds_measure _ _).trans (by simp [hcase]),fun _ => rfl⟩
      rw [hturns,← hshows]
      exact h.sound.latest
    · have hsame : f p = p := hshows ▸ hf r.projection (Bool.not_eq_true _ ▸ happlies)
      have hover : Over count src p := hshows ▸ h.sound.exceeds_iff.mp hr
      have hstep : Conversation.reduceTo count src (f r.projection) (applies r.projection) stage r =
          r := by
        simp [Conversation.reduceTo,happlies]
      rw [hstep,hsame]
      exact ⟨h.sound,by simp [hr,hcase,hover],h.shows⟩
  · have hstep : Conversation.reduceTo count src (f r.projection) (applies r.projection) stage r =
        r := by
      simp [Conversation.reduceTo,hr]
    have hcase : ¬ case := mt h.exceeds.mpr hr
    rw [hstep]
    exact ⟨h.sound,by simp [hr,hcase],fun h => absurd h hr⟩

omit [ConversationRuntime F] in
theorem recentExchangeTurns_window {n : ℕ} (hn : 0 < n) (turns : List (Turn F)) :
    recentExchangeTurns turns n = Windows.window Turn.isOwner n turns :=
  if_neg (by omega)

/-- Trimming ends at a fitting projection or at the latest exchange. -/
theorem trimExchanges_spec (n : ℕ) (r : Rung F) (hr : r.Sound count src)
    (hn : n < r.projection.turns.countP Turn.isOwner) :
    (trimExchanges count src n r).Sound count src ∧
    ((trimExchanges count src n r).exceeds src = true → 0 < n →
      (trimExchanges count src n r).projection = {r.projection with
        turns := latestExchange src, compactIds := compactableIds (latestExchange src)}) := by
  induction n generalizing r with
  | zero => exact ⟨hr,fun _ h => absurd h (Nat.lt_irrefl 0)⟩
  | succ n ih =>
    have hwindow := recentExchangeTurns_window n.succ_pos r.projection.turns
    have hlatest := (Windows.ending_window (p := Turn.isOwner) r.projection.turns one_pos
      (Nat.succ_le_succ n.zero_le)).trans hr.latest
    have hcount := Windows.countP_window (p := Turn.isOwner) (l := r.projection.turns) n.succ_pos
    rw [← hwindow] at hlatest hcount
    have hsound : (measure count src {r.projection with
        turns := recentExchangeTurns r.projection.turns (n + 1),
        compactIds := compactableIds (recentExchangeTurns r.projection.turns (n + 1))}
        .historyTrimmed).Sound count src := sound_measure hlatest .historyTrimmed
    rw [trimExchanges]
    split_ifs with hexceeds
    · have hfewer : n < (recentExchangeTurns r.projection.turns n.succ).countP Turn.isOwner := by
        omega
      have h := ih _ hsound hfewer
      refine ⟨h.1,fun hlast _ => ?_⟩
      cases n with
      | zero =>
        have hsingle : recentExchangeTurns r.projection.turns 1 = latestExchange src := by
          rw [recentExchangeTurns_window one_pos]
          exact (Windows.window_more hn).trans hr.latest
        simp only [trimExchanges,measure,Nat.zero_add,hsingle]
      | succ n => exact h.2 hlast n.succ_pos
    · exact ⟨hsound,fun hlast => absurd hlast hexceeds⟩

theorem sound_trimHistory {r : Rung F} (hr : r.Sound count src) :
    (trimHistory count src r).Sound count src := by
  rw [trimHistory]
  split_ifs with h
  · have howners := of_decide_eq_true (Bool.and_elim_right h)
    exact (trimExchanges_spec _ r hr (by omega)).1
  · exact hr

theorem exceeds_trimHistory {r : Rung F} (hr : r.Sound count src)
    (h : (trimHistory count src r).exceeds src = true) :
    r.exceeds src = true ∧ (1 < r.projection.turns.countP Turn.isOwner →
      (trimHistory count src r).projection = {r.projection with
        turns := latestExchange src, compactIds := compactableIds (latestExchange src)}) := by
  by_cases hr' : r.exceeds src = true
  · refine ⟨hr',fun howners => ?_⟩
    have htrim : trimHistory count src r =
        trimExchanges count src (r.projection.turns.countP Turn.isOwner - 1) r := by
      simp [trimHistory,hr',howners]
    rw [htrim] at h ⊢
    exact (trimExchanges_spec _ r hr (by omega)).2 h (by omega)
  · have htrim : trimHistory count src r = r := by simp [trimHistory,hr']
    exact absurd (htrim ▸ h) hr'

theorem trimHistory_few {r : Rung F} (h : r.projection.turns.countP Turn.isOwner ≤ 1) :
    trimHistory count src r = r := by
  have hfew : ¬ 1 < r.projection.turns.countP Turn.isOwner := by omega
  simp [trimHistory,hfew]

variable (count src)

/-- The least that may be shown of a chat. -/
def minimalProjection : Projection F :=
  ⟨latestExchange src,compactableIds (latestExchange src),false,false⟩

/-- The projections that are measured while no exchange is left out. -/
def untrimmedProjections : List (Projection F) :=
  let turns := src.activeTurns
  let continuity := given src.continuityContext
  let summary := given src.contextSummary
  let all := compactableIds turns
  [⟨turns,∅,continuity,summary⟩,
    ⟨turns,olderCompactable src.settings.rawToolExchanges turns,continuity,summary⟩,
    ⟨turns,all,continuity,summary⟩,⟨turns,all,false,summary⟩,⟨turns,all,false,false⟩]

/-- Whether turns stand before the only owner turn. -/
def OpensMidExchange : Prop :=
  src.activeTurns.countP Turn.isOwner = 1 ∧ latestExchange src ≠ src.activeTurns

variable {count src}

theorem exchangeLimit_pos (s : ContextSettings) : 0 < s.exchangeLimit := by
  rw [ContextSettings.exchangeLimit]
  omega

/-- The projection that the ladder starts from. -/
def verbatimProjection (src : ContextSource F) : Projection F :=
  ⟨recentExchangeTurns src.activeTurns src.settings.exchangeLimit,∅,given src.continuityContext,
    given src.contextSummary⟩

omit [ConversationRuntime F] in
theorem omitted_continuity (p : Projection F) (h : p.continuity = false) :
    {p with continuity := false} = p := by
  rw [← h]

omit [ConversationRuntime F] in
theorem omitted_summary (p : Projection F) (h : p.summary = false) :
    {p with summary := false} = p := by
  rw [← h]

omit [ConversationRuntime F] in
theorem selected_window (src : ContextSource F) :
    recentExchangeTurns src.activeTurns src.settings.exchangeLimit =
      Windows.window Turn.isOwner src.settings.exchangeLimit src.activeTurns :=
  recentExchangeTurns_window (exchangeLimit_pos src.settings) src.activeTurns

omit [ConversationRuntime F] in
theorem sound_selected : Windows.ending Turn.isOwner 1 (verbatimProjection src).turns =
    latestExchange src := by
  rw [verbatimProjection,selected_window]
  exact Windows.ending_window src.activeTurns one_pos (exchangeLimit_pos src.settings)

theorem reached_verbatim : (verbatimRung count src).Reached count src
    (Over count src (verbatimProjection src)) (verbatimProjection src) :=
  ⟨sound_measure sound_selected .verbatim,exceeds_measure _ _,fun _ => rfl⟩

/-- Before the history is trimmed the budget is exceeded if four projections exceed it. -/
theorem reached_untrimmed :
    let p := verbatimProjection src
    let all := {p with compactIds := compactableIds p.turns}
    (omitContinuity count src (compactAll count src (compactOlder count src
      (verbatimRung count src)))).Reached count src
      (((Over count src p ∧ Over count src
        {p with compactIds := olderCompactable src.settings.rawToolExchanges p.turns}) ∧
        Over count src all) ∧ Over count src {all with continuity := false})
      {all with continuity := false} := by
  intro p all
  have hverbatim : (verbatimRung count src).Reached count src
      (Over count src (verbatimProjection src)) (verbatimProjection src) := reached_verbatim
  have holder := hverbatim.reduceTo
    (fun q => {q with compactIds := olderCompactable src.settings.rawToolExchanges q.turns})
    (fun _ => true) .olderToolsCompacted (by simp) (fun _ => rfl)
  have hall := holder.reduceTo (fun q => {q with compactIds := compactableIds q.turns})
    (fun _ => true) .successfulToolsCompacted (by simp) (fun _ => rfl)
  exact hall.reduceTo (fun q => {q with continuity := false}) Projection.continuity
    .continuityOmitted omitted_continuity (fun _ => rfl)

theorem sound_lastRung : (lastRung count src).Sound count src := by
  have h := sound_trimHistory (@reached_untrimmed _ _ count src).sound
  rw [lastRung,omitCapsule,reduceTo]
  split_ifs
  · refine sound_measure ?_ .capsuleOmitted
    exact h.latest
  · exact h

/-- With one owner turn at most nothing is trimmed, and the budget is exceeded if five projections
exceed it. -/
theorem reached_few (hfew : (verbatimProjection src).turns.countP Turn.isOwner ≤ 1) :
    let p := verbatimProjection src
    let all := {p with compactIds := compactableIds p.turns}
    (lastRung count src).Reached count src
      ((((Over count src p ∧ Over count src
        {p with compactIds := olderCompactable src.settings.rawToolExchanges p.turns}) ∧
        Over count src all) ∧ Over count src {all with continuity := false}) ∧
        Over count src {all with continuity := false, summary := false})
      {all with continuity := false, summary := false} := by
  intro p all
  have hreached := @reached_untrimmed _ _ count src
  have hsame : ∀ r : Rung F, (r.exceeds src = true →
      r.projection.turns.countP Turn.isOwner ≤ 1) → trimHistory count src r = r := by
    intro r hr
    by_cases hr' : r.exceeds src = true
    · exact trimHistory_few (hr hr')
    · simp [trimHistory,hr']
  rw [lastRung,hsame _ fun hr => by rw [hreached.shows hr]; exact hfew]
  exact hreached.reduceTo (fun q => {q with summary := false}) Projection.summary
    .capsuleOmitted omitted_summary (fun _ => rfl)

/-- With more of them the budget is exceeded only if the latest exchange alone exceeds it. -/
theorem exceeds_many (hmany : 1 < (verbatimProjection src).turns.countP Turn.isOwner)
    (h : (lastRung count src).exceeds src = true) : Over count src (minimalProjection src) := by
  have hreached := @reached_untrimmed _ _ count src
  have hsound := sound_trimHistory hreached.sound
  have hlast := (Rung.Reached.reduceTo ⟨hsound,Iff.rfl,fun _ => rfl⟩
    (fun q => {q with summary := false}) Projection.summary .capsuleOmitted omitted_summary
    (fun _ => rfl)).exceeds.mp h
  obtain ⟨huntrimmed,htrimmed⟩ := exceeds_trimHistory hreached.sound hlast.1
  have hshows := hreached.shows huntrimmed
  have hminimal := hlast.2
  rw [htrimmed (by rw [hshows]; exact hmany),hshows] at hminimal
  exact hminimal

omit [ConversationRuntime F] in
/-- A selection with one owner turn at most is the latest exchange, or opens within it. -/
theorem selected_few (h : ¬ OpensMidExchange src)
    (hfew : (recentExchangeTurns src.activeTurns src.settings.exchangeLimit).countP
      Turn.isOwner ≤ 1) :
    recentExchangeTurns src.activeTurns src.settings.exchangeLimit = latestExchange src := by
  rw [selected_window] at hfew ⊢
  rw [Windows.countP_window (exchangeLimit_pos src.settings)] at hfew
  have hlimit := exchangeLimit_pos src.settings
  rcases Nat.lt_trichotomy (src.activeTurns.countP Turn.isOwner) 1 with hnone | hone | hmore
  · rw [Windows.window_all (by omega),latestExchange,Windows.ending_none 1 (by omega)]
  · rw [Windows.window_all (by omega)]
    by_contra hne
    exact h ⟨hone,fun heq => hne heq.symm⟩
  · have hsingle : src.settings.exchangeLimit = 1 := by omega
    rw [hsingle,Windows.window_more hmore]
    rfl

/-- The budget is exceeded by the least projection too, unless turns stand before the only owner
turn. -/
theorem exceeds_minimal (h : ¬ OpensMidExchange src)
    (hexceeds : (lastRung count src).exceeds src = true) :
    Over count src (minimalProjection src) := by
  by_cases hfew : (verbatimProjection src).turns.countP Turn.isOwner ≤ 1
  · have hminimal := ((reached_few hfew).exceeds.mp hexceeds).2
    rw [verbatimProjection,selected_few h hfew] at hminimal
    exact hminimal
  · exact exceeds_many (Nat.lt_of_not_le hfew) hexceeds

/-- With turns before the only owner turn the ladder measures five projections of all turns. -/
theorem exceeds_untrimmed (h : OpensMidExchange src) :
    (lastRung count src).exceeds src = true ↔
      ∀ p ∈ untrimmedProjections src, Over count src p := by
  have hlimit := exchangeLimit_pos src.settings
  have hselected : recentExchangeTurns src.activeTurns src.settings.exchangeLimit =
      src.activeTurns := by
    rw [selected_window]
    exact Windows.window_all (by rw [h.1]; omega)
  have hfew : (verbatimProjection src).turns.countP Turn.isOwner ≤ 1 := by
    rw [verbatimProjection,hselected,h.1]
  have hexceeds := (@reached_few _ _ count src hfew).exceeds
  simp only [verbatimProjection,hselected] at hexceeds
  rw [hexceeds]
  simp [untrimmedProjections,and_assoc]

/-- The messages of the latest exchange are the last ones of every rung. -/
theorem sound_latest {r : Rung F} (h : r.Sound count src) :
    latestExchange src <:+ r.projection.turns ∧
    ∃ before, projected src r.projection = before ++
      (latestExchange src).flatMap (turnMessages src.surroundings r.projection.compactIds) := by
  have hsuffix : latestExchange src <:+ r.projection.turns := by
    rw [← h.latest]
    exact Windows.ending_suffix 1 r.projection.turns
  refine ⟨hsuffix,?_⟩
  obtain ⟨earlier,hearlier⟩ := hsuffix
  rw [projected,turnsToProviderMessages,← hearlier,List.flatMap_append]
  simp only [← List.append_assoc]
  exact ⟨_,rfl⟩

variable (count src)

/-- The working context is what it counts, ends with the latest exchange, and exceeds the budget
only where the least projection does; exactly when, where turns stand before the only owner turn,
a projection with them fits or the least one does not. -/
theorem working_context_ladder :
    ((∃ p before, (assembleWorkingContext count src).1 = projected src p ∧
        (assembleWorkingContext count src).2.inputTokens = count (projected src p) ∧
        latestExchange src <:+ p.turns ∧
        projected src p = before ++
          (latestExchange src).flatMap (turnMessages src.surroundings p.compactIds)) ∧
      ((assembleWorkingContext count src).2.budgetExceeded = true →
        Over count src (minimalProjection src))) ↔
    (OpensMidExchange src → (∃ p ∈ untrimmedProjections src, ¬ Over count src p) ∨
      Over count src (minimalProjection src)) := by
  have hsound := @sound_lastRung _ _ count src
  obtain ⟨hsuffix,before,hlatest⟩ := sound_latest hsound
  unfold assembleWorkingContext
  dsimp only
  have hshown : ∃ p before, (lastRung count src).messages = projected src p ∧
      (lastRung count src).inputTokens = count (projected src p) ∧
      latestExchange src <:+ p.turns ∧ projected src p = before ++
        (latestExchange src).flatMap (turnMessages src.surroundings p.compactIds) :=
    ⟨_,before,hsound.measured,hsound.counted,hsuffix,hlatest⟩
  rw [and_iff_right hshown]
  by_cases hopens : OpensMidExchange src
  · rw [exceeds_untrimmed hopens]
    constructor
    · intro h _
      by_cases hall : ∀ p ∈ untrimmedProjections src, Over count src p
      · exact .inr (h hall)
      · push Not at hall
        exact .inl hall
    · intro h hall
      rcases h hopens with ⟨p,hp,hfits⟩ | hminimal
      · exact absurd (hall p hp) hfits
      · exact hminimal
  · exact ⟨fun _ h => absurd h hopens,fun _ => exceeds_minimal hopens⟩

end

end

/-- A chat that Atlas opens. -/
def openedByAtlas : ContextSource Unit where
  settings := {}
  turns := [⟨1,.atlas,[.text "The backup has finished."],0⟩,⟨2,.owner,[.text "Thanks"],1⟩]

/-- What stands before the only owner turn is kept when the owner turn would fit without it. -/
theorem opening_kept : letI := plainConversation
    (assembleWorkingContext (fun messages => 40000 * messages.length)
      openedByAtlas).2.budgetExceeded = true ∧
    ¬ Over (fun messages => 40000 * messages.length) openedByAtlas
      (minimalProjection openedByAtlas) := by
  let := plainConversation
  exact ⟨by decide +kernel,Nat.not_lt.mpr (by decide +kernel)⟩

end Conversation
end Atlas
