import Atlas.Memory.Rows

/-! The rows of the run and action store. A row is identified by its position in its table;
instants count microseconds. -/
namespace Atlas

/-- `bool(value)`. -/
def Json.truthy : Json → Bool
  | .null => false
  | .bool b => b
  | .num n => n != 0
  | .str s => !s.isEmpty
  | .arr items => !items.isEmpty
  | .obj fields => !fields.isEmpty

/-- The value stored under a key, if the value at hand is an object. -/
def Json.field : Json → String → Option Json
  | .obj fields,key => Dict.get fields key
  | _,_ => none

/-- `{**d, key: value}`. -/
def Dict.put : Dict → String → Json → Dict
  | [], key, value => [(key,value)]
  | (k,v) :: d, key, value => if k = key then (k,value) :: d else (k,v) :: Dict.put d key value

@[simp] theorem Dict.get_put (d : Dict) (key : String) (value : Json) :
    Dict.get (Dict.put d key value) key = some value := by
  induction d with
  | nil => simp [Dict.put,Dict.get]
  | cons p d ih =>
    by_cases h : p.1 = key
    · simp [Dict.put,Dict.get,h]
    · simpa [Dict.put,Dict.get,h] using ih

theorem Dict.get_put_of_ne (d : Dict) {key k : String} (value : Json) (h : key ≠ k) :
    Dict.get (Dict.put d key value) k = Dict.get d k := by
  induction d with
  | nil => simp [Dict.put,Dict.get,h]
  | cons p d ih =>
    by_cases hp : p.1 = key
    · simp [Dict.put,Dict.get,hp,h]
    · by_cases hk : p.1 = k
      · simp [Dict.put,Dict.get,hk,Ne.symm h]
      · simpa [Dict.put,Dict.get,hp,hk] using ih

/-- Whether a key of a dict holds a true value. -/
def Dict.holds (d : Dict) (key : String) : Bool := (Dict.get d key).any Json.truthy

@[simp] theorem Dict.holds_put_of_ne (d : Dict) {key k : String} (value : Json) (h : key ≠ k) :
    Dict.holds (Dict.put d key value) k = Dict.holds d k := by
  rw [Dict.holds,Dict.get_put_of_ne d value h,Dict.holds]

/-- The text stored under a key. -/
def Dict.text (d : Dict) (key : String) : Option String :=
  match Dict.get d key with
  | some (.str s) => some s
  | _ => none

namespace Actions

open Memory (TranscriptRow)

/-- A point in time, in microseconds. -/
abbrev Instant := ℕ

def seconds (n : ℕ) : ℕ := n * 1000000

def hours (n : ℕ) : ℕ := seconds (n * 3600)

/-- What `datetime.fromisoformat` reads: with a time zone or without. -/
inductive Moment where
  | aware (t : Instant)
  | naive (t : Instant)
  deriving Repr, DecidableEq

/-- The moment, taken as UTC where it names no zone. -/
def Moment.utc : Moment → Instant
  | .aware t => t
  | .naive t => t

/-- The runtime functions that the action store uses besides those of `PyRuntime`. -/
class ActionRuntime extends PyRuntime where
  fromisoformat : String → Option Moment
  str : Json → String
  str_text : ∀ s, str (.str s) = s
  fromisoformat_isoformat : ∀ t, fromisoformat (isoformat t) = some (.aware t)
  /-- `UUID(text)`; the text of an identity is its number. -/
  uuid : String → Option ℕ
  uuid_text : ∀ n, uuid (toString n) = some n

/-- A runtime to evaluate the model with; its texts of instants are their numbers. -/
@[reducible] def plainActions : ActionRuntime where
  toPyRuntime := plainRuntime
  fromisoformat s := some (.aware (Nat.ofDigitChars 10 s.toList 0))
  str value := value.plainText
  str_text _ := rfl
  fromisoformat_isoformat t := by
    have h : (toString t).toList = Nat.toDigits 10 t := Nat.toList_repr
    show some (Moment.aware (Nat.ofDigitChars 10 (toString t).toList 0)) = _
    rw [h,Nat.ofDigitChars_toDigits (by decide) (by decide)]
  uuid s := if s.isEmpty then none else some (Nat.ofDigitChars 10 s.toList 0)
  uuid_text n := by
    have h : (toString n).toList = Nat.toDigits 10 n := Nat.toList_repr
    have hne : (toString n).isEmpty = false := by
      rw [String.isEmpty_eq_false_iff,← String.toList_inj.ne,h]
      exact Nat.toDigits_ne_nil
    rw [hne,h,Nat.ofDigitChars_toDigits (by decide) (by decide)]
    rfl

inductive RunKind where
  | foreground
  | scheduled
  | background
  deriving Repr, DecidableEq

inductive RunStatus where
  | queued
  | interrupted
  | running
  | succeeded
  | failed
  | cancelled
  | waitingForOwner
  | uncertain
  deriving Repr, DecidableEq

/-- The values of `inference_status`. -/
inductive InferenceStatus where
  | queued
  | running
  | succeeded
  | failed
  | interrupted
  deriving Repr, DecidableEq

inductive ActionStatus where
  | prepared
  | executing
  | succeeded
  | failed
  | cancelled
  | uncertain
  deriving Repr, DecidableEq

inductive AttentionState where
  | approvalRequired
  | uncertain
  | interrupted
  | stagedChange
  | managedTaskStalled
  deriving Repr, DecidableEq

structure RunRow where
  kind : RunKind
  status : RunStatus
  transcriptId : Option ℕ := none
  workspaceId : Option ℕ := none
  intent : Option String := none
  finishedAt : Option Instant := none
  inferenceActive : Bool := false
  inferenceStatus : InferenceStatus := .running
  heartbeatAt : Option Instant := none
  scheduleId : Option ℕ := none
  scheduledFor : Option Instant := none
  triggerSnapshot : Dict := []

structure ActionRow where
  runId : ℕ
  operation : String
  targetHash : String
  status : ActionStatus
  idempotencyKey : Option String := none
  evidence : Dict := []
  executionStartedAt : Option Instant := none

structure OwnerAttentionRow where
  runId : Option ℕ
  actionId : Option ℕ := none
  state : AttentionState
  title : String
  detail : Dict := []
  resolved : Bool := false
  resolvedAt : Option Instant := none

/-- A schedule; the row of a deleted one stays behind, marked. -/
structure ScheduledTaskRow where
  title : String
  prompt : String
  scheduleKind : String
  scheduleValue : String
  timezone : String
  enabled : Bool := true
  nextRunAt : Instant
  lastRunAt : Option Instant := none
  lastStatus : Option RunStatus := none
  lastResult : Option String := none
  createdAt : Instant := 0
  deleted : Bool := false

/-- The tables that runs, their actions and the owner's decisions are kept in. -/
structure Ledger where
  transcripts : List TranscriptRow := []
  runs : List RunRow := []
  actions : List ActionRow := []
  attention : List OwnerAttentionRow := []
  schedules : List ScheduledTaskRow := []

namespace Ledger

def setRun (s : Ledger) (id : ℕ) (f : RunRow → RunRow) : Ledger :=
  {s with runs := s.runs.modify id f}

def setAction (s : Ledger) (id : ℕ) (f : ActionRow → ActionRow) : Ledger :=
  {s with actions := s.actions.modify id f}

def setAttention (s : Ledger) (id : ℕ) (f : OwnerAttentionRow → OwnerAttentionRow) : Ledger :=
  {s with attention := s.attention.modify id f}

def setSchedule (s : Ledger) (id : ℕ) (f : ScheduledTaskRow → ScheduledTaskRow) : Ledger :=
  {s with schedules := s.schedules.modify id f}

def addRun (s : Ledger) (row : RunRow) : Ledger := {s with runs := s.runs ++ [row]}

def addAction (s : Ledger) (row : ActionRow) : Ledger := {s with actions := s.actions ++ [row]}

def addAttention (s : Ledger) (row : OwnerAttentionRow) : Ledger :=
  {s with attention := s.attention ++ [row]}

/-- The statuses of the actions of a run. -/
def statuses (s : Ledger) (runId : ℕ) : List ActionStatus :=
  (s.actions.filter fun a => a.runId == runId).map (·.status)

end Ledger

/-- The ways a request is refused; the transaction is rolled back. -/
inductive RefusalKind where
  | proposalIntegrity
  | foregroundBusy
  | runInterrupted
  | lookupError
  | valueError
  | multipleResults
  | integrityError
  | overflowError
  deriving Repr, DecidableEq

structure Refusal where
  kind : RefusalKind
  message : String
  deriving Repr, DecidableEq

def proposalIntegrityError (message : String) : Refusal := ⟨.proposalIntegrity,message⟩

/-- A condition without which a request is refused. -/
def require (p : Prop) [Decidable p] (refusal : Refusal) : Except Refusal Unit :=
  if p then .ok () else .error refusal

theorem require_ok {p : Prop} [Decidable p] {refusal : Refusal} {u : Unit}
    (h : require p refusal = .ok u) : p := by
  by_contra hp
  simp [require,hp] at h

/-- The parts of an accepted request. -/
theorem accepted {α β : Type} {x : Except Refusal α} {f : α → Except Refusal β} {b : β}
    (h : x >>= f = .ok b) : ∃ a, x = .ok a ∧ f a = .ok b := by
  cases x with
  | error e => cases h
  | ok a => exact ⟨a,rfl,h⟩

theorem map_accepted {α β : Type} {x : Except Refusal α} {f : α → β} {b : β}
    (h : x.map f = .ok b) : ∃ a, x = .ok a ∧ f a = b := by
  cases x with
  | error e => cases h
  | ok a => exact ⟨a,rfl,Except.ok.inj h⟩

/-- `scalar_one_or_none()`. -/
def scalarOneOrNone : List ℕ → Except Refusal (Option ℕ)
  | [] => .ok none
  | [id] => .ok (some id)
  | _ => .error ⟨.multipleResults,"Multiple rows were found when one or none was required"⟩

theorem scalarOneOrNone_none {l : List ℕ} (h : scalarOneOrNone l = .ok none) : l = [] := by
  rcases l with _ | ⟨x,_ | ⟨y,l⟩⟩
  · rfl
  · simp [scalarOneOrNone] at h
  · simp [scalarOneOrNone] at h

theorem scalarOneOrNone_some {l : List ℕ} {id : ℕ} (h : scalarOneOrNone l = .ok (some id)) :
    l = [id] := by
  rcases l with _ | ⟨x,_ | ⟨y,l⟩⟩
  · simp [scalarOneOrNone] at h
  · simpa [scalarOneOrNone] using h
  · simp [scalarOneOrNone] at h

end Actions
end Atlas
