import Atlas.Notifications.Rows
import Atlas.Actions.Attention

/-! The hook that mirrors the attention rows of the owner into the awareness ledger when they are
flushed. Updates in bulk do not pass through it. -/
namespace Atlas
namespace Notifications

open Actions RowTable

/-- The thread of an attention row. -/
inductive ThreadKey where
  | action (id : ℕ)
  | attention (id : ℕ)
  | run (runId : Option ℕ) (state : AttentionState)
  deriving Repr, DecidableEq

def stateText : AttentionState → String
  | .approvalRequired => "approval_required"
  | .uncertain => "uncertain"
  | .interrupted => "interrupted"
  | .stagedChange => "staged_change"
  | .managedTaskStalled => "managed_task_stalled"

def ThreadKey.text : ThreadKey → String
  | .action id => "action:" ++ toString id
  | .attention id => "attention:" ++ toString id
  | .run runId state => "run:" ++ (runId.elim "None" toString ++ ":" ++ stateText state)

/-- `attention_thread_key`. -/
def attentionThreadKey (id : ℕ) (row : OwnerAttentionRow) : ThreadKey :=
  match row.actionId with
  | some actionId => .action actionId
  | none => if row.state = .stagedChange then .attention id else .run row.runId row.state

/-- `_STATES`. -/
def mirroredState : AttentionState → Option (Severity × String)
  | .approvalRequired => some (.actionRequired,"approval_required")
  | .uncertain => some (.warning,"uncertain_action")
  | .interrupted => some (.warning,"interrupted")
  | .stagedChange => some (.info,"staged_change")
  | .managedTaskStalled => none

def detailKeys : List String :=
  ["operation","expires_at","message","download_url","path","external_id","execution_started_at"]

section

variable [ActionRuntime]

/-- `attention_event`. -/
def attentionEvent (id : ℕ) (row : OwnerAttentionRow) : Option NotificationEvent :=
  (mirroredState row.state).map fun (severity,kind) =>
    let body := match (Dict.get row.detail "message").filter Json.truthy with
      | some message => ActionRuntime.str message
      | none => ""
    { source := "authority"
      kind := kind
      severity := severity
      title := row.title
      body := if row.state = .approvalRequired ∧ body = "" then
          "Waiting for your decision in Needs You." else body
      detail := (detailKeys.filterMap fun key => (Dict.get row.detail key).map (key,·)) ++
        [("attention_id",.str (toString id)),("open_url",.str "/")]
      threadKey := some (attentionThreadKey id row).text
      runId := row.runId }

/-- What the hook does about one attention row. -/
inductive HookAct where
  | announce (event : NotificationEvent) (key : String)
  | close (key : String)

/-- `mirror_attention`. -/
def mirrorAttention (id : ℕ) (row : OwnerAttentionRow) : Option HookAct :=
  if row.resolved then none
  else (attentionEvent id row).map fun event =>
    .announce event (attentionThreadKey id row).text

/-- Whether an attribute has changed that is announced. -/
def restated (before row : OwnerAttentionRow) : Bool :=
  before.state != row.state || before.title != row.title ||
    !Runtime.sameFields before.detail row.detail

/-- What the hook does about a row of the session, given the row in the database. -/
def hookAct (before : List OwnerAttentionRow) (entry : OwnerAttentionRow × ℕ) : Option HookAct :=
  match before[entry.2]? with
  | none => mirrorAttention entry.2 entry.1
  | some row =>
      if row.resolved != entry.1.resolved && entry.1.resolved then
        some (.close (attentionThreadKey entry.2 entry.1).text)
      else if restated row entry.1 then mirrorAttention entry.2 entry.1
      else none

/-- The new rows first, then the changed ones. -/
def hookActs (before after : List OwnerAttentionRow) : List HookAct :=
  (after.zipIdx.drop before.length).filterMap (hookAct before) ++
    (after.zipIdx.take before.length).filterMap (hookAct before)

/-- The rows that a lookup without flush finds open on a thread. -/
def openThread (stored : List NotificationRow) (key : String) : List ℕ :=
  ids (·.isOpen key) stored

def closeThread (stored rows : List NotificationRow) (key : String)
    (close : NotificationRow → NotificationRow) : List NotificationRow :=
  rows.mapIdx fun i row => if (openThread stored key).contains i then close row else row

/-- One act of the hook on the rows in memory, while the lookups see the stored ones. -/
def performAct (repeatMinutes : ℕ) (now : Instant) (stored rows : List NotificationRow) :
    HookAct → Except Refusal (List NotificationRow)
  | .close key => .ok (closeThread stored rows key (·.resolve now))
  | .announce event key => do
      event.check
      let openRows := (openThread stored key).filterMap (rows[·]?)
      match emission openRows (threadPushHistory stored key) event now repeatMinutes with
      | .written close row => return closeThread stored rows key close ++ [row]
      | _ => return rows

/-- `attention_flush_hook`. -/
def flushHook (repeatMinutes : ℕ) (now : Instant) (before after : List OwnerAttentionRow)
    (stored : List NotificationRow) : Except Refusal (List NotificationRow) :=
  (hookActs before after).foldlM (performAct repeatMinutes now stored) stored

end

/-- The operations that change attention rows by an update in bulk. -/
def inBulk : Op → Bool
  | .dismissInformationalNotices => true
  | .ownerMessage _ => true
  | .resolveStallAttention _ => true
  | _ => false

/-- The store of actions with the mirrored notifications. -/
structure Mirror where
  ledger : Ledger := {}
  notifications : List NotificationRow := []

namespace Mirror

variable [ActionRuntime]

/-- The transaction of an operation with its flush. -/
def apply (repeatMinutes : ℕ) (m : Mirror) (op : Op) (now : Instant) : Except Refusal Mirror := do
  let s ← m.ledger.apply op now
  if inBulk op then return {m with ledger := s}
  else
    let rows ← flushHook repeatMinutes now m.ledger.attention s.attention m.notifications
    return ⟨s,rows⟩

def step (repeatMinutes : ℕ) (m : Mirror) (e : Op × Instant) : Mirror :=
  match m.apply repeatMinutes e.1 e.2 with
  | .ok m' => m'
  | .error _ => m

/-- No update in bulk meets an unresolved notice that is mirrored. -/
def Individually (m : Mirror) (e : Op × Instant) : Prop :=
  match e.1 with
  | .dismissInformationalNotices => ∀ r ∈ m.ledger.attention, r.actionId = none →
      r.state = .interrupted ∨ r.state = .stagedChange → r.resolved = true
  | .ownerMessage transcriptId => ∀ r ∈ m.ledger.attention,
      m.ledger.ofTranscript transcriptId r = true → r.state = .interrupted → r.resolved = true
  | _ => True

end Mirror

end Notifications
end Atlas
