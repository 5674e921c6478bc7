import Atlas.Notifications.Rows
import Atlas.Lib.RowCounts
import Atlas.Lib.Trace

/-! Sessions that emit on the threads of the awareness ledger and resolve them. A session looks up
the open rows of a thread in one statement, which fixes what it can see and then waits for the
locks of these rows; it keeps what it writes to itself until it flushes, and other sessions see
it when the session commits. -/
namespace Atlas
namespace Notifications

open Actions RowTable
open Memory (strip)

/-- A row as a session has it and has not committed it. -/
structure Draft where
  session : ℕ
  row : NotificationRow
  flushed : Bool := false

/-- A row of the table: what is committed, what is not, and who holds its lock. -/
structure Slot where
  row : Option NotificationRow := none
  draft : Option Draft := none
  lock : Option ℕ := none

namespace Slot

/-- The row that a statement of a session sees. -/
def visible (session : ℕ) (slot : Slot) : Option NotificationRow :=
  match slot.draft with
  | some draft => if draft.session = session ∧ draft.flushed then some draft.row else slot.row
  | none => slot.row

/-- The row as a session holds it in memory. -/
def held (session : ℕ) (slot : Slot) : Option NotificationRow :=
  match slot.draft with
  | some draft => if draft.session = session then some draft.row else slot.row
  | none => slot.row

def free (session : ℕ) (slot : Slot) : Bool := slot.lock.all (· == session)

def take (session : ℕ) (slot : Slot) : Slot := {slot with lock := some session}

def write (session : ℕ) (change : NotificationRow → NotificationRow) (slot : Slot) : Slot :=
  {slot with
    draft := (slot.held session).map fun row => ⟨session,change row,false⟩
    lock := some session}

def flush (session : ℕ) (slot : Slot) : Slot :=
  {slot with draft := slot.draft.map fun draft =>
    if draft.session = session then {draft with flushed := true} else draft}

/-- What the end of a session's transaction leaves of a draft and a lock. -/
def release (session : ℕ) (slot : Slot) : Slot :=
  {slot with
    draft := slot.draft.filter (·.session != session)
    lock := slot.lock.filter (· != session)}

def commit (session : ℕ) (slot : Slot) : Slot :=
  {slot.release session with
    row := match slot.draft with
      | some draft => if draft.session = session then some draft.row else slot.row
      | none => slot.row}

/-- Whether the committed row is open on a thread. -/
def stored (key : String) (slot : Slot) : Bool := slot.row.any (·.isOpen key)

/-- Whether an uncommitted row is open on a thread. -/
def drafted (key : String) (slot : Slot) : Bool := slot.draft.any (·.row.isOpen key)

/-- Whether a session is about to close a row of a thread. -/
def closing (session : ℕ) (key : String) (slot : Slot) : Bool :=
  slot.draft.any fun draft => draft.session == session && !draft.row.isOpen key

end Slot

/-- A lookup of the open rows of a thread that waits for their locks. -/
structure Lookup where
  key : String
  ids : List ℕ

structure Board where
  slots : List Slot := []
  lookups : ℕ → Option Lookup := fun _ => none

inductive BoardStep where
  | look (session : ℕ) (key : String)
  | emit (session : ℕ) (event : NotificationEvent) (now : Instant) (repeatMinutes : ℕ)
  | resolveThread (session : ℕ) (now : Instant)
  | resolveRow (session id : ℕ) (now : Instant)
  | flush (session : ℕ)
  | commit (session : ℕ)
  | rollback (session : ℕ)

namespace Board

/-- The committed open rows of a thread. -/
def openIds (m : Board) (key : String) : List ℕ := ids (·.stored key) m.slots

def visibleAt (m : Board) (session : ℕ) (key : String) (id : ℕ) : Bool :=
  (m.slots[id]?).any fun slot => (slot.visible session).any (·.isOpen key)

/-- `_open_thread`: what a lookup has found once it has the locks. -/
def found (m : Board) (session : ℕ) (key : String) : List ℕ :=
  match m.lookups session with
  | none => []
  | some lookup =>
      if lookup.key = key then lookup.ids.filter (m.visibleAt session key) else []

/-- Whether a lookup has the locks of the rows that it saw. -/
def ready (m : Board) (session : ℕ) (key : String) : Bool :=
  (m.lookups session).any fun lookup => lookup.key == key &&
    lookup.ids.all fun id => (m.slots[id]?).all (·.free session)

def endLookup (m : Board) (session : ℕ) : Board :=
  {m with lookups := Function.update m.lookups session none}

/-- The rows after a session has changed some of them in its memory. -/
def change (m : Board) (session : ℕ) (ids : List ℕ) (f : Slot → Slot) : Board :=
  {m.endLookup session with
    slots := m.slots.mapIdx fun i slot => if ids.contains i then f slot else slot}

def add (m : Board) (session : ℕ) (row : NotificationRow) : Board :=
  {m with slots := m.slots ++ [{draft := some ⟨session,row,false⟩,lock := some session}]}

/-- The open rows and the push history that an event meets. -/
def thread (m : Board) (session : ℕ) (key : Option String) :
    List ℕ × List NotificationRow × (Bool × Option Instant) :=
  match key with
  | none => ([],[],(false,none))
  | some key =>
      let found := m.found session key
      (found,found.filterMap fun id => (m.slots[id]?).bind (·.held session),
        threadPushHistory (m.slots.filterMap (·.visible session)) key)

/-- `emit_sync`. -/
def emit (m : Board) (session : ℕ) (event : NotificationEvent) (now : Instant)
    (repeatMinutes : ℕ) : Board :=
  let (found,openRows,history) := m.thread session event.thread
  match emission openRows history event now repeatMinutes with
  | .nothing => m.change session found (·.take session)
  | .duplicate => m.change session found (·.take session)
  | .written close row => (m.change session found (·.write session close)).add session row

def act (m : Board) : BoardStep → Board
  | .look session key => {m with lookups := Function.update m.lookups session (some {
      key := key
      ids := (List.range m.slots.length).filter (m.visibleAt session key)})}
  | .emit session event now repeatMinutes =>
      if strip event.title = "" ∨ event.thread.any (fun key => !m.ready session key) then m
      else m.emit session event now repeatMinutes
  | .resolveThread session now =>
      match m.lookups session with
      | none => m
      | some lookup =>
          if m.ready session lookup.key = false then m
          else m.change session (m.found session lookup.key) (·.write session (·.resolve now))
  | .resolveRow session id now =>
      if (m.slots[id]?).all (·.free session) then
        m.change session [id] (·.write session (·.resolve now))
      else m
  | .flush session => {m with slots := m.slots.map (·.flush session)}
  | .commit session => {m.endLookup session with slots := m.slots.map (·.commit session)}
  | .rollback session => {m.endLookup session with slots := m.slots.map (·.release session)}

/-- An event that announces something finds every row that is open on its thread, committed or
not, except those that its own session has closed. -/
def Undisturbed (m : Board) : BoardStep → Prop
  | .emit session event _ _ => event.severity ≠ .resolved → ∀ key, event.threadKey = some key →
      ∀ (i : ℕ) (slot : Slot), m.slots[i]? = some slot →
        slot.stored key = true ∨ slot.drafted key = true →
        i ∈ (m.thread session event.thread).1 ∨ slot.closing session key = true
  | _ => True

/-- The states that any sessions reach, whatever steps they take in which order. -/
def Reachable (m : Board) : Prop := Trace.Reach act (fun _ _ => True) (· = {}) m

end Board

end Notifications
end Atlas
