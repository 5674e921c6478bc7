import Atlas.Lib.Crowd
import Atlas.Memory.Chats

/-! The transcripts under READ COMMITTED: a statement sees what is committed and what its own
transaction has written, a write waits for the lock of a row, the advisory lock is held until the
end of the transaction, and the open owner chats have a unique index. -/
namespace Atlas
namespace Transcripts

open Memory

abbrev Rows := ℕ → Option TranscriptRow

def isOwner (row : TranscriptRow) : Bool := row.kind == "owner"

/-- The condition of the unique index. -/
def isOpen (row : TranscriptRow) : Bool := isOwner row && row.closedAt.isNone

namespace Rows

/-- The first of the rows with the property in a descending order, ties going to the larger id. -/
def newest (after : TranscriptRow → TranscriptRow → Bool) (p : TranscriptRow → Bool)
    (rows : Rows) : ℕ → Option (ℕ × TranscriptRow)
  | 0 => none
  | n + 1 =>
      match (rows n).filter p,newest after p rows n with
      | none,best => best
      | some row,none => some (n,row)
      | some row,some best => if after best.2 row then some best else some (n,row)

/-- The ids of the open owner chats. -/
def openIds (rows : Rows) (n : ℕ) : List ℕ :=
  (List.range n).filter fun id => (rows id).any isOpen

end Rows

/-- What an open transaction has written: rows, and the chats whose content it has erased. -/
structure Pending where
  started : Time := 0
  writes : Rows := fun _ => none
  erased : List (ℕ × Time) := []

/-- The committed rows, the locks and the open transactions. The history is the number of open
owner chats that each operation left in its transaction, and how often something was committed. -/
structure Database where
  clock : Time := 0
  rows : Rows := fun _ => none
  content : Tables := {}
  issued : ℕ := 0
  advisory : Option ℕ := none
  locked : ℕ → Option ℕ := fun _ => none
  pending : ℕ → Pending := fun _ => {}
  returns : List ℕ := []
  commits : ℕ := 0

inductive Statement where
  | now
  | advisoryLock
  | findActive
  | closeOthers (kept : Option ℕ)
  | insert (row : TranscriptRow)
  | selectForUpdate (id : ℕ)
  | tombstone (id : ℕ) (now : Time)
  | eraseContent (id : ℕ) (now : Time)
  | newestForUpdate
  | reopen (id : ℕ)
  | returned
  | commit

/-- The answer to a statement; writes that the unique index covers say whether it refused them. -/
@[reducible] def Statement.Answer : Statement → Type
  | .now => Time
  | .advisoryLock => Unit
  | .findActive => Option (ℕ × TranscriptRow)
  | .closeOthers _ => Unit
  | .insert _ => Option (ℕ × TranscriptRow)
  | .selectForUpdate _ => Option TranscriptRow
  | .tombstone _ _ => Unit
  | .eraseContent _ _ => Unit
  | .newestForUpdate => Option (ℕ × TranscriptRow)
  | .reopen _ => Option TranscriptRow
  | .returned => Unit
  | .commit => Unit

/-- What `delete_owner_chat` writes to the row. -/
def tombstoned (now : Time) (t : TranscriptRow) : TranscriptRow :=
  {t with
    kind := "owner_deleted"
    title := none
    closedAt := some now
    updatedAt := now
    contextSummary := none
    summarizedThroughTurnId := none
    activeTaskState := []
    activeTaskRevision := t.activeTaskRevision + 1
    contentRevision := t.contentRevision + 1}

/-- The order of `get_or_create_active`. -/
def createdAfter (a b : TranscriptRow) : Bool := b.createdAt < a.createdAt

/-- The order in which `delete_owner_chat` looks for a replacement. -/
def updatedAfter (a b : TranscriptRow) : Bool :=
  b.updatedAt < a.updatedAt || (a.updatedAt == b.updatedAt && createdAfter a b)

namespace Database

/-- What a transaction sees. -/
def view (d : Database) (i : ℕ) : Rows := fun id => ((d.pending i).writes id).or (d.rows id)

/-- Another transaction has the lock of the row. -/
def held (d : Database) (i id : ℕ) : Bool := (d.locked id).any (· != i)

/-- Another transaction has not decided yet whether a row is an open owner chat. -/
def contested (d : Database) (i : ℕ) : Bool :=
  (List.range d.issued).any fun id =>
    match d.locked id with
    | none => false
    | some j => j != i && ((d.rows id).any isOpen || ((d.pending j).writes id).any isOpen)

def note (d : Database) (i : ℕ) (p : Pending) : Database :=
  {d with pending := Function.update d.pending i p}

def lockRow (d : Database) (i id : ℕ) : Database :=
  {d with locked := Function.update d.locked id (some i)}

def write (d : Database) (i id : ℕ) (row : TranscriptRow) : Database :=
  let p := d.pending i
  (d.note i {p with writes := Function.update p.writes id (some row)}).lockRow i id

/-- The rows that an update closes. -/
def closes (d : Database) (i : ℕ) (kept : Option ℕ) (id : ℕ) : Bool :=
  (d.view i id).any isOpen && kept != some id

def closedRow (d : Database) (i : ℕ) (kept : Option ℕ) (id : ℕ) : Option TranscriptRow :=
  if d.closes i kept id then
    (d.view i id).map fun t => {t with closedAt := some (d.pending i).started}
  else (d.pending i).writes id

def closeOthers (d : Database) (i : ℕ) (kept : Option ℕ) : Database :=
  {d.note i {d.pending i with writes := d.closedRow i kept} with
    locked := fun id => if d.closes i kept id then some i else d.locked id}

/-- The locks of a transaction go with it. -/
def release (d : Database) (i : ℕ) : Database :=
  {d with
    advisory := if d.advisory = some i then none else d.advisory
    locked := fun id => if d.locked id = some i then none else d.locked id}

/-- A transaction begins, or is rolled back. -/
def clear (d : Database) (i : ℕ) : Database := (d.note i {started := d.clock}).release i

def commit (d : Database) (i : ℕ) : Database :=
  {d.clear i with
    rows := d.view i
    content := (d.pending i).erased.foldl (fun s e => s.eraseChat e.1 e.2) d.content
    commits := d.commits + 1}

inductive Occasion where
  | tick (clock : Time)

def stir (d : Database) : Occasion → Database
  | .tick clock => {d with clock := max d.clock clock}

def answer (d : Database) (i : ℕ) : (q : Statement) → Option (q.Answer × Database)
  | .now => some (d.clock,d)
  | .advisoryLock =>
      match d.advisory with
      | some j => if j = i then some ((),d) else none
      | none => some ((),{d with advisory := some i})
  | .findActive => some ((d.view i).newest createdAfter isOpen d.issued,d)
  | .closeOthers kept =>
      if (List.range d.issued).any (fun id => d.closes i kept id && d.held i id) then none
      else some ((),d.closeOthers i kept)
  | .insert row =>
      let row := {row with createdAt := (d.pending i).started, updatedAt := (d.pending i).started}
      if isOpen row && d.contested i then none
      else if isOpen row && !((d.view i).openIds d.issued).isEmpty then some (none,d)
      else some (some (d.issued,row),{d.write i d.issued row with issued := d.issued + 1})
  | .selectForUpdate id =>
      if d.held i id then none
      else
        match (d.view i id).filter isOwner with
        | none => some (none,d)
        | some row => some (some row,d.lockRow i id)
  | .tombstone id now =>
      if d.held i id then none
      else
        match d.view i id with
        | none => some ((),d)
        | some row => some ((),d.write i id (tombstoned now row))
  | .eraseContent id now =>
      let p := d.pending i
      some ((),d.note i {p with erased := p.erased ++ [(id,now)]})
  | .newestForUpdate =>
      match (d.view i).newest updatedAfter isOwner d.issued with
      | none => some (none,d)
      | some found =>
          if d.held i found.1 then none else some (some found,d.lockRow i found.1)
  | .reopen id =>
      if d.held i id then none
      else
        match d.view i id with
        | none => some (none,d)
        | some row =>
            let row := {row with closedAt := none}
            if isOpen row && d.contested i then none
            else if isOpen row && ((d.view i).openIds d.issued).any (· != id) then some (none,d)
            else some (some row,d.write i id row)
  | .returned => some ((),{d with
      returns := d.returns ++ [((d.view i).openIds d.issued).length]})
  | .commit => some ((),d.commit i)

end Database

def shared : Dialogue.Shared Database Database.Occasion Statement Statement.Answer where
  stir := Database.stir
  enter := Database.clear
  answer := Database.answer
  leave := Database.clear

end Transcripts
end Atlas
