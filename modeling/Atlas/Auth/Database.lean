import Atlas.Lib.Crowd
import Atlas.Python
import Atlas.Actions.Rows

/-! The tables of the passkey login under READ COMMITTED: a statement sees what is committed and
what its own transaction has written, a write waits for the lock of a row that another transaction
has written, and everything becomes visible at the commit. -/
namespace Atlas
namespace Auth

open Actions

inductive ChallengeKind where
  | register
  | login
  deriving Repr, DecidableEq

structure CredentialRow where
  credentialId : String
  publicKey : String
  signCount : ℕ
  userHandle : String
  transports : List String
  deviceType : Option String
  backedUp : Bool
  lastUsedAt : Option Instant := none
  deriving Repr, DecidableEq

structure ChallengeRow where
  kind : ChallengeKind
  challenge : String
  userHandle : Option String
  expiresAt : Instant
  deriving Repr, DecidableEq

structure SessionRow where
  tokenHash : String
  expiresAt : Instant
  lastSeenAt : Instant
  deriving Repr, DecidableEq

/-- What a login writes to the row of its credential. -/
structure Usage where
  signCount : ℕ
  deviceType : String
  backedUp : Bool
  lastUsedAt : Instant

def CredentialRow.used (row : CredentialRow) (usage : Usage) : CredentialRow :=
  {row with
    signCount := usage.signCount
    deviceType := some usage.deviceType
    backedUp := usage.backedUp
    lastUsedAt := some usage.lastUsedAt}

/-- What an open transaction has written. Rows that come from a challenge are kept with its id.
`checked` says how many enrolments had been committed when the transaction looked for a credential,
`found` how often its challenge had been used when the transaction read it. -/
structure Pending where
  credentials : List (ℕ × CredentialRow) := []
  usages : List (String × Usage) := []
  challenges : List (ℕ × ChallengeRow) := []
  deleted : List ℕ := []
  sessions : List (ℕ × SessionRow) := []
  dropped : List String := []
  checked : Option ℕ := none
  found : Option (ℕ × ℕ) := none

/-- The committed rows, the open transactions, and the history of what was committed: the
challenges made known, and the challenge of every credential and session. -/
structure Database where
  clock : Instant := 0
  codeFile : Option String := none
  random : String := ""
  credentials : List CredentialRow := []
  challenges : List (ℕ × ChallengeRow) := []
  sessions : List SessionRow := []
  clients : ℕ := 0
  issued : ℕ := 0
  pending : ℕ → Pending := fun _ => {}
  known : List ℕ := []
  enrolments : List ℕ := []
  openings : List ℕ := []

inductive Statement where
  | now
  | random
  | enrollmentCode
  | pruneChallenges (now : Instant)
  | pruneSessions (now : Instant)
  | anyCredential
  | insertChallenge (row : ChallengeRow)
  | getChallenge (id : ℕ)
  | deleteChallenge (id : ℕ)
  | findCredential (credentialId : String)
  | insertCredential (challenge : ℕ) (row : CredentialRow)
  | updateCredential (credentialId : String) (usage : Usage)
  | insertSession (challenge : ℕ) (row : SessionRow)
  | commit

/-- The answer to a statement; an insert says whether its unique columns were free. -/
@[reducible] def Statement.Answer : Statement → Type
  | .now => Instant
  | .random => String
  | .enrollmentCode => Option String
  | .pruneChallenges _ => Unit
  | .pruneSessions _ => Unit
  | .anyCredential => Bool
  | .insertChallenge _ => ℕ
  | .getChallenge _ => Option ChallengeRow
  | .deleteChallenge _ => Unit
  | .findCredential _ => Option CredentialRow
  | .insertCredential _ _ => Bool
  | .updateCredential _ _ => Unit
  | .insertSession _ _ => Bool
  | .commit => Unit

/-- What happens besides the transactions. -/
inductive Occasion where
  | tick (clock : Instant)
  | code (text : Option String)
  | entropy (text : String)

namespace Database

def stir (d : Database) : Occasion → Database
  | .tick clock => {d with clock := max d.clock clock}
  | .code text => {d with codeFile := text}
  | .entropy text => {d with random := text}

def write (d : Database) (i : ℕ) (p : Pending) : Database :=
  {d with pending := Function.update d.pending i p}

/-- A transaction begins, or ends without a commit. -/
def clear (d : Database) (i : ℕ) : Database :=
  {d.write i {} with clients := max d.clients (i + 1)}

/-- Whether another open transaction satisfies a condition. -/
def others (d : Database) (i : ℕ) (f : Pending → Bool) : Bool :=
  (List.range d.clients).any fun j => j != i && f (d.pending j)

def visibleCredentials (d : Database) (i : ℕ) : List CredentialRow :=
  d.credentials.map (fun row =>
    match (d.pending i).usages.find? (·.1 == row.credentialId) with
    | some usage => row.used usage.2
    | none => row) ++ (d.pending i).credentials.map (·.2)

def visibleChallenges (d : Database) (i : ℕ) : List (ℕ × ChallengeRow) :=
  (d.challenges ++ (d.pending i).challenges).filter fun c => !(d.pending i).deleted.contains c.1

def visibleSessions (d : Database) (i : ℕ) : List SessionRow :=
  (d.sessions ++ (d.pending i).sessions.map (·.2)).filter fun s =>
    !(d.pending i).dropped.contains s.tokenHash

/-- The rows of one transaction become the committed ones. -/
def commit (d : Database) (i : ℕ) : Database :=
  let p := d.pending i
  {d.write i {} with
    credentials := d.visibleCredentials i
    challenges := d.visibleChallenges i
    sessions := d.visibleSessions i
    known := d.known ++ p.challenges.map (·.1)
    enrolments := d.enrolments ++ p.credentials.map (·.1)
    openings := d.openings ++ p.sessions.map (·.1)}

/-- Whether the row of a committed challenge is locked by another transaction. -/
def challengeLocked (d : Database) (i id : ℕ) : Bool := d.others i (·.deleted.contains id)

def answer (d : Database) (i : ℕ) : (q : Statement) → Option (q.Answer × Database)
  | .now => some (d.clock,d)
  | .random => some (d.random,d)
  | .enrollmentCode => some (d.codeFile,d)
  | .pruneChallenges now =>
      let expired := ((d.visibleChallenges i).filter fun c => c.2.expiresAt ≤ now).map (·.1)
      if expired.any (d.challengeLocked i) then none
      else
        let p := d.pending i
        some ((),d.write i {p with deleted := p.deleted ++ expired})
  | .pruneSessions now =>
      let expired := ((d.visibleSessions i).filter fun s => s.expiresAt ≤ now).map (·.tokenHash)
      if expired.any fun hash => d.others i (·.dropped.contains hash) then none
      else
        let p := d.pending i
        some ((),d.write i {p with dropped := p.dropped ++ expired})
  | .anyCredential =>
      some (!(d.visibleCredentials i).isEmpty,
        d.write i {d.pending i with checked := some d.enrolments.length})
  | .insertChallenge row =>
      let p := d.pending i
      some (d.issued,{d.write i {p with challenges := p.challenges ++ [(d.issued,row)]} with
        issued := d.issued + 1})
  | .getChallenge id =>
      match (d.visibleChallenges i).find? (·.1 == id) with
      | some c => some (some c.2,d.write i {d.pending i with found := some (id,d.openings.count id)})
      | none => some (none,d)
  | .deleteChallenge id =>
      if (d.challenges.any (·.1 == id)) && d.challengeLocked i id then none
      else
        let p := d.pending i
        some ((),d.write i {p with deleted := p.deleted ++ [id]})
  | .findCredential credentialId =>
      some ((d.visibleCredentials i).find? (·.credentialId == credentialId),d)
  | .insertCredential challenge row =>
      if d.others i fun p => p.credentials.any (·.2.credentialId == row.credentialId) then none
      else if (d.visibleCredentials i).any (·.credentialId == row.credentialId) then
        some (false,d)
      else
        let p := d.pending i
        some (true,d.write i {p with credentials := p.credentials ++ [(challenge,row)]})
  | .updateCredential credentialId usage =>
      if d.others i fun p => p.usages.any (·.1 == credentialId) then none
      else
        let p := d.pending i
        some ((),d.write i {p with usages := (credentialId,usage) :: p.usages})
  | .insertSession challenge row =>
      if d.others i fun p => p.sessions.any (·.2.tokenHash == row.tokenHash) then none
      else if (d.visibleSessions i).any (·.tokenHash == row.tokenHash) then some (false,d)
      else
        let p := d.pending i
        some (true,d.write i {p with sessions := p.sessions ++ [(challenge,row)]})
  | .commit => some ((),d.commit i)

end Database

def shared : Dialogue.Shared Database Occasion Statement Statement.Answer where
  stir := Database.stir
  enter := Database.clear
  answer := Database.answer
  leave := Database.clear

end Auth
end Atlas
