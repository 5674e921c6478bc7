import Atlas.Auth.Database
import Atlas.Memory.Intake

/-! The four requests of the passkey login, each a transaction of single statements. -/
namespace Atlas
namespace Auth

open Actions Dialogue Memory

/-- How a request fails: the three kinds of exceptions that reach the endpoint. -/
inductive AuthError where
  | value (message : String)
  | permission (message : String)
  | integrity
  deriving Repr, DecidableEq

abbrev Transaction (α : Type) := Prog Statement Statement.Answer AuthError α

structure Verification where
  credentialId : String
  publicKey : String
  signCount : ℕ
  deviceType : Option String
  backedUp : Bool

structure Assertion where
  newSignCount : ℕ
  deviceType : String
  backedUp : Bool

/-- The WebAuthn library, the digest of a token and the texts of JSON values. -/
class AuthRuntime where
  verifyRegistration : (credential : Dict) → (challenge rpId origin : String) →
    Except String Verification
  verifyAuthentication : (credential : Dict) → (challenge rpId origin publicKey : String) →
    (signCount : ℕ) → Except String Assertion
  base64urlToBytes : String → String
  sha256 : String → String
  str : Json → String

structure AuthConfig where
  rpId : String
  origin : String
  sessionHours : ℕ

/-- A request that a client makes. -/
inductive AuthCall where
  | registerOptions (enrollmentCode : String)
  | registerVerify (challengeId : ℕ) (enrollmentCode : String) (credential : Dict)
  | loginOptions
  | loginVerify (challengeId : ℕ) (credential : Dict)

/-- What a client gets: the challenge that was issued, or the token of its session. -/
inductive AuthReply where
  | options (challengeId : ℕ) (challenge : String)
  | authenticated (token : String)
  deriving Repr, DecidableEq

def minutes (n : ℕ) : ℕ := n * 60000000

def hours (n : ℕ) : ℕ := n * minutes 60

def ask (q : Statement) : Transaction q.Answer := Prog.request q

/-- `_prune_expired`. Its first statement flushes what the session holds. -/
def pruneExpired (flush : Transaction Unit) : Transaction Unit := do
  let now ← ask .now
  flush
  ask (.pruneChallenges now)
  ask (.pruneSessions now)

/-- `enrollment_code_valid`. -/
def enrollmentCodeValid (supplied : String) : Transaction Bool := do
  match ← ask .enrollmentCode with
  | none => return false
  | some text => return supplied != "" && strip supplied == strip text

/-- The checks of an enrolment: nobody is enrolled, and the code is the owner's. -/
def checkEnrollment (enrollmentCode : String) : Transaction Unit := do
  if ← ask .anyCredential then Prog.raise (.value "Atlas already has an owner passkey")
  else if ← enrollmentCodeValid enrollmentCode then return ()
  else Prog.raise (.permission "Invalid enrollment code")

/-- A challenge of five minutes. -/
def issueChallenge (kind : ChallengeKind) (userHandle : Option String) :
    Transaction AuthReply := do
  let challenge ← ask .random
  let now ← ask .now
  let id ← ask (.insertChallenge {
    kind := kind
    challenge := challenge
    userHandle := userHandle
    expiresAt := now + minutes 5})
  ask .commit
  return .options id challenge

/-- `registration_options`. -/
def registrationOptions (enrollmentCode : String) : Transaction AuthReply := do
  pruneExpired (return ())
  checkEnrollment enrollmentCode
  let userHandle ← ask .random
  issueChallenge .register (some userHandle)

/-- `login_options`. -/
def loginOptions : Transaction AuthReply := do
  pruneExpired (return ())
  if ← ask .anyCredential then issueChallenge .login none
  else Prog.raise (.value "Atlas has no enrolled owner passkey")

/-- `_challenge`. The deletion of an expired row is rolled back with the request. -/
def findChallenge (challengeId : ℕ) (kind : ChallengeKind) : Transaction ChallengeRow := do
  match ← ask (.getChallenge challengeId) with
  | none => Prog.raise (.value "Authentication challenge was not found")
  | some row =>
      if row.kind ≠ kind then Prog.raise (.value "Authentication challenge was not found")
      else
        let now ← ask .now
        if row.expiresAt ≤ now then Prog.raise (.value "Authentication challenge expired")
        else return row

section

variable [AuthRuntime]

/-- `create_session` after what is to be flushed, and the commit of the endpoint. -/
def createSession (config : AuthConfig) (challengeId : ℕ) (flush : Transaction Unit) :
    Transaction AuthReply := do
  pruneExpired flush
  let token ← ask .random
  let now ← ask .now
  let seen ← ask .now
  if ← ask (.insertSession challengeId {
    tokenHash := AuthRuntime.sha256 token
    expiresAt := now + hours config.sessionHours
    lastSeenAt := seen}) then
    ask .commit
    return .authenticated token
  else Prog.raise .integrity

/-- The list `[str(item) for item in transports]`. -/
def transportsOf (credential : Dict) : List String :=
  match Dict.get credential "response" with
  | some (.obj response) =>
      match Dict.get response "transports" with
      | some (.arr items) => items.map AuthRuntime.str
      | _ => []
  | _ => []

def enrolledRow (verification : Verification) (challenge : ChallengeRow) (credential : Dict) :
    CredentialRow where
  credentialId := verification.credentialId
  publicKey := verification.publicKey
  signCount := verification.signCount
  userHandle := orEmpty challenge.userHandle
  transports := transportsOf credential
  deviceType := verification.deviceType
  backedUp := verification.backedUp

/-- The flush of an enrolment: the credential is inserted and the challenge deleted. -/
def flushEnrolment (challengeId : ℕ) (row : CredentialRow) : Transaction Unit := do
  if ← ask (.insertCredential challengeId row) then ask (.deleteChallenge challengeId)
  else Prog.raise .integrity

/-- The flush of a login: the credential is updated and the challenge deleted. -/
def flushLogin (challengeId : ℕ) (credentialId : String) (usage : Usage) : Transaction Unit := do
  ask (.updateCredential credentialId usage)
  ask (.deleteChallenge challengeId)

/-- `verify_registration`. -/
def verifyRegistration (config : AuthConfig) (challengeId : ℕ) (enrollmentCode : String)
    (credential : Dict) : Transaction AuthReply := do
  checkEnrollment enrollmentCode
  let challenge ← findChallenge challengeId .register
  match AuthRuntime.verifyRegistration credential challenge.challenge config.rpId
      config.origin with
  | .error text => Prog.raise (.permission ("Passkey registration failed: " ++ text))
  | .ok verification =>
      createSession config challengeId
        (flushEnrolment challengeId (enrolledRow verification challenge credential))

/-- `credential.get("id")` where it is a text. -/
def credentialIdOf (credential : Dict) : Option String :=
  match Dict.get credential "id" with
  | some (.str id) => some id
  | _ => none

/-- `verify_login`. -/
def verifyLogin (config : AuthConfig) (challengeId : ℕ) (credential : Dict) :
    Transaction AuthReply := do
  let challenge ← findChallenge challengeId .login
  match credentialIdOf credential with
  | none => Prog.raise (.permission "Passkey credential id is missing")
  | some id =>
      match ← ask (.findCredential (AuthRuntime.base64urlToBytes id)) with
      | none => Prog.raise (.permission "Passkey is not enrolled for Atlas")
      | some row =>
          match AuthRuntime.verifyAuthentication credential challenge.challenge config.rpId
              config.origin row.publicKey row.signCount with
          | .error text => Prog.raise (.permission ("Passkey authentication failed: " ++ text))
          | .ok assertion =>
              let now ← ask .now
              createSession config challengeId (flushLogin challengeId row.credentialId {
                signCount := assertion.newSignCount
                deviceType := assertion.deviceType
                backedUp := assertion.backedUp
                lastUsedAt := now})

def serve (config : AuthConfig) : AuthCall → Transaction AuthReply
  | .registerOptions enrollmentCode => registrationOptions enrollmentCode
  | .registerVerify challengeId enrollmentCode credential =>
      verifyRegistration config challengeId enrollmentCode credential
  | .loginOptions => loginOptions
  | .loginVerify challengeId credential => verifyLogin config challengeId credential

/-- The login service and the requests under way. -/
abbrev Login := Crowd Database AuthCall Statement Statement.Answer AuthError AuthReply

def step (config : AuthConfig) (m : Login) (a : Move Occasion AuthCall) : Login :=
  m.step shared (serve config) a

end

end Auth
end Atlas
