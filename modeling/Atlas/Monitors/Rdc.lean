import Atlas.Schedules.Service
import Atlas.Notifications.Emission

/-! The monitor of the remote device connector: the lines that it reads in the journal, what each
of them makes of its state, and the events of a pass. -/
namespace Atlas
namespace Monitors

open Actions Notifications
open Memory (strip)

/-- The parts of the runtime that the monitor uses: the value of a decimal digit, and the time of
day in a zone. -/
class RdcRuntime extends ActionRuntime where
  digit : Char → Option ℕ
  clock : (zone : String) → Instant → Except Refusal String

/-- A runtime to evaluate the model with: decimal digits of ASCII, times of day as instants. -/
@[reducible] def plainRdc : RdcRuntime where
  toActionRuntime := plainActions
  digit c := if '0' ≤ c ∧ c ≤ '9' then some (c.toNat - 48) else none
  clock _ t := .ok (toString t)

def rdcSource : String := "runtime.rdc"

/-- `MESSAGE_LIMIT`. -/
def messageLimit : ℕ := 512

/-! Searching a line. -/

/-- The first place where a pattern matches. -/
def search {α : Type} (pattern : List Char → Option α) : List Char → Option α
  | [] => pattern []
  | c :: cs =>
      match pattern (c :: cs) with
      | some value => some value
      | none => search pattern cs

/-- What follows a text at the start of a line. -/
def follow (literal : String) (line : List Char) : Option (List Char) :=
  if literal.toList.isPrefixOf line then some (line.drop literal.toList.length) else none

/-- What a pattern matches after a text. -/
def searchAfter {α : Type} (literal : String) (pattern : List Char → Option α)
    (line : List Char) : Option α :=
  search (fun rest => (follow literal rest).bind pattern) line

/-- Whether a line has a text in it. -/
def mentions (literal : String) (line : List Char) : Bool := (search (follow literal) line).isSome

/-- `[0-9a-fA-F-]`. -/
def deviceChar (c : Char) : Bool :=
  ('0' ≤ c && c ≤ '9') || ('a' ≤ c && c ≤ 'f') || ('A' ≤ c && c ≤ 'F') || c == '-'

/-- `_UUID`, in lower case. -/
def deviceId (rest : List Char) : Option String :=
  let id := rest.take 36
  if id.length = 36 ∧ id.all deviceChar = true then some (String.ofList (id.map Char.toLower))
  else none

/-- `RE_VERIFY_URL`. -/
def verifyUrl (line : List Char) : Option String :=
  match follow "https://" line with
  | none => none
  | some rest =>
      if rest.all (fun c => !isSpace c) && mentions "/device/verify" (rest.drop 1) then
        some (String.ofList line)
      else none

/-- `[A-Z0-9]`. -/
def codeChar (c : Char) : Bool := ('A' ≤ c && c ≤ 'Z') || ('0' ≤ c && c ≤ '9')

/-- `RE_CODE`. -/
def deviceCode (code : List Char) : Option String :=
  if code.length = 9 ∧ (code.take 4).all codeChar = true ∧ code[4]? = some '-' ∧
      (code.drop 5).all codeChar = true then
    some (String.ofList code)
  else none

/-- `\s+(\S+)`. -/
def deviceName (rest : List Char) : Option String :=
  let name := (rest.dropWhile isSpace).takeWhile fun c => !isSpace c
  if rest.takeWhile isSpace = [] ∨ name = [] then none else some (String.ofList name)

inductive Phase where
  | unknown
  | starting
  | authRequired
  | online
  | stopped
  deriving Repr, DecidableEq

inductive Awaiting where
  | nothing
  | url
  | code
  | expiry
  deriving Repr, DecidableEq

structure JournalEntry where
  message : String
  timestamp : Instant
  cursor : Option String := none

structure RdcConfig where
  threadPrefix : String := "rdc"
  titlePrefix : String := ""
  bodyPrefix : String := ""
  timezone : String := "UTC"
  processGraceSeconds : ℕ := 120

structure RdcState where
  phase : Phase := .unknown
  deviceId : Option String := none
  deviceName : Option String := none
  awaiting : Awaiting := .nothing
  url : Option String := none
  code : Option String := none
  codeExpiresAt : Option String := none
  authThreadKey : Option String := none
  sessionInvalid : Bool := false
  sessionRestored : Bool := false
  processMissingSince : Option String := none
  processAlarmOpen : Bool := false
  lastSeenAt : Option String := none

/-- What a line of the journal says. -/
inductive Line where
  | starting
  | identified (deviceId : String)
  | sessionInvalid
  | sessionRestored
  | authFlow
  | codeReceived
  | verifyUrl (url : String)
  | code (code : String)
  | expires (minutes : ℕ)
  | online
  | named (deviceName : String)
  | shutdown
  | unknown
  deriving Repr, DecidableEq

section

variable [RdcRuntime]

/-- `(\d+) minutes`. -/
def minutesText (rest : List Char) : Option ℕ :=
  let digits := rest.takeWhile fun c => (RdcRuntime.digit c).isSome
  if digits = [] then none
  else (follow " minutes" (rest.drop digits.length)).map fun _ =>
    digits.foldl (fun n c => 10 * n + (RdcRuntime.digit c).getD 0) 0

/-- The expressions in the order in which `apply_journal` tries them. -/
def readLine (awaiting : Awaiting) (message : String) : Line :=
  let line := message.toList
  if mentions "Starting MCP Device" line then .starting
  else match searchAfter "Found persisted session for device " deviceId line with
  | some id => .identified id
  | none =>
  match searchAfter "Device ID authenticated: " deviceId line with
  | some id => .identified id
  | none =>
  if mentions "Persisted session invalid" line then .sessionInvalid
  else if mentions "Session restored" line then .sessionRestored
  else if mentions "Starting device authorization flow" line then .authFlow
  else if mentions "Device code received" line then .codeReceived
  else match (if awaiting = .url then verifyUrl line else none) with
  | some url => .verifyUrl url
  | none =>
  match (if awaiting = .code then deviceCode line else none) with
  | some code => .code code
  | none =>
  match (if awaiting = .expiry then searchAfter "Code expires in " minutesText line else none) with
  | some minutes => .expires minutes
  | none =>
  if mentions "Device marked as online" line || mentions "Device ready:" line then .online
  else match searchAfter "Device Name:" deviceName line with
  | some name => .named name
  | none => if mentions "Shutting down device" line then .shutdown else .unknown

/-- `_label`. -/
def label (st : RdcState) : String :=
  match st.deviceName.filter fun name => !name.isEmpty with
  | some name => "Desktop Commander on " ++ name
  | none => "Desktop Commander"

/-- A value, or another where it is missing or empty. -/
def orElse (value : Option String) (other : String) : String :=
  (value.filter fun text => !text.isEmpty).getD other

/-- `_auth_thread`. -/
def authThread (config : RdcConfig) (st : RdcState) : String :=
  config.threadPrefix ++ ".auth:" ++ orElse st.deviceId "unknown"

/-- The thread on which the request that is remembered was announced. -/
def requestThread (config : RdcConfig) (st : RdcState) : String :=
  orElse st.authThreadKey (authThread config st)

def jsonText (value : Option String) : Json := value.elim .null .str

/-- `_auth_required_event`. -/
def authRequiredEvent (config : RdcConfig) (st : RdcState) (url code : String)
    (expiresAt : Instant) : Except Refusal NotificationEvent := do
  let time ← RdcRuntime.clock config.timezone expiresAt
  let reason :=
    if st.sessionInvalid then
      "The persisted session was rejected (refresh token already used), so the connector " ++
        "needs a fresh device authorization."
    else "The connector is waiting for device authorization."
  return {
    source := rdcSource
    kind := "auth_required"
    severity := .actionRequired
    title := config.titlePrefix ++ label st ++ " needs a new device code"
    body := config.bodyPrefix ++ "Enter " ++ code ++ " at " ++ url ++ " (expires " ++ time ++
      "). Remote access stays unavailable until then."
    detail := [("url",.str url),("code",.str code),
      ("expires_at",.str (PyRuntime.isoformat expiresAt)),("device_id",jsonText st.deviceId),
      ("device_name",jsonText st.deviceName),("reason",.str reason),("open_url",.str url)]
    sensitiveFields := ["code","body"]
    threadKey := some (requestThread config st)}

def authRestoredEvent (config : RdcConfig) (st : RdcState) : NotificationEvent where
  source := rdcSource
  kind := "auth_restored"
  severity := .resolved
  title := config.titlePrefix ++ label st ++ " is back online"
  body := config.bodyPrefix ++
    "Device authenticated and online; remote access is restored."
  detail := [("device_id",jsonText st.deviceId),("device_name",jsonText st.deviceName),
    ("open_url",.str "/")]
  threadKey := some (requestThread config st)

def restartedEvent (config : RdcConfig) (st : RdcState) : NotificationEvent where
  source := rdcSource
  kind := "restarted"
  severity := .info
  title := config.titlePrefix ++ label st ++ " restarted and restored its session"
  body := config.bodyPrefix ++
    "The connector came back without needing a new device code."
  detail := [("device_id",jsonText st.deviceId),("device_name",jsonText st.deviceName),
    ("open_url",.str "/")]
  threadKey := some (config.threadPrefix ++ ".restart")

/-- `timestamp + timedelta(minutes=n)`. -/
def addMinutes (timestamp : Instant) (n : ℕ) : Except Refusal Instant := do
  require (n / 1440 ≤ 999999999)
    ⟨.overflowError,"days=" ++ toString (n / 1440) ++ "; must have magnitude <= 999999999"⟩
  let sum := timestamp + seconds (60 * n)
  require (sum < Schedules.datetimeEnd) ⟨.overflowError,"date value out of range"⟩
  return sum

/-- The text of an entry that is matched. -/
def JournalEntry.text (entry : JournalEntry) : String :=
  strip (clipText messageLimit entry.message)

/-- One entry of the loop of `apply_journal`. -/
def applyEntry (config : RdcConfig) (now : Instant) (st : RdcState) (entry : JournalEntry) :
    Except Refusal (RdcState × List NotificationEvent) :=
  let st := {st with lastSeenAt := some (PyRuntime.isoformat entry.timestamp)}
  match readLine st.awaiting entry.text with
  | .starting => .ok ({st with
      phase := .starting
      awaiting := .nothing
      sessionInvalid := false
      sessionRestored := false
      url := none
      code := none
      codeExpiresAt := none},[])
  | .identified id => .ok ({st with deviceId := some id},[])
  | .sessionInvalid => .ok ({st with sessionInvalid := true},[])
  | .sessionRestored => .ok ({st with sessionRestored := true},[])
  | .authFlow => .ok ({st with awaiting := .nothing},[])
  | .codeReceived => .ok ({st with awaiting := .url, url := none, code := none},[])
  | .verifyUrl url => .ok ({st with url := some url, awaiting := .code},[])
  | .code code => .ok ({st with code := some code, awaiting := .expiry},[])
  | .expires minutes => do
      let expiresAt ← addMinutes entry.timestamp minutes
      let st := {st with
        codeExpiresAt := some (PyRuntime.isoformat expiresAt)
        awaiting := .nothing
        phase := .authRequired
        authThreadKey := some (authThread config st)}
      match st.url.filter (fun url => !url.isEmpty),st.code.filter (fun code => !code.isEmpty) with
      | some url, some code =>
          if now < expiresAt then
            (authRequiredEvent config st url code expiresAt).map fun event => (st,[event])
          else .ok (st,[])
      | _, _ => .ok (st,[])
  | .online =>
      let st' := {st with phase := .online}
      if st.phase = .authRequired then
        .ok ({st' with url := none, code := none, codeExpiresAt := none},
          [authRestoredEvent config st'])
      else if st.phase = .starting ∧ st.sessionRestored = true then
        .ok (st',[restartedEvent config st'])
      else .ok (st',[])
  | .named name => .ok ({st with deviceName := some name},[])
  | .shutdown => .ok ({st with phase := .stopped, awaiting := .nothing},[])
  | .unknown => .ok (st,[])

/-- `apply_journal`. -/
def applyJournal (config : RdcConfig) (now : Instant) : RdcState → List JournalEntry →
    Except Refusal (RdcState × List NotificationEvent)
  | st, [] => .ok (st,[])
  | st, entry :: entries => do
      let (next,events) ← applyEntry config now st entry
      let (last,later) ← applyJournal config now next entries
      return (last,events ++ later)

def processThread (config : RdcConfig) : String := config.threadPrefix ++ ".process"

/-- `_parse_iso`. -/
def parseIso (value : Option String) : Option Instant :=
  (value.filter fun text => !text.isEmpty).bind fun text =>
    (ActionRuntime.fromisoformat text).map Moment.utc

/-- `apply_liveness`. -/
def applyLiveness (config : RdcConfig) (now : Instant) (st : RdcState) (alive : Bool) :
    Except Refusal (RdcState × List NotificationEvent) :=
  if alive then
    let st := {st with processMissingSince := none}
    if st.processAlarmOpen then
      .ok ({st with processAlarmOpen := false},[{
        source := rdcSource
        kind := "process_restored"
        severity := .resolved
        title := config.titlePrefix ++ label st ++ " process is running again"
        body := config.bodyPrefix ++ "The connector process is back."
        detail := [("open_url",.str "/")]
        threadKey := some (processThread config)}])
    else .ok (st,[])
  else
    match parseIso st.processMissingSince with
    | none => .ok ({st with processMissingSince := some (PyRuntime.isoformat now)},[])
    | some missingSince =>
        if st.processAlarmOpen = false ∧ missingSince + seconds config.processGraceSeconds < now
        then do
          let time ← RdcRuntime.clock config.timezone missingSince
          return ({st with processAlarmOpen := true},[{
            source := rdcSource
            kind := "process_missing"
            severity := .warning
            title := config.titlePrefix ++ label st ++ " process is not running"
            body := config.bodyPrefix ++ "No connector process has been seen since " ++ time ++
              "."
            detail := [("missing_since",.str (PyRuntime.isoformat missingSince)),
              ("open_url",.str "/")]
            threadKey := some (processThread config)}])
        else .ok (st,[])

/-- The row that the monitor keeps. -/
structure MonitorRow where
  cursor : Option String := none
  state : RdcState := {}

structure RdcPass where
  entries : ℕ
  events : ℕ
  emitted : ℕ
  phase : Phase
  alive : Bool

/-- `rdc_monitor_once`, with what the journal and the process table answer. -/
def rdcMonitorOnce (config : RdcConfig) (repeatMinutes : ℕ) (now : Instant)
    (entries : List JournalEntry) (cursor : Option String) (alive : Bool) (row : MonitorRow)
    (rows : List NotificationRow) :
    Except Refusal (RdcPass × MonitorRow × List NotificationRow) := do
  let (st,events) ← applyJournal config now row.state entries
  let (st,liveness) ← applyLiveness config now st alive
  let (emitted,rows) := emitAll repeatMinutes now rows (events ++ liveness)
  return ({
    entries := entries.length
    events := (events ++ liveness).length
    emitted := emitted
    phase := st.phase
    alive := alive},
    {cursor := (cursor.filter fun text => !text.isEmpty).or row.cursor, state := st},rows)

variable {config : RdcConfig} {now : Instant} {st st' : RdcState} {events : List NotificationEvent}

/-- Every title says something, so the check of an event refuses none. -/
theorem applyEntry_check {entry : JournalEntry}
    (h : applyEntry config now st entry = .ok (st',events)) : ∀ e ∈ events, e.check = .ok () := by
  have hone : ∀ {e : NotificationEvent} {c : Char}, c ∈ e.title.toList → isSpace c = false →
      ∀ e' ∈ [e], e'.check = .ok () := by
    intro e c hc hspace e' he'
    rw [List.mem_singleton.mp he']
    exact check_of_mem hc hspace
  have hnil : ∀ e ∈ ([] : List NotificationEvent), e.check = .ok () :=
    fun _ he => absurd he List.not_mem_nil
  unfold applyEntry at h
  dsimp only at h
  cases hline : readLine st.awaiting entry.text with
  | expires minutes =>
    simp only [hline] at h
    obtain ⟨expiresAt,_,h⟩ := accepted h
    split at h
    · split at h
      · obtain ⟨event,hevent,he⟩ := map_accepted h
        obtain ⟨time,_,hevent⟩ := accepted hevent
        rw [← (Prod.mk.inj he).2,← Except.ok.inj hevent]
        exact hone (c := 'n') (by simp) (by decide)
      · rw [← (Prod.mk.inj (Except.ok.inj h)).2]
        exact hnil
    · rw [← (Prod.mk.inj (Except.ok.inj h)).2]
      exact hnil
  | online =>
    simp only [hline] at h
    split at h
    · rw [← (Prod.mk.inj (Except.ok.inj h)).2]
      exact hone (c := 'b') (by simp [authRestoredEvent]) (by decide)
    · split at h
      · rw [← (Prod.mk.inj (Except.ok.inj h)).2]
        exact hone (c := 'r') (by simp [restartedEvent]) (by decide)
      · rw [← (Prod.mk.inj (Except.ok.inj h)).2]
        exact hnil
  | starting | identified | sessionInvalid | sessionRestored | authFlow | codeReceived | verifyUrl
  | code | named | shutdown | unknown =>
    simp only [hline] at h
    rw [← (Prod.mk.inj (Except.ok.inj h)).2]
    exact hnil

end

end Monitors
end Atlas
