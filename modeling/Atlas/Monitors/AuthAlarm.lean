import Atlas.Monitors.Rdc
import Atlas.Lib.Trace

/-! Which requests for a device code are still open when the connector is known to be online. -/
namespace Atlas
namespace Monitors

open Actions Notifications Trace

/-- An open request of the monitor for a device code. -/
def Asking (row : NotificationRow) : Prop :=
  row.status = .opened ∧ row.source = rdcSource ∧ row.kind = "auth_required"

instance decidableAsking (row : NotificationRow) : Decidable (Asking row) :=
  inferInstanceAs (Decidable (_ ∧ _))

/-- The state of the monitor and the ledger in the middle of a pass, with the events so far. -/
structure RdcDesk where
  state : RdcState := {}
  rows : List NotificationRow := []

namespace RdcDesk

/-- No request is open while the connector is known to be online. -/
def Settled (d : RdcDesk) : Prop := d.state.phase = .online → ∀ row ∈ d.rows, ¬Asking row

variable [RdcRuntime]

def read (config : RdcConfig) (repeatMinutes : ℕ) (now : Instant) (d : RdcDesk)
    (entry : JournalEntry) : RdcDesk :=
  match applyEntry config now d.state entry with
  | .ok (state,events) => ⟨state,(emitAll repeatMinutes now d.rows events).2⟩
  | .error _ => d

/-- A line that reports the connector online finds each open request remembered: the phase is
that of the request, and its thread the one on which the request is open. -/
def Answers (config : RdcConfig) (d : RdcDesk) (entry : JournalEntry) : Prop :=
  readLine d.state.awaiting entry.text = .online → ∀ row ∈ d.rows, Asking row →
    d.state.phase = .authRequired ∧ row.threadKey = some (requestThread config d.state)

instance decidableAnswers (config : RdcConfig) (d : RdcDesk) (entry : JournalEntry) :
    Decidable (Answers config d entry) :=
  inferInstanceAs (Decidable (_ → _))

end RdcDesk

/-- What the monitor keeps, and the ledger. -/
structure RdcWatch where
  row : MonitorRow := {}
  rows : List NotificationRow := []

inductive RdcStep where
  | pass (repeatMinutes : ℕ) (now : Instant) (entries : List JournalEntry)
      (cursor : Option String) (alive : Bool)

namespace RdcWatch

def start (rows : List NotificationRow) : RdcWatch := {rows := rows}

def desk (w : RdcWatch) : RdcDesk := ⟨w.row.state,w.rows⟩

/-- A ledger without open requests. -/
def Quiet (rows : List NotificationRow) : Prop := ∀ row ∈ rows, ¬Asking row

variable [RdcRuntime]

/-- A pass; one that fails is rolled back. -/
def step (config : RdcConfig) (w : RdcWatch) : RdcStep → RdcWatch
  | .pass repeatMinutes now entries cursor alive =>
      match rdcMonitorOnce config repeatMinutes now entries cursor alive w.row w.rows with
      | .ok (_,row,rows) => ⟨row,rows⟩
      | .error _ => w

/-- Every online line of a pass that goes through answers the requests open before it. -/
def Heeds (config : RdcConfig) (w : RdcWatch) : RdcStep → Prop
  | .pass repeatMinutes now entries cursor alive =>
      (rdcMonitorOnce config repeatMinutes now entries cursor alive w.row w.rows).isOk = true →
        Allowed (RdcDesk.read config repeatMinutes now) (RdcDesk.Answers config) w.desk entries

instance decidableHeeds (config : RdcConfig) (w : RdcWatch) : (a : RdcStep) →
    Decidable (Heeds config w a)
  | .pass _ _ _ _ _ => inferInstanceAs (Decidable (_ → _))

end RdcWatch

theorem requestThread_ne_empty (config : RdcConfig) (st : RdcState) :
    requestThread config st ≠ "" := by
  have hor : ∀ (value : Option String) {other : String}, other ≠ "" → orElse value other ≠ "" := by
    intro value other hother
    cases hvalue : value.filter fun text => !text.isEmpty with
    | none => simpa [orElse,hvalue] using hother
    | some text =>
      have htext := (Option.filter_eq_some_iff.mp hvalue).2
      simp only [Bool.not_eq_true',String.isEmpty_eq_false_iff] at htext
      simpa [orElse,hvalue] using htext
  refine hor st.authThreadKey fun h => ?_
  have hlist := congrArg String.toList h
  simp [authThread] at hlist

/-- Events of other kinds open no request. -/
theorem asking_emitAll {repeatMinutes : ℕ} {now : Instant} {row : NotificationRow}
    (events : List NotificationEvent) : ∀ {rows : List NotificationRow}, (∀ event ∈ events, event.kind ≠ "auth_required") →
    row ∈ (emitAll repeatMinutes now rows events).2 → Asking row → row ∈ rows := by
  induction events with
  | nil => exact fun _ hrow _ => hrow
  | cons event events ih =>
    intro rows hkinds hrow hasking
    have hnext := ih (fun e he => hkinds e (List.mem_cons_of_mem _ he)) hrow hasking
    rcases mem_emitSync hnext hasking.1 with ⟨hmem,_⟩ | ⟨_,_,hkind,_⟩
    · exact hmem
    · exact absurd (hkind.symm.trans hasking.2.2) (hkinds event List.mem_cons_self)

section

variable [RdcRuntime] {config : RdcConfig} {now : Instant} {st st' : RdcState}
  {entry : JournalEntry} {entries : List JournalEntry} {events : List NotificationEvent}
  {repeatMinutes : ℕ} {rows : List NotificationRow} {row : NotificationRow}

/-- What an entry makes of the phase, and which events it gives rise to. -/
inductive Entered (config : RdcConfig) (st : RdcState) (entry : JournalEntry) :
    RdcState → List NotificationEvent → Prop
  | away {st' : RdcState} {events : List NotificationEvent} : st'.phase ≠ .online →
      Entered config st entry st' events
  | kept {st' : RdcState} : st'.phase = st.phase → Entered config st entry st' []
  | restored {st' : RdcState} {event : NotificationEvent} :
      readLine st.awaiting entry.text = .online → event.severity = .resolved →
      event.threadKey = some (requestThread config st) → Entered config st entry st' [event]
  | arrived {st' : RdcState} {events : List NotificationEvent} :
      readLine st.awaiting entry.text = .online → st.phase ≠ .authRequired →
      (∀ event ∈ events, event.kind ≠ "auth_required") → Entered config st entry st' events

theorem applyEntry_ok (h : applyEntry config now st entry = .ok (st',events)) :
    Entered config st entry st' events := by
  unfold applyEntry at h
  dsimp only at h
  cases hline : readLine st.awaiting entry.text with
  | expires minutes =>
    simp only [hline] at h
    obtain ⟨expiresAt,_,h⟩ := accepted h
    refine .away ?_
    split at h
    · split at h
      · obtain ⟨event,_,he⟩ := map_accepted h
        rw [← (Prod.mk.inj he).1]
        simp
      · rw [← (Prod.mk.inj (Except.ok.inj h)).1]
        simp
    · rw [← (Prod.mk.inj (Except.ok.inj h)).1]
      simp
  | online =>
    simp only [hline] at h
    split at h
    · obtain ⟨rfl,rfl⟩ := Prod.mk.inj (Except.ok.inj h)
      exact .restored hline rfl rfl
    · next hphase =>
      refine .arrived hline hphase ?_
      split at h
      · obtain ⟨_,rfl⟩ := Prod.mk.inj (Except.ok.inj h)
        intro event hevent
        rw [List.mem_singleton.mp hevent]
        simp [restartedEvent]
      · obtain ⟨_,rfl⟩ := Prod.mk.inj (Except.ok.inj h)
        exact fun _ hevent => absurd hevent List.not_mem_nil
  | starting =>
    simp only [hline] at h
    refine .away ?_
    rw [← (Prod.mk.inj (Except.ok.inj h)).1]
    simp
  | shutdown =>
    simp only [hline] at h
    refine .away ?_
    rw [← (Prod.mk.inj (Except.ok.inj h)).1]
    simp
  | identified | sessionInvalid | sessionRestored | authFlow | codeReceived | verifyUrl | code
  | named | unknown =>
    simp only [hline] at h
    obtain ⟨rfl,rfl⟩ := Prod.mk.inj (Except.ok.inj h)
    exact .kept rfl

/-- An entry keeps the ledger settled where it answers the open requests. -/
theorem read_settled {d : RdcDesk} (h : d.Settled) (ha : d.Answers config entry) :
    (d.read config repeatMinutes now entry).Settled := by
  unfold RdcDesk.read
  cases hentry : applyEntry config now d.state entry with
  | error _ => exact h
  | ok result =>
    obtain ⟨st,events⟩ := result
    cases applyEntry_ok hentry with
    | away hphase => exact fun honline => absurd honline hphase
    | kept hphase => exact fun honline => h (hphase.symm.trans honline)
    | @restored event hline hs hkey =>
      intro _ row hrow hasking
      have hthread := thread_eq hkey (requestThread_ne_empty config d.state)
      rcases mem_emitSync hrow hasking.1 with ⟨hmem,hother⟩ | ⟨hne,_⟩
      · exact hother hs _ hthread (ha hline row hmem hasking).2
      · exact hne hs
    | arrived hline hphase hkinds =>
      intro _ row hrow hasking
      have hmem := asking_emitAll events hkinds hrow hasking
      exact hphase (ha hline row hmem hasking).1

theorem read_all_settled {d : RdcDesk} (h : d.Settled)
    (ha : Allowed (RdcDesk.read config repeatMinutes now) (RdcDesk.Answers config) d entries) :
    (entries.foldl (RdcDesk.read config repeatMinutes now) d).Settled := by
  have hstart : Reach (RdcDesk.read config repeatMinutes now) (RdcDesk.Answers config)
      RdcDesk.Settled d := .start h
  exact (hstart.run ha).invariant (fun _ hd => hd) fun _ _ hd hentry => read_settled hd hentry

/-- The entries of a pass, with their events emitted as they come. -/
theorem applyJournal_ok (entries : List JournalEntry) : ∀ {st st' : RdcState}
    {events : List NotificationEvent} {rows : List NotificationRow},
    applyJournal config now st entries = .ok (st',events) →
    entries.foldl (RdcDesk.read config repeatMinutes now) ⟨st,rows⟩ =
      ⟨st',(emitAll repeatMinutes now rows events).2⟩ := by
  induction entries with
  | nil =>
    intro st st' events rows h
    obtain ⟨rfl,rfl⟩ := Prod.mk.inj (Except.ok.inj h)
    rfl
  | cons entry entries ih =>
    intro st st' events rows h
    obtain ⟨⟨next,first⟩,hfirst,h⟩ := accepted h
    obtain ⟨⟨last,later⟩,hlater,h⟩ := accepted h
    obtain ⟨rfl,rfl⟩ := Prod.mk.inj (Except.ok.inj h)
    have hread : RdcDesk.read config repeatMinutes now ⟨st,rows⟩ entry =
        ⟨next,(emitAll repeatMinutes now rows first).2⟩ := by
      unfold RdcDesk.read
      rw [hfirst]
    have hrest : entries.foldl (RdcDesk.read config repeatMinutes now)
        ⟨next,(emitAll repeatMinutes now rows first).2⟩ =
          ⟨last,(emitAll repeatMinutes now (emitAll repeatMinutes now rows first).2 later).2⟩ :=
      ih hlater
    rw [List.foldl_cons,hread,emitAll_append,hrest]

/-- Whether the process lives concerns neither the phase nor the requests. -/
theorem applyLiveness_ok {alive : Bool}
    (h : applyLiveness config now st alive = .ok (st',events)) :
    st'.phase = st.phase ∧ ∀ event ∈ events, event.kind ≠ "auth_required" := by
  have hnil : ∀ event ∈ ([] : List NotificationEvent), event.kind ≠ "auth_required" :=
    fun _ hevent => absurd hevent List.not_mem_nil
  simp only [applyLiveness] at h
  split at h
  · split at h
    · obtain ⟨rfl,rfl⟩ := Prod.mk.inj (Except.ok.inj h)
      exact ⟨rfl,fun event hevent => by rw [List.mem_singleton.mp hevent]; simp⟩
    · obtain ⟨rfl,rfl⟩ := Prod.mk.inj (Except.ok.inj h)
      exact ⟨rfl,hnil⟩
  · split at h
    · obtain ⟨rfl,rfl⟩ := Prod.mk.inj (Except.ok.inj h)
      exact ⟨rfl,hnil⟩
    · split at h
      · obtain ⟨time,_,h⟩ := accepted h
        obtain ⟨rfl,rfl⟩ := Prod.mk.inj (Except.ok.inj h)
        exact ⟨rfl,fun event hevent => by rw [List.mem_singleton.mp hevent]; simp⟩
      · obtain ⟨rfl,rfl⟩ := Prod.mk.inj (Except.ok.inj h)
        exact ⟨rfl,hnil⟩

end

namespace RdcWatch

section

variable [RdcRuntime] {config : RdcConfig} {w : RdcWatch}

theorem step_settled (h : w.desk.Settled) (a : RdcStep) (ha : w.Heeds config a) :
    (w.step config a).desk.Settled := by
  obtain ⟨repeatMinutes,now,entries,cursor,alive⟩ := a
  simp only [step]
  cases hpass : rdcMonitorOnce config repeatMinutes now entries cursor alive w.row w.rows with
  | error _ => exact h
  | ok result =>
    have hallowed := ha (by rw [hpass]; rfl)
    obtain ⟨⟨st,events⟩,hjournal,hrest⟩ := accepted hpass
    obtain ⟨⟨st',liveness⟩,hliveness,hrest⟩ := accepted hrest
    obtain rfl := Except.ok.inj hrest
    have hsettled := read_all_settled h hallowed
    rw [desk,applyJournal_ok entries hjournal] at hsettled
    obtain ⟨hphase,hkinds⟩ := applyLiveness_ok hliveness
    intro honline row hrow hasking
    have honline : st.phase = .online := hphase.symm.trans honline
    simp only [desk,emitAll_append] at hrow
    exact hsettled honline row (asking_emitAll liveness hkinds hrow hasking) hasking

/-- In a run whose online lines find the open requests remembered, no request for a device code
is open after a pass that leaves the connector online. -/
theorem auth_alarm_closed
    (h : Reach (step config) (Heeds config) (fun w => ∃ rows, Quiet rows ∧ w = start rows) w) :
    w.row.state.phase = .online → ∀ row ∈ w.rows, ¬Asking row := by
  refine h.invariant (I := fun w => w.desk.Settled) (fun s hs => ?_) fun s a hs ha =>
    step_settled hs a ha
  obtain ⟨rows,hquiet,rfl⟩ := hs
  exact fun _ => hquiet

end

/-- The lines that ask the owner for a code. -/
def asked (timestamp : Instant) : List JournalEntry :=
  ["Device code received","https://mcp.example/device/verify","ABCD-1234",
    "Code expires in 15 minutes"].map fun message => ⟨message,timestamp,none⟩

/-- The connector asks for a code, restarts and restores its session. -/
def restoredSession : List RdcStep :=
  [.pass 60 0 (asked 0) none true,
    .pass 60 1 [⟨"Starting MCP Device",1,none⟩,⟨"Session restored",1,none⟩,
      ⟨"Device marked as online",1,none⟩] none true]

/-- The passes in which the code is entered, and what a restored session leaves. -/
theorem asked_passes : letI := plainRdc
    (Heeds {} (start []) (.pass 60 0 (asked 0) none true) ∧
      Heeds {} ((start []).step {} (.pass 60 0 (asked 0) none true))
        (.pass 60 1 [⟨"Device marked as online",1,none⟩] none true)) ∧
    (restoredSession.foldl (step {}) (start [])).desk.state.phase = .online ∧
      ¬∀ row ∈ (restoredSession.foldl (step {}) (start [])).desk.rows, ¬Asking row := by
  decide +kernel

/-- A code that is entered: the connector comes online and the request is closed. -/
theorem auth_alarm_closed_entered : letI := plainRdc
    let w := ((start []).step {} (.pass 60 0 (asked 0) none true)).step {}
      (.pass 60 1 [⟨"Device marked as online",1,none⟩] none true)
    w.row.state.phase = .online → ∀ row ∈ w.rows, ¬Asking row := by
  obtain ⟨⟨hasked,hentered⟩,_⟩ := asked_passes
  exact @auth_alarm_closed plainRdc {} _
    (.next (.next (.start ⟨[],fun _ hrow => (List.not_mem_nil hrow).elim,rfl⟩) hasked) hentered)

/-- A connector that asks for a code, restarts and restores its session is online, and its request
is open. -/
theorem auth_alarm_left_open : letI := plainRdc
    ¬∀ (config : RdcConfig) (as : List RdcStep),
      (as.foldl (step config) (start [])).desk.Settled := by
  obtain ⟨_,honline,hasking⟩ := asked_passes
  exact fun h => hasking (h {} restoredSession honline)

end RdcWatch

end Monitors
end Atlas
