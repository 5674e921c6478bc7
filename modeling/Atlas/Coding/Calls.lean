import Atlas.Coding.CallSteps

/-! What the calls of the bridge keep while they wait and leave when they are over. -/
namespace Atlas
namespace Coding

open Actions Dialogue World Memory

/-- The file holds the record that a call has read. -/
def Reads (record : Session) (h : Host) : Prop := Steady h ∧ h.file = some record

theorem reads_stable (record : Session) : world.Stable (Reads record) :=
  steady_stable.and (file_stable _)

theorem reads_linked {record : Session} (h : Host) (hr : Reads record h) :
    Linked h ∧ h.file = some record := ⟨hr.1.2,hr.2⟩

/-- What every call leaves. -/
def Leaves : Except Failure Reply → Host → Prop := fun _ t => Steady t

/-- A cancellation that is reported leaves a session that is cancelled for good. -/
def Cancels (r : Except Failure Reply) (t : Host) : Prop :=
  Steady t ∧ ∀ answer, r = .ok answer → answer.view.status = .cancelled →
    ∃ record, Sealed record t

section

variable {s : Host} {α : Type} {I : Host → Prop} {Post : Except Failure α → Host → Prop}

theorem sessionPath_keeps {sessionId : String} {f : Unit → Tool α}
    (hf : world.Keeps I Post (f ()) s)
    (herror : ∀ e, world.Keeps I Post (.done (.error e)) s) :
    world.Keeps I Post (sessionPath sessionId >>= f) s := by
  unfold sessionPath
  split
  · exact hf
  · exact herror _

theorem load_keeps {sessionId : String} {f : Session → Tool α} {P : Host → Prop}
    (hP : world.Stable P) (hs : P s) (hI : ∀ h, P h → I h)
    (hf : ∀ record u, P u → u.file = some record → world.Keeps I Post (f record) u)
    (herror : ∀ e u, P u → world.Keeps I Post (.done (.error e)) u) :
    world.Keeps I Post (load sessionId >>= f) s := by
  unfold load
  refine Keeps.ask hP hs hI fun u hu => ?_
  cases hfile : u.file with
  | none =>
    rw [show world.answer u .load = (none,u) from Prod.ext hfile rfl]
    exact herror _ u hu
  | some record =>
    rw [show world.answer u .load = (some record,u) from Prod.ext hfile rfl]
    exact hf record u hu hfile

end

section

variable {s : Host}

theorem leaves_keeps {s : Host} (r : Except Failure Reply) (hs : Steady s) :
    world.Keeps Sane Leaves (.done r) s :=
  Keeps.done steady_stable hs fun _ hu => ⟨hu.1,hu⟩

/-- A record that was read and refreshed may be written back. -/
theorem save_refreshed {record record' : Session} {t u : Host}
    (h : Refreshed (Reads record) record record' t) (hu : Reads record u) :
    Steady (world.answer u (.save record')).2 :=
  save_steady hu.1.1 (h.guards (.of_file hu.1.2 hu.2))

theorem refreshed_keeps {record : Session} {α : Type} {f : Session → Tool α}
    {Post : Except Failure α → Host → Prop} (hs : Reads record s)
    (hf : ∀ record' t, Refreshed (Reads record) record record' t →
      world.Keeps Sane Post (f record') t) :
    world.Keeps Sane Post (refresh record >>= f) s :=
  (refresh_keeps (reads_stable record) (fun _ hr => hr.1.1) hs record).bind_returns hf

theorem getStatus_keeps (sessionId : String) (hs : Steady s) :
    world.Keeps Sane Leaves (getStatus sessionId) s := by
  unfold getStatus
  refine sessionPath_keeps ?_ fun e => leaves_keeps _ hs
  refine load_keeps steady_stable hs (fun h hh => hh.1) (fun record u hu hfile => ?_)
    fun e u hu => leaves_keeps _ hu
  refine refreshed_keeps ⟨hu,hfile⟩ fun record' t ht => ?_
  exact Keeps.ask (reads_stable record) ht.1 (fun _ hr => hr.1.1) fun v hv =>
    leaves_keeps _ (save_refreshed ht hv)

theorem getResult_keeps (sessionId : String) (hs : Steady s) :
    world.Keeps Sane Leaves (getResult sessionId) s := by
  unfold getResult
  refine sessionPath_keeps ?_ fun e => leaves_keeps _ hs
  refine load_keeps steady_stable hs (fun h hh => hh.1) (fun record u hu hfile => ?_)
    fun e u hu => leaves_keeps _ hu
  refine refreshed_keeps ⟨hu,hfile⟩ fun record' t ht => ?_
  refine Keeps.ask (reads_stable record) ht.1 (fun _ hr => hr.1.1) fun v hv => ?_
  have hsave := save_refreshed ht hv
  simp only [Prog.done_bind]
  split
  · exact Keeps.ask steady_stable hsave (fun h hh => hh.1) fun w hw => leaves_keeps _ hw
  · exact leaves_keeps _ hsave

/-- The latest run of a refreshed record has the process that the file names. -/
theorem Refreshed.tells {record record' : Session} {run : RunRecord} {t : Host}
    (h : Refreshed (Reads record) record record' t) (hrun : record'.runs.getLast? = some run) :
    Tells (Reads record) run.pid run.group run.procStartTime := by
  rcases h with ⟨ht,h⟩
  cases hlast : record.runs.getLast? with
  | none =>
    rw [hlast] at h
    rw [h,hlast] at hrun
    cases hrun
  | some run₀ =>
    rw [hlast] at h
    rcases h with ⟨running,finishedAt,updatedAt,v,-,-,rfl⟩
    simp only [Session.observed,Session.amend,List.getLast?_concat,Option.some.injEq] at hrun
    have htells := tells_of_file reads_linked ht hlast
    subst hrun
    exact htells

/-- A record that is marked cancelled once its worker was stopped. -/
structure Stops (record : Session) (t : Host) : Prop where
  status : record.status = .cancelled
  thread : record.runs = [] → record.codexThreadId = none
  guards : Guards record t
  idle : Idle t

theorem stops_stable (record : Session) : world.Stable (Stops record) := fun h e hs =>
  ⟨hs.status,hs.thread,guards_stable record h e hs.guards,idle_stable h e hs.idle⟩

/-- What stopping the worker of a session ends with. -/
def StopsOr (read : Session) : Except Failure Session → Host → Prop
  | .ok record, t => Reads read t ∧ Stops record t
  | .error _, t => Steady t

theorem stopLatest_keeps {record record' : Session} (patience : Patience)
    (h : Refreshed (Reads record) record record' s) :
    world.Keeps Sane (StopsOr record) (stopLatest record' patience) s := by
  have hR := reads_stable record
  have hRI : ∀ h, Reads record h → Sane h := fun _ hr => hr.1.1
  have hguards := h.guards (.of_file h.1.1.2 h.1.2)
  have hdone : ∀ {rec t}, Reads record t → Stops rec t →
      world.Keeps Sane (StopsOr record) (.done (.ok rec)) t := fun ht hst =>
    Keeps.done (hR.and (stops_stable _)) ⟨ht,hst⟩ fun u hu => ⟨hu.1.1.1,hu⟩
  unfold stopLatest
  cases hrun : record'.runs.getLast? with
  | none =>
    unfold Guards at hguards
    rw [hrun] at hguards
    refine hdone h.1 ⟨rfl,fun _ => hguards.2,?_,hguards.1⟩
    unfold Guards
    rw [show ({record' with status := .cancelled} : Session).runs = record'.runs from rfl,hrun]
    exact hguards
  | some latest =>
    have htells := h.tells hrun
    rcases (guards_last s hrun).mp hguards with ⟨hpid,hgroup,-⟩
    have hend : ∀ finishedAt t, Reads record t → Idle t →
        world.Keeps Sane (StopsOr record)
          (.done (.ok (record'.cancelled latest finishedAt))) t := by
      intro finishedAt t ht hidle
      refine hdone ht ⟨rfl,fun hnil => ?_,?_,hidle⟩
      · simp [Session.cancelled,Session.amend] at hnil
      · have hnew : (record'.cancelled latest finishedAt).runs = record'.runs.dropLast ++
            [{latest with status := .cancelled, finishedAt := finishedAt}] := rfl
        exact (guards_new t hnew).mpr ⟨hpid,hgroup,hidle.covers _ _ _⟩
    simp only [stopRun]
    rw [if_pos ⟨hpid,htells.2.1 ▸ hpid⟩]
    refine (terminateProcessGroup_keeps hR hRI h.1 latest.pid latest.group latest.procStartTime
      patience).bind (fun _ t ht => ?_) fun _ _ ht => ht.1.1
    have hidle := ht.2 rfl htells
    unfold finishTime
    split
    · exact Keeps.ask (hR.and idle_stable) ⟨ht.1,hidle⟩ (fun _ hr => hr.1.1.1) fun u hu =>
        hend _ u hu.1 hu.2
    · exact hend _ t ht.1 hidle

theorem settle_keeps {record record' : Session} (patience : Patience)
    (h : Refreshed (Reads record) record record' s) :
    world.Keeps Sane (fun r t => match r with
      | .ok final => Reads record t ∧ Guards final t ∧
          (final.status = .cancelled → Stops final t)
      | .error _ => Steady t) (settle record' patience) s := by
  have hguards := h.guards (.of_file h.1.1.2 h.1.2)
  unfold settle
  split
  · refine (stopLatest_keeps patience h).mono fun r t ht => ?_
    cases r with
    | ok final => exact ⟨ht.1,ht.2.guards,fun _ => ht.2⟩
    | error e => exact ht
  · next hn =>
    have hP := (reads_stable record).and (guards_stable record')
    by_cases hst : record'.status = .cancelled
    · have hidle := h.idle reads_linked h.1 (by rw [hst]; decide)
      have hthread : record'.runs = [] → record'.codexThreadId = none := by
        intro hnil
        unfold Guards at hguards
        rw [hnil] at hguards
        exact hguards.2
      exact Keeps.done ((reads_stable record).and (stops_stable record'))
        ⟨h.1,hst,hthread,hguards,hidle⟩ fun u hu =>
          ⟨hu.1.1.1,hu.1,hu.2.guards,fun _ => hu.2⟩
    · exact Keeps.done hP ⟨h.1,hguards⟩ fun u hu =>
        ⟨hu.1.1.1,hu.1,hu.2,fun hc => absurd hc hst⟩

theorem cancels_keeps {r : Except Failure Reply} {P : Host → Prop} (hP : world.Stable P)
    (hs : P s) (h : ∀ t, P t → Cancels r t) : world.Keeps Sane Cancels (.done r) s :=
  Keeps.done hP hs fun t ht => ⟨(h t ht).1.1,h t ht⟩

theorem cancelSession_keeps (sessionId : String) (patience : Patience) (hs : Steady s) :
    world.Keeps Sane Cancels (cancelSession sessionId patience) s := by
  have hfail : ∀ {t} (e : Failure), Steady t → world.Keeps Sane Cancels (.done (.error e)) t :=
    fun e ht => cancels_keeps steady_stable ht fun _ hu => ⟨hu,fun _ h => by cases h⟩
  have hseal : ∀ {t} (record : Session), Steady t →
      (record.status = .cancelled → Sealed record t) →
      world.Keeps Sane Cancels (.done (.ok (reply record))) t := by
    intro t record ht hst
    refine cancels_keeps (steady_stable.and ((sealed_stable record).imp _)) ⟨ht,hst⟩
      fun u hu => ⟨hu.1,fun answer ha hc => ⟨record,hu.2 ?_⟩⟩
    rw [← Except.ok.inj ha] at hc
    exact hc
  unfold cancelSession
  refine sessionPath_keeps ?_ fun e => hfail e hs
  refine Keeps.ask steady_stable hs (fun h hh => hh.1) fun u hu => ?_
  cases hfile : u.file with
  | none =>
    rw [show world.answer u .load = (none,u) from Prod.ext hfile rfl]
    have hidle : Idle u := by
      have := hu.2
      unfold Linked at this
      rwa [hfile] at this
    have hP := steady_stable.and idle_stable
    refine Keeps.ask hP ⟨hu,hidle⟩ (fun h hh => hh.1.1) fun v hv => ?_
    refine Keeps.ask hP hv (fun h hh => hh.1.1) fun w hw => ?_
    exact hseal _ (save_steady hw.1.1 ⟨hw.2,rfl⟩) fun _ => ⟨rfl,rfl,fun _ => rfl,hw.2⟩
  | some record =>
    rw [show world.answer u .load = (some record,u) from Prod.ext hfile rfl]
    refine refreshed_keeps ⟨hu,hfile⟩ fun record' t ht => ?_
    refine (settle_keeps patience ht).bind (fun final t ht => ?_) fun e t ht =>
      ⟨ht,fun _ h => by cases h⟩
    have hP := ((reads_stable record).and (guards_stable final)).and
      ((stops_stable final).imp (final.status = .cancelled))
    refine Keeps.ask hP ⟨⟨ht.1,ht.2.1⟩,ht.2.2⟩ (fun h hh => hh.1.1.1.1) fun v hv => ?_
    refine Keeps.ask hP hv (fun h hh => hh.1.1.1.1) fun w hw => ?_
    exact hseal _ (save_steady hw.1.1.1.1 hw.1.2) fun hc =>
      ⟨rfl,hc,(hw.2 hc).thread,(hw.2 hc).idle⟩

end

section

variable [CodingRuntime] {s : Host}

theorem launchTurn_keeps (record : Session) (prompt : String) (resume : Bool)
    (patience : Patience) (hs : Steady s) (hi : Idle s) :
    world.Keeps Sane Leaves (launchTurn record prompt resume patience) s :=
  (launch_keeps record prompt resume patience hs hi).bind (fun _ _ ht => leaves_keeps _ ht)
    fun _ _ ht => ht

theorem startSession_keeps (sessionId : String) (arguments : StartArguments)
    (patience : Patience) (hs : Steady s) :
    world.Keeps Sane Leaves (startSession sessionId arguments patience) s := by
  unfold startSession
  cases validateRepo arguments.repo with
  | error e => exact leaves_keeps _ hs
  | ok repo =>
    refine sessionPath_keeps ?_ fun e => leaves_keeps _ hs
    refine Keeps.ask steady_stable hs (fun h hh => hh.1) fun u hu => ?_
    cases hfile : u.file with
    | some existing =>
      rw [show world.answer u .load = (some existing,u) from Prod.ext hfile rfl]
      simp only [Prog.done_bind]
      split <;> exact leaves_keeps _ hu
    | none =>
      rw [show world.answer u .load = (none,u) from Prod.ext hfile rfl]
      have hidle : Idle u := by
        have := hu.2
        unfold Linked at this
        rwa [hfile] at this
      have hP := steady_stable.and idle_stable
      simp only [Prog.done_bind,Prog.request_bind]
      refine Keeps.ask hP ⟨hu,hidle⟩ (fun h hh => hh.1.1) fun v hv => ?_
      refine Keeps.ask hP hv (fun h hh => hh.1.1) fun w hw => ?_
      refine Keeps.ask hP hw (fun h hh => hh.1.1) fun x hx => ?_
      have hguards : Guards (createdRecord sessionId repo arguments (world.answer v .now).1
          (world.answer w .now).1) x := ⟨hx.2,rfl⟩
      have hsaved := save_steady hx.1.1 hguards
      have hafter : Idle (world.answer x (.save (createdRecord sessionId repo arguments
          (world.answer v .now).1 (world.answer w .now).1))).2 := hx.2
      exact launchTurn_keeps _ _ _ _ hsaved hafter

theorem sendTurn_keeps (sessionId prompt : String) (patience : Patience) (hs : Steady s) :
    world.Keeps Sane Leaves (sendTurn sessionId prompt patience) s := by
  unfold sendTurn
  refine sessionPath_keeps ?_ fun e => leaves_keeps _ hs
  refine load_keeps steady_stable hs (fun h hh => hh.1) (fun record u hu hfile => ?_)
    fun e u hu => leaves_keeps _ hu
  refine refreshed_keeps ⟨hu,hfile⟩ fun record' t ht => ?_
  split
  · exact leaves_keeps _ ht.1.1
  · next hover =>
    rw [not_or] at hover
    exact launchTurn_keeps _ prompt true patience ht.1.1 (ht.idle reads_linked ht.1 hover.1)

/-- What a call leaves; a cancellation leaves more. -/
def CallLeaves (call : Call × Patience) (r : Except Failure Reply) (t : Host) : Prop :=
  call.1 = .cancel → Cancels r t

theorem serve_keeps (sessionId : String) (call : Call × Patience) (hs : Steady s) :
    world.Keeps Sane (fun r t => Linked t ∧ CallLeaves call r t) (serve sessionId call) s := by
  have hother : call.1 ≠ .cancel → ∀ r t, Leaves r t → Linked t ∧ CallLeaves call r t :=
    fun hne _ _ ht => ⟨ht.2,fun hc => absurd hc hne⟩
  rcases call with ⟨call,patience⟩
  cases call with
  | start arguments =>
    exact (startSession_keeps sessionId arguments patience hs).mono (hother (by simp))
  | send prompt => exact (sendTurn_keeps sessionId prompt patience hs).mono (hother (by simp))
  | resume prompt =>
    exact (sendTurn_keeps sessionId (if strip prompt = "" then resumePrompt else strip prompt)
      patience hs).mono (hother (by simp))
  | getStatus => exact (getStatus_keeps sessionId hs).mono (hother (by simp))
  | getResult => exact (getResult_keeps sessionId hs).mono (hother (by simp))
  | cancel =>
    exact (cancelSession_keeps sessionId patience hs).mono fun r t ht => ⟨ht.1.2,fun _ => ht⟩

end

end Coding
end Atlas
