import Atlas.Coding.Calls

/-! When the cancellation of a coding session is final. A call that looks at a cancelled session
again writes what its log says over the status, and a turn may then be launched for it. -/
namespace Atlas
namespace Coding

open Actions Dialogue World Memory

/-- A host on which the session is not known yet. -/
structure Fresh (m : Bridge) : Prop where
  thread : m.thread = none
  file : m.host.file = none
  pids : (m.host.table.map (·.pid)).Nodup
  foreign : ∀ p ∈ m.host.table, p.turn = none

/-- A call of `cancel_session` returns the status `cancelled`. -/
def ReturnsCancelled (m : Bridge) : Prop :=
  ∃ patience answer, m.thread = some ((.cancel,patience),.done (.ok answer)) ∧
    answer.view.status = .cancelled

def resumeText (prompt : String) : String :=
  if strip prompt = "" then resumePrompt else strip prompt

section

variable [CodingRuntime]

/-- Whether a turn with the prompt could be launched for the session. -/
def launchable (h : Host) (record : Session) (run : RunRecord) (prompt : String) : Bool :=
  (command {record with
    codexThreadId := (truthy (threadId (h.logs run.logPath))).or record.codexThreadId}
    prompt true).isOk

/-- The calls that bring back a session which was cancelled after a turn was launched for it. -/
def Disturbs (h : Host) (call : Call) : Prop :=
  ∃ record run, h.file = some record ∧ record.status = .cancelled ∧
    record.runs.getLast? = some run ∧
    match call with
    | .start _ => False
    | .getStatus => True
    | .getResult => True
    | .cancel => (outcome (h.logs run.logPath)).isSome
    | .send prompt => launchable h record run prompt
    | .resume prompt => launchable h record run (resumeText prompt)

/-- No call brings a cancelled session back. -/
def Calm (m : Bridge) (a : BridgeStep) : Prop :=
  ∀ call, a = .begin call → m.thread = none → ¬Disturbs m.host call.1

end

/-- The session is cancelled for good and no process has been launched since. -/
def Held (launched : ℕ) (h : Host) : Prop :=
  (∃ record, Sealed record h) ∧ h.launched = launched

/-- A cancelled session as a call has found it. -/
structure Found (record : Session) (launched : ℕ) (logs : ℕ → List CodexEvent) (h : Host) :
    Prop where
  sealed : Sealed record h
  launched : h.launched = launched
  logs : h.logs = logs

theorem Found.held {record : Session} {launched : ℕ} {logs : ℕ → List CodexEvent} (h : Host)
    (hf : Found record launched logs h) : Held launched h := ⟨⟨record,hf.sealed⟩,hf.launched⟩

/-- Only a live worker writes to a log. -/
theorem stir_logs {h : Host} (hi : Idle h) (e : Happening) : (h.stir e).logs = h.logs := by
  have hnone : ∀ turn, h.table.any (Host.works · turn) = false := by
    intro turn
    rw [List.any_eq_false]
    intro p hp hw
    simp only [Host.works,Bool.and_eq_true,Bool.not_eq_true',beq_iff_eq] at hw
    exact hi p hp ⟨hw.1,by rw [hw.2]; rfl⟩
  cases e <;> simp only [Host.stir,hnone] <;> (repeat' split) <;> first | rfl | contradiction

theorem found_stable (record : Session) (launched : ℕ) (logs : ℕ → List CodexEvent) :
    world.Stable (Found record launched logs) := fun h e hf =>
  ⟨sealed_stable record h e hf.sealed,(stir_launched h e).trans hf.launched,
   (stir_logs hf.sealed.idle e).trans hf.logs⟩

theorem held_stable (launched : ℕ) : world.Stable (Held launched) := by
  rintro h e ⟨⟨record,hs⟩,hl⟩
  exact ⟨⟨record,sealed_stable record h e hs⟩,(stir_launched h e).trans hl⟩

section

variable {s : Host} {record : Session} {launched : ℕ} {logs : ℕ → List CodexEvent}

theorem held_keeps (r : Except Failure Reply) (hs : Held launched s) :
    world.Keeps (Held launched) (fun _ => Held launched) (.done r) s :=
  Keeps.done (held_stable launched) hs fun _ hu => ⟨hu,hu⟩

theorem found_keeps (r : Except Failure Reply) (hs : Found record launched logs s) :
    world.Keeps (Held launched) (fun _ => Held launched) (.done r) s :=
  held_keeps r hs.held

/-- A cancelled record that is written again keeps the session cancelled. -/
theorem save_held {record' : Session} (hs : Found record launched logs s)
    (hst : record'.status = .cancelled)
    (hth : record'.runs = [] → record'.codexThreadId = none) :
    Held launched (world.answer s (.save record')).2 :=
  ⟨⟨record',rfl,hst,hth,hs.sealed.idle⟩,hs.launched⟩

theorem refresh_unstarted (h : record.runs.getLast? = none) : refresh record = pure record := by
  unfold refresh
  rw [h]

theorem read_keeps {sessionId : String} {f : Session → Tool Reply}
    (hs : Found record launched logs s)
    (hf : ∀ u, Found record launched logs u →
      world.Keeps (Held launched) (fun _ => Held launched) (f record) u) :
    world.Keeps (Held launched) (fun _ => Held launched)
      (sessionPath sessionId >>= fun _ => load sessionId >>= f) s := by
  refine sessionPath_keeps ?_ fun e => found_keeps _ hs
  refine load_keeps (found_stable _ _ _) hs Found.held (fun record' u hu hfile => ?_)
    fun e u hu => found_keeps _ hu
  rw [show record' = record from Option.some.inj (hfile.symm.trans hu.sealed.file)]
  exact hf u hu

theorem getStatus_held (sessionId : String) (hs : Found record launched logs s)
    (hrun : record.runs.getLast? = none) :
    world.Keeps (Held launched) (fun _ => Held launched) (getStatus sessionId) s := by
  refine read_keeps hs fun u hu => ?_
  rw [refresh_unstarted hrun,Prog.pure_bind]
  exact Keeps.ask (found_stable _ _ _) hu Found.held fun v hv =>
    held_keeps _ (save_held hv hv.sealed.status hv.sealed.thread)

theorem getResult_held (sessionId : String) (hs : Found record launched logs s)
    (hrun : record.runs.getLast? = none) :
    world.Keeps (Held launched) (fun _ => Held launched) (getResult sessionId) s := by
  refine read_keeps hs fun u hu => ?_
  rw [refresh_unstarted hrun,Prog.pure_bind]
  refine Keeps.ask (found_stable _ _ _) hu Found.held fun v hv => ?_
  have hsave := save_held hv hv.sealed.status hv.sealed.thread
  simp only [Prog.done_bind,hrun]
  exact held_keeps _ hsave

/-- What the log of a session that nobody works on shows does not change. -/
theorem refresh_found {run : RunRecord} (hs : Found record launched logs s)
    (hrun : record.runs.getLast? = some run) {f : Session → Tool Reply}
    (hf : ∀ running finishedAt updatedAt u, Found record launched logs u →
      world.Keeps (Held launched) (fun _ => Held launched)
        (f (record.observed run running (logs run.logPath) finishedAt updatedAt)) u) :
    world.Keeps (Held launched) (fun _ => Held launched) (refresh record >>= f) s := by
  refine (refresh_keeps (found_stable record launched logs) Found.held hs record).bind_returns
    fun record' t ht => ?_
  rcases ht with ⟨ht,h⟩
  rw [hrun] at h
  rcases h with ⟨running,finishedAt,updatedAt,u,hu,-,rfl⟩
  rw [hu.logs]
  exact hf running finishedAt updatedAt t ht

theorem eventStatus_cancellable {events : List CodexEvent} (running : Bool)
    (h : outcome events = none) : cancellable.contains (eventStatus events running) = true := by
  unfold eventStatus
  cases running with
  | true => rfl
  | false => simp [h,cancellable]

theorem stopRun_found (run : RunRecord) (patience : Patience) (hs : Found record launched logs s) :
    world.Keeps (Held launched) (fun _ => Found record launched logs) (stopRun run patience) s := by
  unfold stopRun
  split
  · exact (terminateProcessGroup_keeps (found_stable record launched logs) Found.held hs run.pid
      run.group run.procStartTime patience).mono fun _ _ ht => ht.1
  · exact Keeps.done (found_stable record launched logs) hs fun _ hu => ⟨hu.held,hu⟩

theorem finishTime_found (run : RunRecord) (hs : Found record launched logs s) :
    world.Keeps (Held launched) (fun _ => Found record launched logs) (finishTime run) s := by
  unfold finishTime
  split
  · exact Keeps.ask (found_stable record launched logs) hs Found.held fun u hu =>
      Keeps.done (found_stable record launched logs) hu fun _ hv => ⟨hv.held,hv⟩
  · exact Keeps.done (found_stable record launched logs) hs fun _ hu => ⟨hu.held,hu⟩

/-- A record that is marked cancelled once more and written. -/
theorem rewrite_held {record' : Session} (hs : Found record launched logs s)
    (hst : record'.status = .cancelled)
    (hth : record'.runs = [] → record'.codexThreadId = none) :
    world.Keeps (Held launched) (fun _ => Held launched) (do
      let updatedAt ← Prog.request Request.now
      let final : Session := {record' with updatedAt := updatedAt}
      Prog.request (Request.save final)
      return reply final : Tool Reply) s := by
  refine Keeps.ask (found_stable record launched logs) hs Found.held fun u hu => ?_
  refine Keeps.ask (found_stable record launched logs) hu Found.held fun v hv => ?_
  exact held_keeps _ (save_held hv hst hth)

theorem cancelSession_held (sessionId : String) (patience : Patience)
    (hs : Found record launched logs s)
    (hrun : ∀ run, record.runs.getLast? = some run → outcome (logs run.logPath) = none) :
    world.Keeps (Held launched) (fun _ => Held launched) (cancelSession sessionId patience) s := by
  unfold cancelSession
  refine sessionPath_keeps ?_ fun e => found_keeps _ hs
  refine Keeps.ask (found_stable _ _ _) hs Found.held fun u hu => ?_
  rw [show world.answer u .load = (some record,u) from Prod.ext hu.sealed.file rfl]
  simp only [Prog.done_bind]
  cases hlast : record.runs.getLast? with
  | none =>
    have hsettle : settle record patience = pure record := by
      unfold settle
      rw [hu.sealed.status]
      rfl
    rw [refresh_unstarted hlast,Prog.pure_bind,hsettle,Prog.pure_bind]
    exact rewrite_held hu hu.sealed.status hu.sealed.thread
  | some run =>
    refine refresh_found hu hlast fun running finishedAt updatedAt t ht => ?_
    have hlatest : (record.observed run running (logs run.logPath) finishedAt
        updatedAt).runs.getLast? = some (run.observe (logs run.logPath)
          (eventStatus (logs run.logPath) running) finishedAt) := by
      simp [Session.observed,Session.amend]
    generalize record.observed run running (logs run.logPath) finishedAt updatedAt = record',
      hrec : record.observed run running (logs run.logPath) finishedAt updatedAt = record'
      at hlatest ⊢
    have hsettle : settle record' patience = stopLatest record' patience := by
      rw [← hrec]
      exact if_pos (eventStatus_cancellable running (hrun run hlast))
    rw [hsettle]
    unfold stopLatest
    rw [hlatest]
    refine Keeps.bind (M := fun r t => Found record launched logs t ∧
      ∀ final, r = .ok final → final.status = .cancelled ∧ final.runs ≠ []) ?_
      (fun final v hv => rewrite_held hv.1 (hv.2 final rfl).1 fun h => absurd h (hv.2 final rfl).2)
      fun e v hv => hv.1.held
    refine (stopRun_found _ patience ht).bind (fun _ v hv => ?_) fun _ v hv =>
      ⟨hv,fun _ h => by cases h⟩
    refine (finishTime_found _ hv).bind (fun _ w hw => ?_) fun _ w hw =>
      ⟨hw,fun _ h => by cases h⟩
    refine Keeps.done (found_stable record launched logs) hw fun x hx => ⟨hx.held,hx,?_⟩
    intro final h
    rw [← Except.ok.inj h]
    exact ⟨rfl,by simp [Session.cancelled,Session.amend]⟩

variable [CodingRuntime]

theorem launchTurn_refused {prompt : String} (patience : Patience)
    (h : (command record prompt true).isOk = false) :
    ∃ e, launchTurn record prompt true patience = .done (.error e) := by
  unfold launchTurn launch
  cases hc : command record prompt true with
  | ok parts =>
    rw [hc] at h
    cases h
  | error e => exact ⟨e,rfl⟩

/-- A session without a thread cannot be resumed. -/
theorem command_unstarted (prompt : String) (h : record.codexThreadId = none) :
    (command record prompt true).isOk = false := by
  have hthread : expectedThread record true = .error (valueError
      "Codex thread id is not available yet; wait for the current turn to start") := by
    unfold expectedThread
    rw [if_pos rfl,h]
    exact if_pos (by decide)
  unfold command
  rw [hthread]
  split
  · rfl
  · cases validateRepo record.repo with
    | error e => rfl
    | ok repo =>
      cases codexBinary with
      | error e => rfl
      | ok binary => rfl

theorem sendTurn_held (sessionId prompt : String) (patience : Patience)
    (hs : Found record launched logs s)
    (hrun : ∀ run, record.runs.getLast? = some run → (command {record with
      codexThreadId := (truthy (threadId (logs run.logPath))).or record.codexThreadId}
        prompt true).isOk = false) :
    world.Keeps (Held launched) (fun _ => Held launched)
      (sendTurn sessionId prompt patience) s := by
  have hrefused : ∀ {record' : Session} {t}, Found record launched logs t →
      (command record' prompt true).isOk = false →
      world.Keeps (Held launched) (fun _ => Held launched)
        (if record'.status = .running ∨ record'.status = .starting then
          Prog.raise (valueError "The coding session already has an active Codex turn")
        else launchTurn record' prompt true patience) t := by
    intro record' t ht h
    split
    · exact found_keeps _ ht
    · rcases launchTurn_refused patience h with ⟨e,he⟩
      rw [he]
      exact found_keeps _ ht
  refine read_keeps hs fun u hu => ?_
  cases hlast : record.runs.getLast? with
  | none =>
    rw [refresh_unstarted hlast,Prog.pure_bind]
    refine hrefused hu (command_unstarted prompt (hu.sealed.thread ?_))
    simpa using hlast
  | some run =>
    exact refresh_found hu hlast fun running finishedAt updatedAt t ht =>
      hrefused ht (hrun run hlast)

theorem startSession_held (sessionId : String) (arguments : StartArguments)
    (patience : Patience) (hs : Found record launched logs s) :
    world.Keeps (Held launched) (fun _ => Held launched)
      (startSession sessionId arguments patience) s := by
  unfold startSession
  cases validateRepo arguments.repo with
  | error e => exact found_keeps _ hs
  | ok repo =>
    refine sessionPath_keeps ?_ fun e => found_keeps _ hs
    refine Keeps.ask (found_stable _ _ _) hs Found.held fun u hu => ?_
    rw [show world.answer u .load = (some record,u) from Prod.ext hu.sealed.file rfl]
    simp only [Prog.done_bind]
    split <;> exact found_keeps _ hu

/-- A call that does not disturb a cancelled session leaves it cancelled. -/
theorem serve_held (sessionId : String) (call : Call × Patience) (hs : Held launched s)
    (hcalm : ¬Disturbs s call.1) :
    world.Keeps (Held launched) (fun _ => Held launched) (serve sessionId call) s := by
  rcases hs with ⟨⟨record,hsealed⟩,hl⟩
  have hfound : Found record launched s.logs s := ⟨hsealed,hl,rfl⟩
  have hd : ∀ run, record.runs.getLast? = some run → ¬_ := fun run hrun hcall =>
    hcalm ⟨record,run,hsealed.file,hsealed.status,hrun,hcall⟩
  rcases call with ⟨call,patience⟩
  cases call with
  | start arguments => exact startSession_held sessionId arguments patience hfound
  | send prompt =>
    exact sendTurn_held sessionId prompt patience hfound fun run hrun =>
      Bool.not_eq_true _ ▸ hd run hrun
  | resume prompt =>
    exact sendTurn_held sessionId (resumeText prompt) patience hfound fun run hrun =>
      Bool.not_eq_true _ ▸ hd run hrun
  | getStatus =>
    refine getStatus_held sessionId hfound ?_
    cases hrun : record.runs.getLast? with
    | none => rfl
    | some run => exact absurd trivial (hd run hrun)
  | getResult =>
    refine getResult_held sessionId hfound ?_
    cases hrun : record.runs.getLast? with
    | none => rfl
    | some run => exact absurd trivial (hd run hrun)
  | cancel =>
    refine cancelSession_held sessionId patience hfound fun run hrun => ?_
    have := hd run hrun
    simpa using this

end

section

variable [CodingRuntime]

omit [CodingRuntime] in
theorem Fresh.sound {m : Bridge} (h : Fresh m) : m.Sound world Sane Linked CallLeaves := by
  have hidle : Idle m.host := fun p hp hw => by
    have := hw.2
    rw [h.foreign p hp] at this
    cases this
  unfold Served.Sound Linked
  rw [h.thread,h.file]
  exact ⟨⟨h.pids,fun p hp q hq hpw => absurd hpw (hidle p hp)⟩,hidle⟩

theorem step_sound (sessionId : String) (m : Bridge) (a : BridgeStep)
    (h : m.Sound world Sane Linked CallLeaves) :
    (step sessionId m a).Sound world Sane Linked CallLeaves :=
  h.step sane_stable linked_stable a fun call _ _ hI hJ => serve_keeps sessionId call ⟨hI,hJ⟩

theorem reach_sound {sessionId : String} {m : Bridge}
    (h : Trace.Reach (step sessionId) (fun _ _ => True) Fresh m) :
    m.Sound world Sane Linked CallLeaves :=
  h.invariant (fun _ hm => hm.sound) fun m a hm _ => step_sound sessionId m a hm

/-- From the end of a cancellation on, steps that do not disturb it keep the session cancelled. -/
theorem path_held {sessionId : String} {launched : ℕ} {m m' : Bridge}
    (h : Trace.Path (step sessionId) Calm m m')
    (hm : m.Sound world (Held launched) (Held launched) fun _ _ _ => True) :
    m'.Sound world (Held launched) (Held launched) fun _ _ _ => True := by
  induction h with
  | refl => exact hm
  | @tail t a _ hcalm ih =>
    refine ih.step (held_stable launched) (held_stable launched) a fun call ha hn hI _ => ?_
    exact (serve_held sessionId call hI (hcalm call ha hn)).mono fun _ _ ht => ⟨ht,trivial⟩

/-- At most one worker of a session is ever alive. Once a cancellation has returned, the session
stays cancelled and nothing is launched for it as long as no call disturbs it. -/
theorem coding_cancellation (sessionId : String) :
    (∀ m : Bridge, Trace.Reach (step sessionId) (fun _ _ => True) Fresh m → OneWorker m.host) ∧
      ∀ m m' : Bridge, Trace.Reach (step sessionId) (fun _ _ => True) Fresh m →
        ReturnsCancelled m → Trace.Path (step sessionId) Calm (step sessionId m .finish) m' →
        (∃ record, m'.host.file = some record ∧ record.status = .cancelled) ∧
          m'.host.launched = m.host.launched := by
  refine ⟨fun m hm => (reach_sound hm).invariant.one,fun m m' hm hc hp => ?_⟩
  rcases hc with ⟨patience,answer,hthread,hst⟩
  have hover := ((reach_sound hm).over hthread).2.2 rfl
  rcases hover.2 answer rfl hst with ⟨record,hsealed⟩
  have hstart : (step sessionId m .finish).Sound world (Held m.host.launched)
      (Held m.host.launched) fun _ _ _ => True := by
    unfold Served.Sound
    simp only [step,Served.step,hthread]
    exact ⟨⟨⟨record,hsealed⟩,rfl⟩,⟨record,hsealed⟩,rfl⟩
  rcases (path_held hp hstart).invariant with ⟨⟨final,hfinal⟩,hlaunched⟩
  exact ⟨⟨final,hfinal.file,hfinal.status⟩,hlaunched⟩

end

/-- A system to evaluate the bridge on: every path is a directory below the approved root. -/
@[reducible] def plainCoding : CodingRuntime where
  resolve path := path
  isDir _ := true
  isRelativeTo _ _ := true
  allowedRoots := ["/home/jaco/Projects"]
  codexBin := "/usr/bin/codex"
  executable _ := true

/-- Whether a call of `cancel_session` returns the status `cancelled`. -/
def returnsCancelled (m : Bridge) : Bool :=
  match m.thread with
  | some ((.cancel,_),.done (.ok answer)) => answer.view.status == .cancelled
  | _ => false

theorem ReturnsCancelled.of_returns {m : Bridge} (h : returnsCancelled m = true) :
    ReturnsCancelled m := by
  unfold returnsCancelled at h
  split at h
  · next patience answer hm => exact ⟨patience,answer,hm,by simpa using h⟩
  · cases h

def freshBridge : Bridge := {host := {}}

theorem freshBridge_fresh : Fresh freshBridge := ⟨rfl,rfl,List.nodup_nil,fun _ hp => by cases hp⟩

/-- A session is started, its thread is reported, and it is cancelled while its worker ends. -/
def cancelledRun : List BridgeStep :=
  let patience : Patience := ⟨1,1,1⟩
  ([.stir (.offer 7 100),
    .begin (.start {repo := some "/home/jaco/Projects", prompt := some "Do it"},patience)] :
    List BridgeStep) ++
  (List.replicate 10 .proceed : List BridgeStep) ++
  ([.stir (.output 1 {type := some "thread.started", threadId := some "thread"})] :
    List BridgeStep) ++
  (List.replicate 6 .proceed : List BridgeStep) ++
  ([.finish,.begin (.cancel,patience)] : List BridgeStep) ++
  (List.replicate 6 .proceed : List BridgeStep) ++
  ([.stir (.exit 7),.stir (.reap 7)] : List BridgeStep) ++
  (List.replicate 5 .proceed : List BridgeStep)

/-- The status is asked for and the session resumed. -/
def resumedRun : List BridgeStep :=
  let patience : Patience := ⟨1,1,1⟩
  ([.finish,.begin (.getStatus,patience)] : List BridgeStep) ++
  (List.replicate 6 .proceed : List BridgeStep) ++
  ([.finish,.stir (.offer 8 200),.begin (.resume "",patience)] : List BridgeStep) ++
  (List.replicate 8 .proceed : List BridgeStep)

def cancelledBridge : Bridge :=
  letI := plainCoding
  cancelledRun.foldl (step "abc") freshBridge

theorem cancelledBridge_reach : letI := plainCoding;
    Trace.Reach (step "abc") (fun _ _ => True) Fresh cancelledBridge :=
  letI := plainCoding
  (Trace.Reach.start freshBridge_fresh).steps cancelledRun

theorem coding_cancellation_started_again : letI := plainCoding;
    OneWorker cancelledBridge.host ∧
      (∃ record, (step "abc" (step "abc" cancelledBridge .finish)
        (.begin (.start ⟨none,none,none,none⟩,⟨1,1,1⟩))).host.file = some record ∧
        record.status = .cancelled) := by
  let := plainCoding
  have h := coding_cancellation "abc"
  refine ⟨h.1 _ cancelledBridge_reach,(h.2 cancelledBridge _ cancelledBridge_reach
    (.of_returns (by decide +kernel)) (.tail .refl ?_)).1⟩
  intro call hc _
  cases hc
  rintro ⟨record,run,-,-,-,hf⟩
  exact hf

/-- A status call and a resumption bring a cancelled session back. -/
theorem cancelled_session_resumed : letI := plainCoding;
    ∃ (m : Bridge) (later : List BridgeStep),
      Trace.Reach (step "abc") (fun _ _ => True) Fresh m ∧ ReturnsCancelled m ∧
        (¬∃ record, (later.foldl (step "abc") m).host.file = some record ∧
          record.status = .cancelled) ∧
        (later.foldl (step "abc") m).host.launched ≠ m.host.launched := by
  have hother : ∀ file : Option Session,
      (file.all fun record => record.status != .cancelled) = true →
      ¬∃ record, file = some record ∧ record.status = .cancelled := by
    rintro file h ⟨record,rfl,hst⟩
    rw [Option.all_some,hst] at h
    cases h
  obtain ⟨hreturns,hfile,hlaunched⟩ : letI := plainCoding
    returnsCancelled cancelledBridge = true ∧
      ((resumedRun.foldl (step "abc") cancelledBridge).host.file.all fun record =>
        record.status != .cancelled) = true ∧
      (resumedRun.foldl (step "abc") cancelledBridge).host.launched ≠
        cancelledBridge.host.launched := by
    decide +kernel
  exact ⟨cancelledBridge,resumedRun,cancelledBridge_reach,.of_returns hreturns,hother _ hfile,
    hlaunched⟩

end Coding
end Atlas
