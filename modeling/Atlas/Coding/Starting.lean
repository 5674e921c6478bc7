import Atlas.Coding.Cancellation

/-! What a start of a coding session that launches no worker leaves in the session store. -/
namespace Atlas
namespace Coding

open Actions Dialogue World Memory

/-- The files of the sessions. -/
abbrev Store := String → Option Session

/-- Requests that launch nothing. -/
def Quiet : Request → Prop
  | .popen _ _ _ => False
  | _ => True

section

theorem sessionPath_quiet (sessionId : String) : (sessionPath sessionId).Asks Quiet := by
  unfold sessionPath
  split <;> trivial

theorem processIdentity_quiet (pid : ℕ) : (processIdentity pid).Asks Quiet := by
  unfold processIdentity
  split
  · trivial
  · exact ⟨trivial,fun _ => trivial⟩

theorem processGroupAlive_quiet (pid group : ℕ) (expected : Option ℕ) :
    (processGroupAlive pid group expected).Asks Quiet := by
  refine (processIdentity_quiet pid).bind fun identity => ?_
  split
  · trivial
  · exact ⟨trivial,fun _ => trivial⟩

theorem seenGone_quiet (pid group : ℕ) (expected : Option ℕ) (polls : ℕ) :
    (seenGone pid group expected polls).Asks Quiet := by
  induction polls with
  | zero => trivial
  | succ polls ih =>
    refine (processGroupAlive_quiet pid group expected).bind fun alive => ?_
    split
    · exact ih
    · trivial

theorem killProcessGroup_quiet (pid group : ℕ) (expected : Option ℕ) (patience : Patience) :
    (killProcessGroup pid group expected patience).Asks Quiet := by
  refine (processGroupAlive_quiet pid group expected).bind fun alive => ?_
  split
  · refine ⟨trivial,fun found => ?_⟩
    change (if found = true then _ else _ : Tool Unit).Asks Quiet
    split
    · refine (seenGone_quiet pid group expected patience.kill).bind fun gone => ?_
      split
      · trivial
      · refine (processGroupAlive_quiet pid group expected).bind fun alive => ?_
        split <;> trivial
    · trivial
  · trivial

theorem terminateProcessGroup_quiet (pid group : ℕ) (expected : Option ℕ)
    (patience : Patience) : (terminateProcessGroup pid group expected patience).Asks Quiet := by
  refine (processGroupAlive_quiet pid group expected).bind fun alive => ?_
  split
  · refine ⟨trivial,fun found => ?_⟩
    change (if found = true then _ else _ : Tool Unit).Asks Quiet
    split
    · refine (seenGone_quiet pid group expected patience.term).bind fun gone => ?_
      split
      · trivial
      · exact killProcessGroup_quiet pid group expected patience
    · trivial
  · trivial

theorem runAlive_quiet (run : RunRecord) : (runAlive run).Asks Quiet := by
  unfold runAlive
  split
  · exact processGroupAlive_quiet _ _ _
  · trivial

theorem refresh_quiet (record : Session) : (refresh record).Asks Quiet := by
  unfold refresh
  split
  · trivial
  · next run _ =>
    refine (runAlive_quiet run).bind fun running => ⟨trivial,fun events => ?_⟩
    simp only [Prog.done_bind]
    split
    · exact ⟨trivial,fun _ => ⟨trivial,fun _ => trivial⟩⟩
    · exact ⟨trivial,fun _ => trivial⟩

theorem refuseThread_quiet (record : Session) (run : RunRecord) (expected observed : String)
    (patience : Patience) : (refuseThread record run expected observed patience).Asks Quiet :=
  (terminateProcessGroup_quiet _ _ _ patience).bind fun _ =>
    ⟨trivial,fun _ => ⟨trivial,fun _ => ⟨trivial,fun _ => trivial⟩⟩⟩

theorem noteThread_quiet (record : Session) (run : RunRecord) (events : List CodexEvent)
    (thread : String) : (awaitThread.noteThread record run events thread).Asks Quiet :=
  (processGroupAlive_quiet _ _ _).bind fun _ => ⟨trivial,fun _ => trivial⟩

theorem awaitThread_quiet (record : Session) (run : RunRecord) (expected : Option String)
    (patience : Patience) (polls : ℕ) :
    (awaitThread record run expected patience polls).Asks Quiet := by
  induction polls with
  | zero => trivial
  | succ polls ih =>
    refine ⟨trivial,fun events => ?_⟩
    simp only [Prog.done_bind]
    split
    · split
      · exact refuseThread_quiet record run _ _ patience
      · exact noteThread_quiet record run events _
    · exact noteThread_quiet record run events _
    · refine (processGroupAlive_quiet _ _ _).bind fun alive => ?_
      split
      · exact ih
      · trivial

variable [CodingRuntime]

/-- A launch puts its only question to the kernel about the process once its command is fixed. -/
theorem launchTurn_asks {record : Session} {prompt : String} {resume : Bool}
    {parts : List String × String × Option String} (patience : Patience)
    (h : command record prompt resume = .ok parts) :
    ∃ k : Option ℕ → Tool Reply,
      launchTurn record prompt resume patience =
        .ask (.popen (record.runs.length + 1) parts.1 parts.2.1) k ∧
      k none = Prog.raise ⟨.osError,"Resource temporarily unavailable"⟩ ∧
      ∀ pid, (k (some pid)).Asks Quiet := by
  rcases parts with ⟨line,repo,expected⟩
  refine ⟨_,by unfold launchTurn launch; rw [h]; rfl,rfl,fun pid => ?_⟩
  refine Prog.Asks.bind ?_ fun _ => ?_
  · refine (processIdentity_quiet pid).bind fun identity => ?_
    refine ⟨trivial,fun _ => ⟨trivial,fun _ => ⟨trivial,fun _ => ?_⟩⟩⟩
    refine (awaitThread_quiet _ _ _ _ _).bind fun record => ?_
    exact refresh_quiet record
  · trivial

/-- The start is refused before anything is written. -/
def Refused (store : Store) (sessionId : String) (arguments : StartArguments) : Prop :=
  (validateRepo arguments.repo).isOk = false ∨ uuidLike sessionId = false ∨
    (store sessionId).isSome = true

/-- The prompt, the directory and the binary allow a launch. -/
def Launchable (arguments : StartArguments) : Prop :=
  strip (orEmpty arguments.prompt) ≠ "" ∧ codexBinary.isOk = true ∧
    ∃ repo, validateRepo arguments.repo = .ok repo ∧ (validateRepo (some repo)).isOk = true

omit [CodingRuntime] in
/-- Whether the kernel launches the processes that it is asked for. -/
def Launches (launches : Bool) : (q : Request) → q.Answer → Prop
  | .popen _ _ _, pid => pid.isSome = launches
  | _, _ => True

/-- Every start of a session that launches no worker raises and leaves the store as it was. -/
def AtomicStart (launches : Bool) (store : Store) (h : Host) (sessionId : String)
    (arguments : StartArguments) (patience : Patience) : Prop :=
  ∀ r t, world.Yields (Launches launches) (startSession sessionId arguments patience)
      {h with file := store sessionId} r t →
    t.launched = h.launched →
    (∃ e, r = .error e) ∧ Function.update store sessionId t.file = store

theorem command_isOk (record : Session) (prompt : String) :
    (command record prompt false).isOk = true ↔
      strip prompt ≠ "" ∧ (validateRepo record.repo).isOk = true ∧ codexBinary.isOk = true := by
  unfold command expectedThread
  by_cases hp : strip prompt = ""
  · rw [if_pos hp]
    exact ⟨fun h => (by cases h),fun h => absurd hp h.1⟩
  · rw [if_neg hp]
    cases validateRepo record.repo with
    | error e => exact ⟨fun h => (by cases h),fun h => (by cases h.2.1)⟩
    | ok repo =>
      cases codexBinary with
      | error e => exact ⟨fun h => (by cases h),fun h => (by cases h.2.2)⟩
      | ok binary => exact ⟨fun _ => ⟨hp,rfl,rfl⟩,fun _ => rfl⟩

theorem startSession_invalid {sessionId : String} {arguments : StartArguments}
    (patience : Patience) (h : (validateRepo arguments.repo).isOk = false) :
    ∃ e, startSession sessionId arguments patience = .done (.error e) := by
  unfold startSession
  cases hrepo : validateRepo arguments.repo with
  | error e => exact ⟨e,rfl⟩
  | ok repo =>
    rw [hrepo] at h
    cases h

theorem startSession_unnamed {sessionId repo : String} {arguments : StartArguments}
    (patience : Patience) (hrepo : validateRepo arguments.repo = .ok repo)
    (hid : uuidLike sessionId = false) :
    startSession sessionId arguments patience =
      .done (.error (valueError "session_id must be a UUID-like identifier")) := by
  unfold startSession sessionPath
  rw [hrepo,hid]
  rfl

theorem startSession_named {sessionId repo : String} {arguments : StartArguments}
    (patience : Patience) (hrepo : validateRepo arguments.repo = .ok repo)
    (hid : uuidLike sessionId = true) :
    startSession sessionId arguments patience = .ask .load fun existing =>
      match existing with
      | some existing =>
          if existing.status = .cancelled ∧ existing.cancelledBeforeStart = true then
            Prog.raise (valueError "Coding session was cancelled before launch")
          else Prog.raise (valueError ("Coding session already exists: " ++ sessionId))
      | none =>
          .ask .now fun createdAt => .ask .now fun updatedAt =>
            .ask (.save (createdRecord sessionId repo arguments createdAt updatedAt)) fun _ =>
              launchTurn (createdRecord sessionId repo arguments createdAt updatedAt)
                (orEmpty arguments.prompt) false patience := by
  unfold startSession sessionPath
  rw [hrepo,hid]
  refine congrArg (Prog.ask Request.load) (funext fun existing => ?_)
  cases existing with
  | none => simp only [Prog.done_bind,Prog.request_bind]
  | some existing => rfl

omit [CodingRuntime] in
theorem launched_stable (n : ℕ) : world.Stable fun h => h.launched = n := by
  intro h e hs
  change (h.stir e).launched = n
  rw [stir_launched]
  exact hs

omit [CodingRuntime] in
/-- Only a request for a process counts as a launch. -/
theorem quiet_launched {α : Type} {p : Tool α} {launches : Bool} {s t : Host}
    {r : Except Failure α} (hp : p.Asks Quiet)
    (h : world.Yields (Launches launches) p s r t) : t.launched = s.launched := by
  refine h.keeps (launched_stable s.launched) (fun u q hq hu => ?_) hp rfl
  cases q with
  | popen turn line cwd => exact hq.elim
  | _ => exact hu

omit [CodingRuntime] in
theorem spawn_some {u : Host} {turn : ℕ} (h : (u.spawn turn).1.isSome = true) :
    (u.spawn turn).2.launched = u.launched + 1 := by
  unfold Host.spawn at h ⊢
  split at h
  · cases h
  · split at h
    · next hfree => simp [Host.spawned,hfree]
    · cases h

omit [CodingRuntime] in
/-- The number that the kernel has on offer may be taken before the process is asked for. -/
theorem spawn_none (s : Host) (turn : ℕ) :
    ∃ u, world.Stirs s u ∧ u.spawn turn = (none,u) ∧ u.file = s.file ∧
      u.launched = s.launched := by
  cases hoffer : s.offer with
  | none => exact ⟨s,.refl,by unfold Host.spawn; rw [hoffer],rfl,rfl⟩
  | some offer =>
    by_cases hfree : s.free offer.pid = true
    · refine ⟨s.stir (.arrive offer.pid 0),.single ⟨.arrive offer.pid 0,rfl⟩,?_,stir_file _ _,stir_launched _ _⟩
      have hstir : s.stir (.arrive offer.pid 0) =
          {s with table := s.table ++ [⟨offer.pid,offer.pid,0,false,none⟩]} := if_pos hfree
      rw [hstir]
      unfold Host.spawn
      rw [show ({s with table := _} : Host).offer = some offer from hoffer]
      simp [Host.free]
    · exact ⟨s,.refl,by unfold Host.spawn; rw [hoffer]; simp [hfree],rfl,rfl⟩

/-- A launch that the kernel does not refuse counts. -/
theorem launchTurn_counts {record : Session} {prompt : String} {resume : Bool}
    {patience : Patience} {s t : Host} {r : Except Failure Reply}
    (hc : (command record prompt resume).isOk = true)
    (h : world.Yields (Launches true) (launchTurn record prompt resume patience) s r t) :
    t.launched = s.launched + 1 := by
  cases hparts : command record prompt resume with
  | error e =>
    rw [hparts] at hc
    cases hc
  | ok parts =>
    rcases launchTurn_asks patience hparts with ⟨k,heq,-,hquiet⟩
    rw [heq] at h
    rcases yields_ask.mp h with ⟨u,hu,hpid,hk⟩
    have hu' : u.launched = s.launched := (launched_stable s.launched).stirs hu rfl
    have hspawn := spawn_some hpid
    change (u.spawn (record.runs.length + 1)).1.isSome = true at hpid
    change world.Yields _ (k (u.spawn (record.runs.length + 1)).1)
      (u.spawn (record.runs.length + 1)).2 r t at hk
    rcases Option.isSome_iff_exists.mp hpid with ⟨pid,hpid⟩
    rw [hpid] at hk
    rw [quiet_launched (hquiet pid) hk,hspawn,hu']

/-- A launch may fail, and then nothing has changed, where the command cannot be built or the
kernel refuses. -/
theorem launchTurn_fails {launches : Bool} {record : Session} {prompt : String}
    (patience : Patience) (s : Host)
    (h : (command record prompt false).isOk = false ∨ launches = false) :
    ∃ e t, world.Yields (Launches launches) (launchTurn record prompt false patience) s
      (.error e) t ∧ t.file = s.file ∧ t.launched = s.launched := by
  cases hparts : command record prompt false with
  | error e =>
    refine ⟨e,s,?_,rfl,rfl⟩
    unfold launchTurn launch
    rw [hparts]
    exact .done .refl
  | ok parts =>
    rcases h with h | rfl
    · rw [hparts] at h
      cases h
    · rcases launchTurn_asks patience hparts with ⟨k,heq,hnone,-⟩
      rcases spawn_none s (record.runs.length + 1) with ⟨u,hu,hspawn,hfile,hlaunched⟩
      have hanswer : world.answer u (.popen (record.runs.length + 1) parts.1 parts.2.1) =
        (none,u) := hspawn
      refine ⟨⟨.osError,"Resource temporarily unavailable"⟩,u,?_,hfile,hlaunched⟩
      rw [heq]
      refine .ask hu ?_ ?_
      · rw [hanswer]
        rfl
      · rw [hanswer,hnone]
        exact .done .refl

variable {launches : Bool} {store : Store} {h : Host} {sessionId : String}
  {arguments : StartArguments} {patience : Patience}

theorem atomic_refused (hr : Refused store sessionId arguments) :
    AtomicStart launches store h sessionId arguments patience := by
  intro r t hrun _
  have hdone : ∀ {e : Failure} {u : Host}, u.file = store sessionId →
      world.Yields (Launches launches) (.done (.error e)) u r t →
      (∃ e, r = .error e) ∧ Function.update store sessionId t.file = store := by
    intro e u hu hrun
    rcases yields_done.mp hrun with ⟨rfl,hst⟩
    have hfile : t.file = store sessionId := (file_stable (store sessionId)).stirs hst hu
    exact ⟨⟨e,rfl⟩,by rw [hfile,Function.update_eq_self]⟩
  cases hrepo : validateRepo arguments.repo with
  | error e =>
    have hinvalid : ∃ e, startSession sessionId arguments patience = .done (.error e) :=
      startSession_invalid patience (by rw [hrepo]; rfl)
    rcases hinvalid with ⟨e,he⟩
    rw [he] at hrun
    exact hdone rfl hrun
  | ok repo =>
    cases hid : uuidLike sessionId with
    | false =>
      rw [startSession_unnamed patience hrepo hid] at hrun
      exact hdone rfl hrun
    | true =>
      rw [startSession_named patience hrepo hid] at hrun
      rcases yields_ask.mp hrun with ⟨u,hst,-,hk⟩
      have hu : u.file = store sessionId := (file_stable (store sessionId)).stirs hst rfl
      have hsome : (store sessionId).isSome = true := by
        rcases hr with hr | hr | hr
        · rw [hrepo] at hr
          cases hr
        · rw [hid] at hr
          cases hr
        · exact hr
      cases hfile : store sessionId with
      | none =>
        rw [hfile] at hsome
        cases hsome
      | some existing =>
        rw [show world.answer u .load = (some existing,u) from
          Prod.ext (hu.trans hfile) rfl] at hk
        simp only at hk
        split at hk
        · exact hdone hu hk
        · exact hdone hu hk

/-- A start that may go on launches a worker whenever the kernel launches processes. -/
theorem atomic_launchable (hl : Launchable arguments) :
    AtomicStart true store h sessionId arguments patience := by
  by_cases hr : Refused store sessionId arguments
  · exact atomic_refused hr
  rcases hl with ⟨hprompt,hbinary,repo,hrepo,hagain⟩
  have hid : uuidLike sessionId = true := by
    by_contra hid
    exact hr (.inr (.inl (Bool.eq_false_iff.mpr hid)))
  have hfile : store sessionId = none := by
    by_contra hfile
    exact hr (.inr (.inr (Option.isSome_iff_ne_none.mpr hfile)))
  intro r t hrun hlaunched
  rw [startSession_named patience hrepo hid] at hrun
  rcases yields_ask.mp hrun with ⟨u,hu,-,hk⟩
  have hnone : world.answer u .load = (none,u) :=
    Prod.ext (((file_stable (store sessionId)).stirs hu rfl).trans hfile) rfl
  have hu' : u.launched = h.launched := (launched_stable h.launched).stirs hu rfl
  rw [hnone] at hk
  rcases yields_ask.mp hk with ⟨v,hv,-,hk⟩
  have hv' : v.launched = h.launched := (launched_stable h.launched).stirs hv hu'
  rcases yields_ask.mp hk with ⟨w,hw,-,hk⟩
  have hw' : w.launched = h.launched := (launched_stable h.launched).stirs hw hv'
  rcases yields_ask.mp hk with ⟨x,hx,-,hk⟩
  have hx' : x.launched = h.launched := (launched_stable h.launched).stirs hx hw'
  have hx' : x.launched = h.launched := (launched_stable h.launched).stirs hx hw'
  have hcommand : ∀ c u, (command (createdRecord sessionId repo arguments c u)
      (orEmpty arguments.prompt) false).isOk = true :=
    fun c u => (command_isOk _ _).mpr ⟨hprompt,hagain,hbinary⟩
  have hcounts := launchTurn_counts (hcommand _ _) hk
  rw [hlaunched] at hcounts
  exact absurd (hcounts.trans (congrArg (· + 1) hx')) (by simp)

/-- A start that goes on to the launch leaves its record behind when the launch fails. -/
theorem not_atomic (hr : ¬Refused store sessionId arguments)
    (hl : ¬(launches = true ∧ Launchable arguments)) :
    ¬AtomicStart launches store h sessionId arguments patience := by
  intro hatomic
  cases hrepo : validateRepo arguments.repo with
  | error e => exact hr (.inl (by rw [hrepo]; rfl))
  | ok repo =>
    have hid : uuidLike sessionId = true := by
      by_contra hid
      exact hr (.inr (.inl (Bool.eq_false_iff.mpr hid)))
    have hfile : store sessionId = none := by
      by_contra hfile
      exact hr (.inr (.inr (Option.isSome_iff_ne_none.mpr hfile)))
    let record := createdRecord sessionId repo arguments h.clock h.clock
    have hfails : (command record (orEmpty arguments.prompt) false).isOk = false ∨
        launches = false := by
      by_contra hn
      rw [not_or,Bool.not_eq_false,Bool.not_eq_false] at hn
      rcases (command_isOk _ _).mp hn.1 with ⟨hprompt,hagain,hbinary⟩
      exact hl ⟨hn.2,hprompt,hbinary,repo,hrepo,hagain⟩
    rcases launchTurn_fails patience {h with file := some record} hfails with
      ⟨e,t,hrun,hkept,hlaunched⟩
    have hstart : world.Yields (Launches launches)
        (startSession sessionId arguments patience) {h with file := store sessionId}
        (.error e) t := by
      rw [startSession_named patience hrepo hid,hfile]
      refine .ask .refl trivial (.ask .refl trivial (.ask .refl trivial (.ask .refl trivial ?_)))
      exact hrun
    have hstore := congrFun (hatomic _ t hstart hlaunched).2 sessionId
    rw [Function.update_self,hkept,hfile] at hstore
    cases hstore

/-- Every start that launches nothing leaves the store as it was just when it is refused before
anything is written, or when nothing that is looked at later can make it fail. -/
theorem start_atomic_iff (launches : Bool) (store : Store) (h : Host) (sessionId : String)
    (arguments : StartArguments) (patience : Patience) :
    AtomicStart launches store h sessionId arguments patience ↔
      Refused store sessionId arguments ∨ (launches = true ∧ Launchable arguments) := by
  constructor
  · intro hatomic
    by_contra hn
    rw [not_or] at hn
    exact not_atomic hn.1 hn.2 hatomic
  · rintro (hr | ⟨rfl,hl⟩)
    · exact atomic_refused hr
    · exact atomic_launchable hl

/-- A session that has a file is not started. -/
theorem startSession_taken {repo : String} {existing : Session} {s t : Host}
    {r : Except Failure Reply} (hrepo : validateRepo arguments.repo = .ok repo)
    (hid : uuidLike sessionId = true) (hfile : s.file = some existing)
    (hstatus : existing.status ≠ .cancelled)
    (h : world.Yields (Launches launches) (startSession sessionId arguments patience) s r t) :
    r = .error (valueError ("Coding session already exists: " ++ sessionId)) := by
  rw [startSession_named patience hrepo hid] at h
  rcases yields_ask.mp h with ⟨u,hu,-,hk⟩
  rw [show world.answer u .load = (some existing,u) from
    Prod.ext ((file_stable (some existing)).stirs hu hfile) rfl] at hk
  simp only [hstatus,false_and,if_false] at hk
  exact (yields_done.mp hk).1

end

/-- The arguments of a start below the approved root. -/
def startIn (prompt : Option String) : StartArguments where
  repo := some "/home/jaco/Projects"
  prompt := prompt

/-- A start without a prompt raises, and its session cannot be started after it. -/
theorem failed_start_kept : letI := plainCoding;
    ∃ t : Host, world.Yields (Launches true) (startSession "abc" (startIn none) ⟨1,1,1⟩) {}
        (.error (valueError "prompt is required")) t ∧
      t.launched = ({} : Host).launched ∧ t.file ≠ ({} : Host).file ∧
      ∀ r u, world.Yields (Launches true)
          (startSession "abc" (startIn (some "Do it")) ⟨1,1,1⟩) t r u →
        r = .error (valueError "Coding session already exists: abc") := by
  let := plainCoding
  have happroved : validateRepo (some "/home/jaco/Projects") = .ok "/home/jaco/Projects" := by
    decide +kernel
  have hrepo : ∀ prompt, validateRepo (startIn prompt).repo = .ok "/home/jaco/Projects" :=
    fun _ => happroved
  let record := createdRecord "abc" "/home/jaco/Projects" (startIn none) 0 0
  refine ⟨{file := some record},?_,rfl,by simp,fun r u h => ?_⟩
  · rw [startSession_named ⟨1,1,1⟩ (hrepo none) (by decide +kernel)]
    refine .ask .refl trivial (.ask .refl trivial (.ask .refl trivial (.ask .refl trivial ?_)))
    exact .done .refl
  · exact startSession_taken (hrepo _) (by decide +kernel) rfl (by decide) h

end Coding
end Atlas
