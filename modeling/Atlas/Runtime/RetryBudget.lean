import Atlas.Lib.Endings
import Atlas.Runtime.Completion

/-! When the outcomes of its iterations stall a managed task. -/
namespace Atlas
namespace Runtime

open Memory (TranscriptRow)
open Actions Endings

/-- `max(low, min(int(value), high))`, or the default where the setting is no number. -/
def limitOf (low high default : ℕ) (value : Option ℤ) : ℕ :=
  match value with
  | none => default
  | some n => (max (low : ℤ) (min n high)).toNat

/-- `_poll_seconds`, `_max_no_progress` and `_max_transient_failures`. -/
def retryLimits (poll noProgress transient : Option ℤ) : RetryLimits where
  pollSeconds := limitOf 5 300 15 poll
  maxNoProgress := limitOf 1 10 3 noProgress
  maxTransientFailures := limitOf 1 200 48 transient

/-- What happens to a managed task between the outcomes of its iterations, and these. -/
inductive RetryStep where
  | outcome (fresh : String) (outcome : IterationOutcome)
  | resume (fresh wakeAt : String)
  | claim (fresh : String) (runId : ℕ)
  | delta (fresh : String) (delta : TaskStateDelta)
  | event (fresh : String) (event : RuntimeEvent)
  | removal (fresh : String) (resolved : List String)

def stalled (state : Dict) : Bool :=
  Dict.text (part state "runtime") "controller_state" == some "stalled"

/-- Whether the worker may take up the task. -/
def takesUp (state : Dict) : Bool :=
  Dict.text state "status" == some "active" && (pendingActions state).isEmpty && !stalled state

def IterationOutcome.transientFailure (outcome : IterationOutcome) : Bool :=
  !outcome.succeeded && outcome.transient

/-- How an iteration counts. -/
inductive Mark where
  | progress
  | idle
  | transient
  deriving Repr, DecidableEq

section

variable [ActionRuntime]

def foldRetry (limits : RetryLimits) (row : TranscriptRow) : RetryStep → TranscriptRow
  | .outcome fresh outcome => foldEvent row (.outcome fresh limits outcome)
  | .resume fresh wakeAt => foldEvent row (.resume fresh wakeAt)
  | .claim fresh runId =>
      if takesUp row.activeTaskState then
        foldEvent row (.controller fresh "running" none none none (some (toString runId)) none)
      else row
  | .delta fresh delta => foldEvent row (.delta fresh delta)
  | .event fresh event => foldEvent row (.runtime fresh event)
  | .removal fresh resolved => foldEvent row (.resolved fresh resolved)

def markOf (state : Dict) (outcome : IterationOutcome) : Mark :=
  if outcome.transientFailure then .transient
  else if progressSignature state != outcome.initialProgressSignature && outcome.succeeded then
    .progress
  else .idle

/-- The iterations that count since the last resume, or since the last outcome of a task that
waits for its owner or is no longer active. -/
def countedMarks (state : Dict) (marks : List Mark) : RetryStep → List Mark
  | .outcome _ outcome =>
      if Dict.text state "status" ≠ some "active" ∨ pendingActions state ≠ [] then []
      else marks ++ [markOf state outcome]
  | .resume _ _ => if Dict.text state "status" = some "active" ∧ stalled state then [] else marks
  | _ => marks

def retryStep (limits : RetryLimits) (s : TranscriptRow × List Mark) (step : RetryStep) :
    TranscriptRow × List Mark :=
  (foldRetry limits s.1 step,countedMarks s.1.activeTaskState s.2 step)

end

def nonTransient (marks : List Mark) : List Mark := marks.filter (· ≠ .transient)

/-- The last iterations that are no transient failures made no progress, up to the limit. -/
def NoProgress (limits : RetryLimits) (marks : List Mark) : Prop :=
  List.replicate limits.maxNoProgress .idle <:+ nonTransient marks

def OnlyTransient (limits : RetryLimits) (marks : List Mark) : Prop :=
  List.replicate limits.maxTransientFailures .transient <:+ marks

/-- No transient failure is recorded of a task that has made no progress up to the limit. -/
def WithinBudget (limits : RetryLimits) (s : TranscriptRow × List Mark) : RetryStep → Prop
  | .outcome _ outcome => outcome.transientFailure = true → ¬NoProgress limits s.2
  | _ => True

section

variable {limits : RetryLimits} {marks : List Mark}

theorem noProgress_iff : NoProgress limits marks ↔
    limits.maxNoProgress ≤ trailing .idle (nonTransient marks) :=
  replicate_suffix_iff

theorem onlyTransient_iff : OnlyTransient limits marks ↔
    limits.maxTransientFailures ≤ trailing .transient marks :=
  replicate_suffix_iff

theorem nonTransient_concat (marks : List Mark) (mark : Mark) : nonTransient (marks ++ [mark]) =
    nonTransient marks ++ if mark = .transient then [] else [mark] := by
  rw [nonTransient,List.filter_append,nonTransient]
  cases mark <;> rfl

end

/-- A managed task whose counters are those of its iterations. -/
structure Counted (limits : RetryLimits) (state : Dict) (marks : List Mark) : Prop where
  managed : managed state = true
  status : Dict.text state "status" = some "active" ∨ Dict.text state "status" = some "complete"
  retryCount : number (part state "runtime") "retry_count" = trailing .idle (nonTransient marks)
  transientCount : number (part state "runtime") "transient_retry_count" =
    trailing .transient marks
  stalled : stalled state = true ↔ NoProgress limits marks ∨ OnlyTransient limits marks

/-- The fields by which the worker counts. -/
def countFields : List String := ["controller_state","retry_count","transient_retry_count"]

section

variable {limits : RetryLimits} {state state' : Dict} {marks : List Mark}

/-- What writes neither these fields nor the mode. -/
theorem Counted.kept (h : Counted limits state marks) {fields : List String}
    (hruntime : RuntimeBut fields state state') (hfields : ∀ k ∈ countFields, k ∉ fields)
    (hmanaged : Runtime.managed state' = true)
    (hstatus : Dict.text state' "status" = some "active" ∨
      Dict.text state' "status" = some "complete") : Counted limits state' marks where
  managed := hmanaged
  status := hstatus
  retryCount := by rw [hruntime.number (hfields _ (by decide)),h.retryCount]
  transientCount := by rw [hruntime.number (hfields _ (by decide)),h.transientCount]
  stalled := by
    rw [Runtime.stalled,hruntime.text (hfields _ (by decide)),← Runtime.stalled]
    exact h.stalled

theorem text_storeTask (fresh : String) (row : TranscriptRow) (state : Dict) {k : String}
    (htask : k ≠ "task_id") (hrevision : k ≠ "revision") :
    Dict.text (storeTask fresh row state).activeTaskState k = Dict.text state k := by
  simp only [storeTask]
  split
  · rw [text_put_of_ne _ _ (Ne.symm hrevision)]
  · rw [text_put_of_ne _ _ (Ne.symm hrevision),text_put_of_ne _ _ (Ne.symm htask)]

/-- A stored document is counted where the one that was made is. -/
theorem Counted.storeTask (h : Counted limits state marks) (fresh : String) (row : TranscriptRow) :
    Counted limits (storeTask fresh row state).activeTaskState marks := by
  refine h.kept (storeTask_runtime [] fresh row state) (fun _ _ => List.not_mem_nil) ?_ ?_
  · rw [(storeTask_same fresh row state).managed,h.managed]
  · rw [text_storeTask fresh row state (by decide) (by decide)]
    exact h.status

theorem Counted.mutateTask {fresh : String} {row : TranscriptRow} {transform : Dict → Dict}
    (h : Counted limits (transform row.activeTaskState) marks) :
    Counted limits (mutateTask fresh row transform).activeTaskState marks := by
  simp only [Runtime.mutateTask]
  split
  · next hsame => rwa [eq_of_sameFields hsame] at h
  · exact h.storeTask fresh row

theorem number_put (d : Dict) (key : String) (n : ℤ) : number (Dict.put d key (.num n)) key = n := by
  rw [number,Dict.get_put]

theorem number_put_of_ne (d : Dict) (value : Json) {key k : String} (h : key ≠ k) :
    number (Dict.put d key value) k = number d k := by
  rw [number,Dict.get_put_of_ne d value h,number]

theorem number_putSome_of_ne (d : Dict) (value : Option Json) {key k : String} (h : key ≠ k) :
    number (putSome d key value) k = number d k := by
  rw [number,get_putSome_of_ne d value h,number]

/-- What the controller writes where it gives both counts. -/
theorem counted_controllerState (hmanaged : Runtime.managed state = true)
    (hstatus : Dict.text state "status" = some "active" ∨
      Dict.text state "status" = some "complete")
    {controller : String} {nextWakeAt runId finishedAt : Option String} {retries transients : ℕ}
    (hretries : retries = trailing .idle (nonTransient marks))
    (htransients : transients = trailing .transient marks)
    (hstalled : controller = "stalled" ↔ NoProgress limits marks ∨ OnlyTransient limits marks) :
    Counted limits (controllerState state controller nextWakeAt (some retries) (some transients)
      runId finishedAt) marks where
  managed := (controllerState_same state _ _ _ _ _ _).managed.trans hmanaged
  status := by rwa [controllerState,text_put_of_ne _ _ (by decide)]
  retryCount := by
    rw [controllerState,part_put,number_putSome_of_ne _ _ (by decide),
      number_putSome_of_ne _ _ (by decide),number_putSome_of_ne _ _ (by decide),← hretries]
    exact number_put _ _ _
  transientCount := by
    rw [controllerState,part_put,number_putSome_of_ne _ _ (by decide),
      number_putSome_of_ne _ _ (by decide),← htransients]
    exact number_put _ _ _
  stalled := by
    rw [← hstalled,Runtime.stalled,controllerState,part_put,Dict.text,
      get_putSome_of_ne _ _ (by decide),get_putSome_of_ne _ _ (by decide),
      get_putSome_of_ne _ _ (by decide),get_putSome_of_ne _ _ (by decide),
      Dict.get_put_of_ne _ _ (by decide),Dict.get_put,beq_iff_eq,Option.some.injEq]

variable (hno : 0 < limits.maxNoProgress) (htr : 0 < limits.maxTransientFailures)

include hno htr in
theorem nothing_exhausted : ¬(NoProgress limits [] ∨ OnlyTransient limits []) := by
  rw [noProgress_iff,onlyTransient_iff]
  show ¬(limits.maxNoProgress ≤ 0 ∨ limits.maxTransientFailures ≤ 0)
  omega

variable [ActionRuntime]

include hno in
/-- An outcome that is no transient failure, of a task that can go on. -/
theorem Counted.attempt (h : Counted limits state marks) (hactive : Dict.text state "status" = some "active")
    (hpending : pendingActions state = []) {outcome : IterationOutcome}
    (hfail : ¬(outcome.succeeded = false ∧ outcome.transient = true))
    (htr : 0 < limits.maxTransientFailures) :
    Counted limits (iterationOutcome limits outcome state) (marks ++ [markOf state outcome]) := by
  have hretry : (number (part state "runtime") "retry_count").toNat =
      trailing .idle (nonTransient marks) := by rw [h.retryCount,Int.toNat_natCast]
  have hfailure : outcome.transientFailure = false := by
    rw [IterationOutcome.transientFailure,← Bool.not_eq_true,Bool.and_eq_true,Bool.not_eq_true']
    exact hfail
  simp only [iterationOutcome]
  rw [if_neg (not_not.mpr hactive),if_neg (show ¬listed (part state "runtime") "pending_actions" ≠ []
    from not_not.mpr hpending),if_neg hfail,hretry]
  by_cases hprogress :
      (progressSignature state != outcome.initialProgressSignature && outcome.succeeded) = true
  · have hmark : markOf state outcome = .progress := by
      rw [markOf,hfailure,if_neg (by decide),if_pos hprogress]
    have hidle : trailing .idle (nonTransient (marks ++ [Mark.progress])) = 0 := by
      rw [nonTransient_concat,if_neg (by decide),trailing_concat,if_neg (by decide)]
    have hcount : trailing .transient (marks ++ [Mark.progress]) = 0 := by
      rw [trailing_concat,if_neg (by decide)]
    rw [hmark,if_pos hprogress,if_neg (by omega),if_pos hprogress]
    refine counted_controllerState h.managed h.status hidle.symm hcount.symm ?_
    rw [noProgress_iff,onlyTransient_iff,hcount,hidle]
    simp [hno.ne',htr.ne']
  · have hmark : markOf state outcome = .idle := by
      rw [markOf,hfailure,if_neg (by decide),if_neg hprogress]
    have hidle : trailing .idle (nonTransient (marks ++ [Mark.idle])) =
        trailing .idle (nonTransient marks) + 1 := by
      rw [nonTransient_concat,if_neg (by decide),trailing_concat,if_pos rfl]
    have hcount : trailing .transient (marks ++ [Mark.idle]) = 0 := by
      rw [trailing_concat,if_neg (by decide)]
    rw [hmark,if_neg hprogress]
    by_cases hlimit : limits.maxNoProgress ≤ trailing .idle (nonTransient marks) + 1
    · rw [if_pos hlimit]
      refine counted_controllerState h.managed h.status hidle.symm hcount.symm ?_
      rw [noProgress_iff,hidle]
      simp [hlimit]
    · rw [if_neg hlimit,if_neg hprogress]
      refine counted_controllerState h.managed h.status hidle.symm hcount.symm ?_
      rw [noProgress_iff,onlyTransient_iff,hcount,hidle]
      simp [hlimit,htr.ne']

/-- A transient failure of a task that can go on. -/
theorem Counted.failure (h : Counted limits state marks)
    (hactive : Dict.text state "status" = some "active") (hpending : pendingActions state = [])
    {outcome : IterationOutcome} (hfail : outcome.succeeded = false ∧ outcome.transient = true)
    (hwithin : ¬NoProgress limits marks) :
    Counted limits (iterationOutcome limits outcome state) (marks ++ [markOf state outcome]) := by
  have hretry : (number (part state "runtime") "retry_count").toNat =
      trailing .idle (nonTransient marks) := by rw [h.retryCount,Int.toNat_natCast]
  have htransient : (number (part state "runtime") "transient_retry_count").toNat =
      trailing .transient marks := by rw [h.transientCount,Int.toNat_natCast]
  have hmark : markOf state outcome = .transient := by
    rw [markOf,IterationOutcome.transientFailure,hfail.1,hfail.2]
    rfl
  have hidle : trailing .idle (nonTransient (marks ++ [Mark.transient])) =
      trailing .idle (nonTransient marks) := by
    rw [nonTransient_concat,if_pos rfl,List.append_nil]
  have hcount : trailing .transient (marks ++ [Mark.transient]) =
      trailing .transient marks + 1 := by rw [trailing_concat,if_pos rfl]
  rw [noProgress_iff] at hwithin
  simp only [iterationOutcome]
  rw [if_neg (not_not.mpr hactive),if_neg (show ¬listed (part state "runtime") "pending_actions" ≠ []
    from not_not.mpr hpending),if_pos hfail,hretry,htransient,hmark]
  by_cases hlimit : limits.maxTransientFailures ≤ trailing .transient marks + 1
  · rw [if_pos hlimit]
    refine counted_controllerState h.managed h.status hidle.symm hcount.symm ?_
    rw [onlyTransient_iff,hcount]
    simp [hlimit]
  · rw [if_neg hlimit]
    refine counted_controllerState h.managed h.status hidle.symm hcount.symm ?_
    rw [noProgress_iff,onlyTransient_iff,hcount,hidle]
    simp [hlimit,hwithin]

include hno htr in
/-- The outcome of an iteration counts as its mark says. -/
theorem Counted.outcome (h : Counted limits state marks) (outcome : IterationOutcome)
    {fresh : String} (hbudget : outcome.transientFailure = true → ¬NoProgress limits marks) :
    Counted limits (iterationOutcome limits outcome state)
      (countedMarks state marks (.outcome fresh outcome)) := by
  have hnothing := nothing_exhausted hno htr
  have hreset : Dict.text state "status" ≠ some "active" ∨ pendingActions state ≠ [] →
      countedMarks state marks (.outcome fresh outcome) = [] := fun h => by rw [countedMarks,if_pos h]
  by_cases hactive : Dict.text state "status" = some "active"
  · by_cases hpending : pendingActions state = []
    · rw [countedMarks,if_neg (by simp [hactive,hpending])]
      by_cases hfail : outcome.succeeded = false ∧ outcome.transient = true
      · refine h.failure hactive hpending hfail (hbudget ?_)
        rw [IterationOutcome.transientFailure,hfail.1,hfail.2]
        rfl
      · exact h.attempt hno hactive hpending hfail htr
    · rw [hreset (.inr hpending)]
      simp only [iterationOutcome]
      rw [if_neg (not_not.mpr hactive),
        if_pos (show listed (part state "runtime") "pending_actions" ≠ [] from hpending)]
      refine counted_controllerState h.managed h.status rfl rfl ?_
      simp [hnothing]
  · rw [hreset (.inl hactive)]
    simp only [iterationOutcome]
    rw [if_pos hactive]
    refine counted_controllerState h.managed h.status rfl rfl ?_
    have hcomplete : Dict.get state "status" = some (.str "complete") := by
      have htext := h.status.resolve_left hactive
      rw [Dict.text] at htext
      split at htext
      · next s hs => rw [hs,Option.some.inj htext]
      · cases htext
    rw [hcomplete]
    simp [Option.filter,Json.truthy,ActionRuntime.str_text,hnothing]

theorem status_mergeSemanticDelta (fresh : String) (delta : TaskStateDelta)
    (h : Runtime.managed state = true)
    (hstatus : Dict.text state "status" = some "active" ∨
      Dict.text state "status" = some "complete") :
    Dict.text (mergeSemanticDelta fresh state delta) "status" = some "active" ∨
      Dict.text (mergeSemanticDelta fresh state delta) "status" = some "complete" := by
  obtain ⟨merged,hmerge,hmerged,hkept,_⟩ := mergeSemanticDelta_managed fresh delta h
  have hin : ∀ (state : Dict) (key field : String) (value : Json), key ≠ "status" →
      Dict.text (putIn state key field value) "status" = Dict.text state "status" :=
    fun state key field value hkey => text_put_of_ne state _ hkey
  rw [hmerge]
  cases delta.status with
  | none =>
    simp only [hkept]
    exact hstatus
  | some status =>
    cases status with
    | active =>
      left
      simp only [concludeDelta,reduceCtorEq,false_and,if_false,text_put]
    | complete =>
      simp only [concludeDelta,hmerged,and_self,if_true]
      split
      · left
        split
        · rw [hin _ _ _ _ (by decide),text_put]
        · rw [hin _ _ _ _ (by decide),hin _ _ _ _ (by decide),text_put]
      · right
        rw [hin _ _ _ _ (by decide),hin _ _ _ _ (by decide),hin _ _ _ _ (by decide),text_put]

include hno htr in
omit [ActionRuntime] in
/-- A resume starts the counts anew. -/
theorem Counted.resumed (h : Counted limits state marks) (wakeAt : String) :
    Counted limits (resumedState state wakeAt) [] where
  managed := (resumedState_same state wakeAt).managed.trans h.managed
  status := by
    rw [resumedState,text_put_of_ne _ _ (by decide)]
    exact h.status
  retryCount := by
    rw [resumedState,part_put,number_put_of_ne _ _ (by decide),number_put_of_ne _ _ (by decide),
      number_put_of_ne _ _ (by decide),number_put]
    rfl
  transientCount := by
    rw [resumedState,part_put,number_put_of_ne _ _ (by decide),number_put_of_ne _ _ (by decide),
      number_put]
    rfl
  stalled := by
    refine iff_of_false ?_ (nothing_exhausted hno htr)
    rw [Runtime.stalled,resumedState,part_put,text_put_of_ne _ _ (by decide),
      text_put_of_ne _ _ (by decide),text_put_of_ne _ _ (by decide),text_put_of_ne _ _ (by decide),
      text_put]
    decide

omit [ActionRuntime] in
/-- A claim of a task that is not stalled leaves the counts. -/
theorem Counted.claimed (h : Counted limits state marks) (hstalled : Runtime.stalled state = false)
    (nextWakeAt runId finishedAt : Option String) :
    Counted limits (controllerState state "running" nextWakeAt none none runId finishedAt) marks where
  managed := (controllerState_same state _ _ _ _ _ _).managed.trans h.managed
  status := by
    rw [controllerState,text_put_of_ne _ _ (by decide)]
    exact h.status
  retryCount := by
    rw [controllerState,part_put,number_putSome_of_ne _ _ (by decide),
      number_putSome_of_ne _ _ (by decide),← h.retryCount]
    exact (number_put_of_ne _ _ (by decide)).trans (number_put_of_ne _ _ (by decide))
  transientCount := by
    rw [controllerState,part_put,number_putSome_of_ne _ _ (by decide),
      number_putSome_of_ne _ _ (by decide),← h.transientCount]
    exact (number_put_of_ne _ _ (by decide)).trans (number_put_of_ne _ _ (by decide))
  stalled := by
    rw [← h.stalled,hstalled,Runtime.stalled,controllerState,part_put,Dict.text,
      get_putSome_of_ne _ _ (by decide),get_putSome_of_ne _ _ (by decide)]
    simp [putSome,Dict.get_put_of_ne]

include hno htr in
theorem Counted.step {row : TranscriptRow} (h : Counted limits row.activeTaskState marks)
    (step : RetryStep) (hbudget : WithinBudget limits (row,marks) step) :
    Counted limits (foldRetry limits row step).activeTaskState
      (countedMarks row.activeTaskState marks step) := by
  have hnonempty := ne_nil_of_managed h.managed
  cases step with
  | outcome fresh outcome => exact (h.outcome hno htr outcome hbudget).mutateTask
  | resume fresh wakeAt =>
    simp only [foldRetry,foldEvent,countedMarks]
    by_cases hresume : Dict.text row.activeTaskState "status" = some "active" ∧
        Runtime.stalled row.activeTaskState = true
    · rw [if_pos hresume,if_neg]
      · exact (h.resumed hno htr wakeAt).storeTask fresh row
      · rw [Runtime.stalled,beq_iff_eq] at hresume
        simp [hresume]
    · rw [if_neg hresume,if_pos]
      · exact h
      · rw [Runtime.stalled,beq_iff_eq,not_and_or] at hresume
        exact hresume
  | claim fresh runId =>
    simp only [foldRetry,countedMarks]
    split
    · next htakes =>
      rw [takesUp,Bool.and_eq_true,Bool.not_eq_true'] at htakes
      exact (h.claimed htakes.2 _ _ _).mutateTask
    · exact h
  | delta fresh delta =>
    refine Counted.mutateTask (h.kept (mergeSemanticDelta_runtime fresh delta hnonempty) (by decide)
      (mergeSemanticDelta_contract fresh delta h.managed).2 ?_)
    exact status_mergeSemanticDelta fresh delta h.managed h.status
  | event fresh event =>
    refine Counted.mutateTask (h.kept (recordRuntimeEvent_runtime fresh event hnonempty) (by decide)
      ((recordRuntimeEvent_same fresh event h.managed).managed.trans h.managed) ?_)
    simp only [recordRuntimeEvent,hnonempty,Bool.false_eq_true,if_false]
    rw [text_put_of_ne _ _ (by decide)]
    exact h.status
  | removal fresh resolved =>
    refine Counted.mutateTask (h.kept (removeResolvedPendingActions_runtime fresh resolved hnonempty)
      (by decide)
      ((removeResolvedPendingActions_same fresh resolved h.managed).managed.trans h.managed) ?_)
    simp only [removeResolvedPendingActions,hnonempty,Bool.false_eq_true,if_false]
    split
    · exact h.status
    · rw [putIn,text_put_of_ne _ _ (by decide)]
      exact h.status

include hno htr in
/-- After any steps within the budget the counters are those of the iterations. -/
theorem Counted.run (steps : List RetryStep) {s : TranscriptRow × List Mark}
    (h : Counted limits s.1.activeTaskState s.2)
    (hsteps : Trace.Allowed (retryStep limits) (WithinBudget limits) s steps) :
    Counted limits (steps.foldl (retryStep limits) s).1.activeTaskState
      (steps.foldl (retryStep limits) s).2 := by
  induction steps generalizing s with
  | nil => exact h
  | cons step steps ih => exact ih (h.step hno htr step hsteps.1) hsteps.2

include hno htr in
omit [ActionRuntime] in
theorem newManagedTaskState_counted {taskId freshProject : String} {task : ManagedTask}
    (h : newManagedTaskState taskId freshProject task = .ok state) : Counted limits state [] := by
  obtain ⟨_,_,h⟩ := accepted h
  obtain ⟨_,_,h⟩ := accepted h
  obtain ⟨_,_,h⟩ := accepted h
  obtain rfl := Except.ok.inj h
  exact ⟨rfl,.inl rfl,rfl,rfl,iff_of_false (show ¬false = true from Bool.false_ne_true)
    (nothing_exhausted hno htr)⟩

/-- What an outcome makes of the counters. -/
theorem iterationOutcome_counts (h : Counted limits state marks) (outcome : IterationOutcome) :
    (outcome.transientFailure = true → Dict.text state "status" = some "active" →
      pendingActions state = [] →
      number (part (iterationOutcome limits outcome state) "runtime") "retry_count" =
        number (part state "runtime") "retry_count") ∧
    (outcome.transientFailure = false →
      number (part (iterationOutcome limits outcome state) "runtime") "transient_retry_count" = 0) := by
  have hretries : ∀ (controller : String) (wake : Option String) (retries transients : ℕ)
      (runId finishedAt : Option String), number (part (controllerState state controller wake
        (some retries) (some transients) runId finishedAt) "runtime") "retry_count" = retries := by
    intro controller wake retries transients runId finishedAt
    rw [controllerState,part_put,number_putSome_of_ne _ _ (by decide),
      number_putSome_of_ne _ _ (by decide),number_putSome_of_ne _ _ (by decide)]
    exact number_put _ _ _
  have htransients : ∀ (controller : String) (wake : Option String) (retries transients : ℕ)
      (runId finishedAt : Option String), number (part (controllerState state controller wake
        (some retries) (some transients) runId finishedAt) "runtime") "transient_retry_count" =
        transients := by
    intro controller wake retries transients runId finishedAt
    rw [controllerState,part_put,number_putSome_of_ne _ _ (by decide),
      number_putSome_of_ne _ _ (by decide)]
    exact number_put _ _ _
  constructor
  · intro hfail hactive hpending
    rw [IterationOutcome.transientFailure,Bool.and_eq_true,Bool.not_eq_true'] at hfail
    have hretry : ((number (part state "runtime") "retry_count").toNat : ℤ) =
        number (part state "runtime") "retry_count" := by rw [h.retryCount,Int.toNat_natCast]
    simp only [iterationOutcome]
    rw [if_neg (not_not.mpr hactive),if_neg (show ¬listed (part state "runtime") "pending_actions" ≠ []
      from not_not.mpr hpending),if_pos hfail,← hretry]
    split <;> exact hretries _ _ _ _ _ _
  · intro hfail
    rw [IterationOutcome.transientFailure,← Bool.not_eq_true,Bool.and_eq_true,
      Bool.not_eq_true'] at hfail
    simp only [iterationOutcome]
    rw [if_neg hfail]
    split_ifs <;> exact htransients _ _ _ _ _ _

omit [ActionRuntime] in
theorem limitOf_pos {low high default : ℕ} (hlow : 0 < low) (hdefault : 0 < default)
    (value : Option ℤ) : 0 < limitOf low high default value := by
  cases value with
  | none => exact hdefault
  | some n =>
    simp only [limitOf]
    omega

end

/-- Whatever the settings and whatever happens to a managed task, as long as no transient failure
is recorded once it has made no progress up to the limit: it is stalled exactly when its last
iterations that are no transient failures made no progress, up to the limit, or its last ones were
all transient failures. -/
theorem stalled_iff_exhausted [ActionRuntime] {taskId freshProject : String} {task : ManagedTask}
    {row : TranscriptRow}
    (h : newManagedTaskState taskId freshProject task = .ok row.activeTaskState)
    (poll noProgress transient : Option ℤ) (steps : List RetryStep)
    (hsteps : Trace.Allowed (retryStep (retryLimits poll noProgress transient))
      (WithinBudget (retryLimits poll noProgress transient)) (row,[]) steps) :
    letI limits := retryLimits poll noProgress transient
    letI last := steps.foldl (retryStep limits) (row,[])
    (stalled last.1.activeTaskState = true ↔
      NoProgress limits last.2 ∨ OnlyTransient limits last.2) ∧
    ∀ outcome : IterationOutcome,
      (outcome.transientFailure = true → Dict.text last.1.activeTaskState "status" = some "active" →
        pendingActions last.1.activeTaskState = [] →
        number (part (iterationOutcome limits outcome last.1.activeTaskState) "runtime")
            "retry_count" =
          number (part last.1.activeTaskState "runtime") "retry_count") ∧
      (outcome.transientFailure = false →
        number (part (iterationOutcome limits outcome last.1.activeTaskState) "runtime")
          "transient_retry_count" = 0) := by
  have hno : 0 < (retryLimits poll noProgress transient).maxNoProgress :=
    limitOf_pos (by decide) (by decide) noProgress
  have htr : 0 < (retryLimits poll noProgress transient).maxTransientFailures :=
    limitOf_pos (by decide) (by decide) transient
  have hlast := Counted.run hno htr steps (newManagedTaskState_counted hno htr h) hsteps
  exact ⟨hlast.stalled,iterationOutcome_counts hlast⟩

/-- An iteration that failed for good. -/
def failedIteration : IterationOutcome where
  runId := 0
  now := 0
  initialProgressSignature := ""
  succeeded := false

/-- Three iterations fail one after the other. -/
def threeFailures : List RetryStep := List.replicate 3 (.outcome "" failedIteration)

theorem stalled_iff_exhausted_three : letI := plainActions
    stalled (threeFailures.foldl (retryStep (retryLimits none none none)) (agreedRow,[])
      ).1.activeTaskState = true := by
  let := plainActions
  have hall := @stalled_iff_exhausted plainActions "T" "P" agreedTask agreedRow rfl none none none
    threeFailures ⟨fun h => absurd h (by decide),fun h => absurd h (by decide),
      fun h => absurd h (by decide),trivial⟩
  exact hall.1.mpr (.inl (by unfold NoProgress; decide +kernel))

section

variable [ActionRuntime]

/-- The iterations since the last resume or since the last outcome of a task that waits for its
owner, also where the task is no longer active. -/
def iterationMarks (state : Dict) (marks : List Mark) : RetryStep → List Mark
  | .outcome _ outcome =>
      if Dict.text state "status" = some "active" ∧ pendingActions state ≠ [] then []
      else marks ++ [markOf state outcome]
  | .resume _ _ => if Dict.text state "status" = some "active" ∧ stalled state then [] else marks
  | _ => marks

def iterationStep (limits : RetryLimits) (s : TranscriptRow × List Mark) (step : RetryStep) :
    TranscriptRow × List Mark :=
  (foldRetry limits s.1 step,iterationMarks s.1.activeTaskState s.2 step)

end

/-- Two iterations fail, the task is then completed, and the third fails too. -/
def failedAtTheEnd : List RetryStep := [
  .event "" ⟨"coding.agent.run","succeeded","E1",[],[],none⟩,
  .outcome "" failedIteration,
  .outcome "" failedIteration,
  .delta "" doneDelta,
  .outcome "" failedIteration]

/-- The iteration that fails after the task was completed does not stall it. -/
theorem ended_not_stalled : letI := plainActions
    letI limits := retryLimits none none none
    letI last := failedAtTheEnd.foldl (iterationStep limits) (agreedRow,[])
    Trace.Allowed (iterationStep limits) (WithinBudget limits) (agreedRow,[]) failedAtTheEnd ∧
    ¬(stalled last.1.activeTaskState = true ↔ NoProgress limits last.2 ∨ OnlyTransient limits last.2) := by
  let := plainActions
  refine ⟨⟨trivial,fun h => absurd h (by decide),fun h => absurd h (by decide),trivial,
    fun h => absurd h (by decide),trivial⟩,fun h => ?_⟩
  have hstalled := h.mpr (.inl (by unfold NoProgress; decide +kernel))
  exact absurd hstalled (by decide +kernel)

end Runtime
end Atlas
