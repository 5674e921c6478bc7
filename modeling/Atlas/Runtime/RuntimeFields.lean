import Atlas.Runtime.TaskContract

/-! Which fields of a task document's runtime record each fold may write. -/
namespace Atlas
namespace Runtime

open Memory (TranscriptRow)
open Actions

/-- The runtime record of one document is that of another but for some fields. -/
def RuntimeBut (fields : List String) (state state' : Dict) : Prop :=
  ∀ k, k ∉ fields → Dict.get (part state' "runtime") k = Dict.get (part state "runtime") k

section

variable {fields : List String} {state state' state'' : Dict} {key field k : String}

theorem RuntimeBut.refl (fields : List String) (state : Dict) : RuntimeBut fields state state :=
  fun _ _ => rfl

theorem RuntimeBut.trans (h : RuntimeBut fields state state')
    (h' : RuntimeBut fields state' state'') : RuntimeBut fields state state'' :=
  fun k hk => (h' k hk).trans (h k hk)

theorem RuntimeBut.mono {fields' : List String} (h : RuntimeBut fields state state')
    (hsub : fields ⊆ fields') : RuntimeBut fields' state state' :=
  fun k hk => h k fun hin => hk (hsub hin)

theorem RuntimeBut.listed (h : RuntimeBut fields state state') (hk : k ∉ fields) :
    listed (part state' "runtime") k = listed (part state "runtime") k := by
  rw [Runtime.listed,h k hk,Runtime.listed]

theorem RuntimeBut.number (h : RuntimeBut fields state state') (hk : k ∉ fields) :
    number (part state' "runtime") k = number (part state "runtime") k := by
  rw [Runtime.number,h k hk,Runtime.number]

theorem RuntimeBut.text (h : RuntimeBut fields state state') (hk : k ∉ fields) :
    Dict.text (part state' "runtime") k = Dict.text (part state "runtime") k := by
  rw [Dict.text,h k hk,Dict.text]

/-- Outside of the runtime record anything may be written. -/
theorem runtimeBut_put (fields : List String) (state : Dict) (value : Json) (h : key ≠ "runtime") :
    RuntimeBut fields state (Dict.put state key value) := by
  intro k _
  rw [part_put_of_ne state value h]

theorem runtimeBut_runtime (state : Dict) {runtime : Dict}
    (h : ∀ k, k ∉ fields → Dict.get runtime k = Dict.get (part state "runtime") k) :
    RuntimeBut fields state (Dict.put state "runtime" (.obj runtime)) := by
  intro k hk
  rw [part_put]
  exact h k hk

theorem get_put_but {d : Dict} (value : Json) (hfield : field ∈ fields) :
    ∀ k, k ∉ fields → Dict.get (Dict.put d field value) k = Dict.get d k := by
  intro k hk
  refine Dict.get_put_of_ne d value fun he => hk ?_
  rw [← he]
  exact hfield

theorem get_putSome_but {d : Dict} (value : Option Json) (hfield : field ∈ fields) :
    ∀ k, k ∉ fields → Dict.get (putSome d field value) k = Dict.get d k := by
  cases value with
  | none => exact fun _ _ => rfl
  | some value => exact get_put_but value hfield

theorem runtimeBut_putIn (state : Dict) (value : Json) (hfield : field ∈ fields) :
    RuntimeBut fields state (putIn state "runtime" field value) :=
  runtimeBut_runtime state (get_put_but value hfield)

theorem runtimeBut_putIn_of_ne (fields : List String) (state : Dict) (value : Json)
    (h : key ≠ "runtime") : RuntimeBut fields state (putIn state key field value) :=
  runtimeBut_put fields state _ h

/-- The fields that a delta may write. -/
def deltaFields : List String := ["managed_turns","completion_rejected"]

theorem checkpoints_runtime (fields : List String) (state : Dict)
    (completed : Option (List String)) :
    RuntimeBut fields state (match completed,Dict.get state "checkpoints" with
      | some completed,some (.arr checkpoints) =>
          Dict.put state "checkpoints" (.arr (markCheckpoints completed checkpoints))
      | _,_ => state) := by
  split
  · exact runtimeBut_put fields state _ (by decide)
  · exact RuntimeBut.refl fields state

variable [ActionRuntime]

theorem acceptance_runtime (fields : List String) (state : Dict)
    (updates : Option (List TaskAcceptanceUpdate)) :
    RuntimeBut fields state (match updates with
      | none => state
      | some updates => applyAcceptanceUpdates state updates) := by
  cases updates with
  | none => exact RuntimeBut.refl fields state
  | some updates =>
    simp only [applyAcceptanceUpdates]
    split
    · exact runtimeBut_put fields state _ (by decide)
    · exact RuntimeBut.refl fields state

theorem mergeManaged_runtime (state : Dict) (delta : TaskStateDelta) :
    RuntimeBut deltaFields state (mergeManaged state delta) := by
  simp only [mergeManaged]
  refine .trans ?_ (runtimeBut_putIn _ _ (by decide))
  refine .trans ?_ (acceptance_runtime deltaFields _ delta.acceptanceUpdates)
  refine .trans ?_ (checkpoints_runtime deltaFields _ _)
  exact runtimeBut_put deltaFields state _ (by decide)

omit [ActionRuntime] in
theorem concludeDelta_runtime (state : Dict) (status : DeltaStatus) :
    RuntimeBut deltaFields state (concludeDelta state status) := by
  have hstatus : ∀ value, RuntimeBut deltaFields state (Dict.put state "status" value) :=
    fun value => runtimeBut_put deltaFields state value (by decide)
  simp only [concludeDelta]
  split
  · split
    · have hrejected := fun value => (hstatus (.str "active")).trans
        (@runtimeBut_putIn deltaFields "completion_rejected" _ value (by decide))
      split
      · exact hrejected _
      · exact (hrejected _).trans (runtimeBut_putIn_of_ne _ _ _ (by decide))
    · refine .trans ?_ (runtimeBut_putIn_of_ne _ _ _ (by decide))
      refine .trans ?_ (runtimeBut_putIn_of_ne _ _ _ (by decide))
      exact (hstatus _).trans (runtimeBut_putIn _ _ (by decide))
  · split
    · exact hstatus _
    · exact (hstatus _).trans (runtimeBut_putIn_of_ne _ _ _ (by decide))

/-- A delta writes the count of the turns and the note about a rejected completion, no more. -/
theorem mergeSemanticDelta_runtime (fresh : String) (delta : TaskStateDelta)
    (h : state.isEmpty = false) :
    RuntimeBut deltaFields state (mergeSemanticDelta fresh state delta) := by
  simp only [mergeSemanticDelta,h,Bool.false_eq_true,if_false]
  have hreplaced : RuntimeBut deltaFields state
      (if delta.replace then Dict.put state "semantic" (.obj emptySemantic) else state) := by
    split
    · exact runtimeBut_put deltaFields state _ (by decide)
    · exact RuntimeBut.refl deltaFields state
  have hmerged := fun value => hreplaced.trans
    (@runtimeBut_put "semantic" deltaFields _ value (by decide))
  have hmanaged : ∀ {u : Dict}, RuntimeBut deltaFields state u →
      RuntimeBut deltaFields state (if managed u = true then mergeManaged u delta else u) := by
    intro u hu
    split
    · exact hu.trans (mergeManaged_runtime u delta)
    · exact hu
  split
  · exact hmanaged (hmerged _)
  · exact (hmanaged (hmerged _)).trans (concludeDelta_runtime _ _)

/-- The fields that an event of the runtime may write. -/
def eventFields : List String :=
  ["recent_events","last_event_evidence_id","working_set","pending_actions","errors"]

theorem recordRuntimeEvent_runtime (fresh : String) (event : RuntimeEvent)
    (h : state.isEmpty = false) :
    RuntimeBut eventFields state (recordRuntimeEvent fresh state event) := by
  simp only [recordRuntimeEvent,h,Bool.false_eq_true,if_false]
  refine runtimeBut_runtime state fun k hk => ?_
  have hput : ∀ {d : Dict} {field : String} {value : Json}, field ∈ eventFields →
      Dict.get (Dict.put d field value) k = Dict.get d k :=
    fun hfield => get_put_but _ hfield k hk
  split
  · rw [hput (by decide),hput (by decide)]
    split
    · split
      · rw [hput (by decide),hput (by decide)]
      · rw [hput (by decide)]
    · split
      · rw [hput (by decide),hput (by decide),hput (by decide)]
      · rw [hput (by decide),hput (by decide)]
  · rw [hput (by decide)]
    split
    · split
      · rw [hput (by decide),hput (by decide)]
      · rw [hput (by decide)]
    · split
      · rw [hput (by decide),hput (by decide),hput (by decide)]
      · rw [hput (by decide),hput (by decide)]

theorem removeResolvedPendingActions_runtime (fresh : String) (resolved : List String)
    (h : state.isEmpty = false) :
    RuntimeBut ["pending_actions"] state (removeResolvedPendingActions fresh state resolved) := by
  simp only [removeResolvedPendingActions,h,Bool.false_eq_true,if_false]
  split
  · exact RuntimeBut.refl _ state
  · exact runtimeBut_putIn _ _ (by decide)

/-- The fields that the controller writes. -/
def controllerFields : List String := ["controller_state","next_wake_at","retry_count",
  "transient_retry_count","last_worker_run_id","last_worker_finished_at"]

omit [ActionRuntime] in
theorem controllerState_runtime (state : Dict) (controller : String) (nextWakeAt : Option String)
    (retryCount transientRetryCount : Option ℕ) (runId finishedAt : Option String) :
    RuntimeBut controllerFields state (controllerState state controller nextWakeAt retryCount
      transientRetryCount runId finishedAt) := by
  refine runtimeBut_runtime state fun k hk => ?_
  rw [get_putSome_but _ (by decide) k hk,get_putSome_but _ (by decide) k hk,
    get_putSome_but _ (by decide) k hk,get_putSome_but _ (by decide) k hk,
    get_put_but _ (by decide) k hk,get_put_but _ (by decide) k hk]

omit [ActionRuntime] in
theorem storeTask_runtime (fields : List String) (fresh : String) (row : TranscriptRow)
    (state : Dict) : RuntimeBut fields state (storeTask fresh row state).activeTaskState := by
  simp only [storeTask]
  split
  · exact runtimeBut_put fields _ _ (by decide)
  · exact (runtimeBut_put fields _ _ (by decide)).trans (runtimeBut_put fields _ _ (by decide))

omit [ActionRuntime] in
/-- What is stored is what was made of the document, with its identity and revision. -/
theorem mutateTask_runtime (fields : List String) (fresh : String) (row : TranscriptRow)
    (transform : Dict → Dict) :
    RuntimeBut fields (transform row.activeTaskState)
      (mutateTask fresh row transform).activeTaskState := by
  simp only [mutateTask]
  split
  · next hsame =>
    rw [eq_of_sameFields hsame]
    exact RuntimeBut.refl fields _
  · exact storeTask_runtime fields fresh row _

end

end Runtime
end Atlas
