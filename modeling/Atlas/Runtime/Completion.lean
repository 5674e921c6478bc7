import Atlas.Lib.Trace
import Atlas.Runtime.PendingActions

/-! When a managed task counts as complete: what its acceptance criteria show, and that the
evidence they name was recorded by the runtime. -/
namespace Atlas
namespace Runtime

open Memory (TranscriptRow)
open Actions

/-- What is folded into a task document, turns of the owner included. -/
inductive TaskFold where
  | task (event : TaskEvent)
  | ownerTurn (fresh request ownerTurnId : String)

section

variable [ActionRuntime]

def foldTask (row : TranscriptRow) : TaskFold → TranscriptRow
  | .task event => foldEvent row event
  | .ownerTurn fresh request ownerTurnId =>
      mutateTask fresh row (beginOwnerCheckpoint fresh · request ownerTurnId)

end

/-- The evidence that runtime events recorded. -/
def recordedIds (folds : List TaskFold) : List String :=
  folds.filterMap fun
    | .task (.runtime _ event) => some event.evidenceId
    | _ => none

def criteriaOf (state : Dict) : List Json := listed state "acceptance_criteria"

/-- A criterion whose evidence has been recorded. -/
def Evidenced (recorded : List String) (item : Json) : Prop :=
  ∃ refs : List String, item.field "evidence_refs" = some (texts refs) ∧ ∀ r ∈ refs, r ∈ recorded

section

variable [ActionRuntime]

/-- Whether an update writes the criterion at a place. -/
def writesCriterion (known : List String) (criteria : List Json) (i : ℕ)
    (update : TaskAcceptanceUpdate) : Bool :=
  lastEntry criteria update.id == some i &&
    !(update.status == .passed && (update.evidenceRefs.filter (known.contains ·)).isEmpty)

end

section

variable [ActionRuntime] {known recorded : List String} {criteria : List Json} {i : ℕ}
  {update : TaskAcceptanceUpdate} {item : Json}

theorem lastEntry_some {id : String} (h : lastEntry criteria id = some i) :
    ∃ item, criteria[i]? = some item ∧ entryText item "id" = some id := by
  have hfound := List.find?_some h
  cases hi : criteria[i]? with
  | none =>
    rw [hi] at hfound
    cases hfound
  | some item =>
    rw [hi] at hfound
    exact ⟨item,rfl,by simpa using hfound⟩

/-- What an update writes into a criterion. -/
def updated (known : List String) (update : TaskAcceptanceUpdate) (item : Json) : Json :=
  Json.mapFields (fun fields => Dict.put (Dict.put fields "status" (.str update.status.value))
    "evidence_refs" (texts (update.evidenceRefs.filter (known.contains ·)))) item

/-- An update in words of the places that it writes. -/
theorem getElem?_applyAcceptanceUpdate (known : List String) (criteria : List Json)
    (update : TaskAcceptanceUpdate) (i : ℕ) :
    (applyAcceptanceUpdate known criteria update)[i]? =
      if writesCriterion known criteria i update then (criteria[i]?).map (updated known update)
      else criteria[i]? := by
  rw [applyAcceptanceUpdate,writesCriterion]
  split
  · next hentry => simp [hentry]
  · next k hentry =>
    simp only [hentry]
    by_cases hmissing : update.status = .passed ∧ update.evidenceRefs.filter (known.contains ·) = []
    · rw [if_pos hmissing,if_neg]
      rw [hmissing.1,hmissing.2]
      simp
    · rw [if_neg hmissing]
      have hwrites : (update.status == CriterionStatus.passed &&
          (update.evidenceRefs.filter (known.contains ·)).isEmpty) = false := by
        rw [← Bool.not_eq_true,Bool.and_eq_true,beq_iff_eq,List.isEmpty_iff]
        exact hmissing
      rw [hwrites,Bool.not_false,Bool.and_true]
      by_cases hk : k = i
      · subst hk
        rw [RowTable.getElem?_modify_self,if_pos (beq_self_eq_true _)]
        rfl
      · rw [RowTable.getElem?_modify_ne _ _ hk,if_neg (by simpa using hk)]

/-- A criterion that an update writes is an object, and what it holds afterwards. -/
theorem updated_of_writes (h : writesCriterion known criteria i update = true)
    (hitem : criteria[i]? = some item) :
    (updated known update item).textAt "status" = some update.status.value ∧
    (updated known update item).field "evidence_refs" =
      some (texts (update.evidenceRefs.filter (known.contains ·))) ∧
    (update.status = .passed → update.evidenceRefs.filter (known.contains ·) ≠ []) := by
  rw [writesCriterion,Bool.and_eq_true,beq_iff_eq,Bool.not_eq_true',← Bool.not_eq_true,
    Bool.and_eq_true,beq_iff_eq,List.isEmpty_iff] at h
  obtain ⟨item',hitem',htext⟩ := lastEntry_some h.1
  obtain rfl := Option.some.inj (hitem.symm.trans hitem')
  cases item with
  | obj fields =>
    refine ⟨?_,?_,fun hpassed hnone => h.2 ⟨hpassed,hnone⟩⟩
    · simp only [updated,Json.mapFields,Json.textAt]
      rw [Dict.get_put_of_ne _ _ (by decide),Dict.get_put]
    · simp only [updated,Json.mapFields,Json.field]
      rw [Dict.get_put]
  | _ => cases htext

/-- An update names recorded evidence only. -/
theorem evidenced_foldl (hknown : ∀ r ∈ known, r ∈ recorded) (updates : List TaskAcceptanceUpdate)
    (hall : ∀ item ∈ criteria, Evidenced recorded item) :
    ∀ item ∈ updates.foldl (applyAcceptanceUpdate known) criteria, Evidenced recorded item := by
  refine Trace.foldl_invariant (I := fun criteria => ∀ item ∈ criteria, Evidenced recorded item)
    updates (fun criteria update _ hall item hitem => ?_) hall
  obtain ⟨i,hi,hget⟩ := List.mem_iff_getElem.mp hitem
  have hget : (applyAcceptanceUpdate known criteria update)[i]? = some item := by
    rw [List.getElem?_eq_getElem hi,hget]
  rw [getElem?_applyAcceptanceUpdate] at hget
  split at hget
  · next hwrites =>
    obtain ⟨old,hold,rfl⟩ := Option.map_eq_some_iff.mp hget
    refine ⟨_,(updated_of_writes hwrites hold).2.1,fun r hr => hknown r ?_⟩
    simpa using (List.mem_filter.mp hr).2
  · exact hall item (List.mem_of_getElem? hget)

end

/-- Two documents have the same recent events and the same criteria. -/
structure SameEvidence (state state' : Dict) : Prop where
  recent : listed (part state' "runtime") "recent_events" =
    listed (part state "runtime") "recent_events"
  criteria : criteriaOf state' = criteriaOf state

section

variable {state state' state'' : Dict} {key field : String}

theorem SameEvidence.refl (state : Dict) : SameEvidence state state := ⟨rfl,rfl⟩

theorem SameEvidence.trans (h : SameEvidence state state') (h' : SameEvidence state' state'') :
    SameEvidence state state'' :=
  ⟨h'.recent.trans h.recent,h'.criteria.trans h.criteria⟩

theorem sameEvidence_put (state : Dict) (value : Json)
    (h : key ∉ ["runtime","acceptance_criteria"]) :
    SameEvidence state (Dict.put state key value) := by
  simp only [List.mem_cons,List.not_mem_nil,or_false,not_or] at h
  refine ⟨?_,listed_put_of_ne state value h.2⟩
  rw [part_put_of_ne state value h.1]

theorem sameEvidence_runtime (state : Dict) {runtime : Dict}
    (h : listed runtime "recent_events" = listed (part state "runtime") "recent_events") :
    SameEvidence state (Dict.put state "runtime" (.obj runtime)) := by
  refine ⟨?_,listed_put_of_ne state _ (by decide)⟩
  rw [part_put,h]

theorem sameEvidence_putIn (state : Dict) (value : Json) (hkey : key ≠ "acceptance_criteria")
    (h : key ≠ "runtime" ∨ field ≠ "recent_events") :
    SameEvidence state (putIn state key field value) := by
  by_cases hr : key = "runtime"
  · subst hr
    refine sameEvidence_runtime state (listed_put_of_ne _ value ?_)
    exact h.resolve_left fun hne => hne rfl
  · exact sameEvidence_put state _ (by simp [hr,hkey])

/-- The controller writes none of them. -/
theorem controllerState_evidence (state : Dict) (controller : String)
    (nextWakeAt : Option String) (retryCount transientRetryCount : Option ℕ)
    (runId finishedAt : Option String) : SameEvidence state (controllerState state controller
      nextWakeAt retryCount transientRetryCount runId finishedAt) :=
  ⟨(controllerState_runtime state controller nextWakeAt retryCount transientRetryCount runId
    finishedAt).listed (by decide),listed_put_of_ne state _ (by decide)⟩

theorem concludeDelta_evidence (state : Dict) (status : DeltaStatus) :
    SameEvidence state (concludeDelta state status) := by
  have hstatus : ∀ value, SameEvidence state (Dict.put state "status" value) :=
    fun value => sameEvidence_put state value (by decide)
  have hin : ∀ (state : Dict) (key field : String) (value : Json), key ≠ "acceptance_criteria" →
      (key ≠ "runtime" ∨ field ≠ "recent_events") →
      SameEvidence state (putIn state key field value) :=
    fun state key field value hkey h => sameEvidence_putIn state value hkey h
  simp only [concludeDelta]
  split
  · split
    · split
      · exact (hstatus _).trans (hin _ _ _ _ (by decide) (by decide))
      · exact ((hstatus _).trans (hin _ _ _ _ (by decide) (by decide))).trans
          (hin _ _ _ _ (by decide) (by decide))
    · exact (((hstatus _).trans (hin _ _ _ _ (by decide) (by decide))).trans
        (hin _ _ _ _ (by decide) (by decide))).trans (hin _ _ _ _ (by decide) (by decide))
  · cases status with
    | active => exact hstatus _
    | complete => exact (hstatus _).trans (hin _ _ _ _ (by decide) (by decide))

theorem storeTask_evidence (fresh : String) (row : TranscriptRow) (state : Dict) :
    SameEvidence state (storeTask fresh row state).activeTaskState := by
  simp only [storeTask]
  split
  · exact sameEvidence_put state _ (by decide)
  · exact (sameEvidence_put state _ (by decide)).trans (sameEvidence_put _ _ (by decide))

theorem mutateTask_evidence (fresh : String) (row : TranscriptRow) (transform : Dict → Dict) :
    SameEvidence (transform row.activeTaskState)
      (mutateTask fresh row transform).activeTaskState := by
  simp only [mutateTask]
  split
  · next hsame =>
    rw [eq_of_sameFields hsame]
    exact SameEvidence.refl _
  · exact storeTask_evidence fresh row _

variable [ActionRuntime]

theorem iterationOutcome_evidence (limits : RetryLimits) (outcome : IterationOutcome)
    (state : Dict) : SameEvidence state (iterationOutcome limits outcome state) := by
  have hall := controllerState_evidence state
  simp only [iterationOutcome]
  split_ifs <;> exact hall _ _ _ _ _ _

omit [ActionRuntime] in
theorem cancelledState_evidence (state : Dict) (cancelledAt reason : String) :
    SameEvidence state (cancelledState state cancelledAt reason) := by
  simp only [cancelledState]
  refine ((sameEvidence_put state _ (by decide)).trans
    (sameEvidence_putIn _ _ (by decide) (by decide))).trans (sameEvidence_runtime _ ?_)
  rw [listed_put_of_ne _ _ (by decide),listed_put_of_ne _ _ (by decide),
    listed_put_of_ne _ _ (by decide),listed_put_of_ne _ _ (by decide),
    listed_put_of_ne _ _ (by decide)]

omit [ActionRuntime] in
theorem resumedState_evidence (state : Dict) (wakeAt : String) :
    SameEvidence state (resumedState state wakeAt) := by
  refine sameEvidence_runtime _ ?_
  rw [listed_put_of_ne _ _ (by decide),listed_put_of_ne _ _ (by decide),
    listed_put_of_ne _ _ (by decide),listed_put_of_ne _ _ (by decide),
    listed_put_of_ne _ _ (by decide)]

theorem removeResolved_evidence (fresh : String) (resolved : List String)
    (h : state.isEmpty = false) :
    SameEvidence state (removeResolvedPendingActions fresh state resolved) := by
  simp only [removeResolvedPendingActions,h,Bool.false_eq_true,if_false]
  split
  · exact SameEvidence.refl state
  · exact sameEvidence_putIn _ _ (by decide) (by decide)

theorem knownEvidenceIds_congr
    (h : listed (part state' "runtime") "recent_events" =
      listed (part state "runtime") "recent_events") :
    knownEvidenceIds state' = knownEvidenceIds state := by
  rw [knownEvidenceIds,h,knownEvidenceIds]

omit [ActionRuntime] in
theorem checkpoints_get (state : Dict) (completed : Option (List String)) {k : String}
    (hk : k ≠ "checkpoints") : Dict.get (match completed,Dict.get state "checkpoints" with
      | some completed,some (.arr checkpoints) =>
          Dict.put state "checkpoints" (.arr (markCheckpoints completed checkpoints))
      | _,_ => state) k = Dict.get state k := by
  split
  · exact Dict.get_put_of_ne state _ (Ne.symm hk)
  · rfl

theorem criteriaOf_acceptance (state : Dict) (updates : Option (List TaskAcceptanceUpdate)) :
    criteriaOf (match updates with
      | none => state
      | some updates => applyAcceptanceUpdates state updates) =
    (updates.getD []).foldl (applyAcceptanceUpdate (knownEvidenceIds state)) (criteriaOf state) := by
  cases updates with
  | none => rfl
  | some updates =>
    have hnil : ∀ updates : List TaskAcceptanceUpdate, updates.foldl
        (applyAcceptanceUpdate (knownEvidenceIds state)) [] = [] := by
      intro updates
      induction updates with
      | nil => rfl
      | cons update updates ih => exact ih
    simp only [applyAcceptanceUpdates,Option.getD_some]
    split
    · next criteria hcriteria => simp only [criteriaOf,listed,Dict.get_put,hcriteria]
    · next hnone =>
      have hlisted : criteriaOf state = [] := by
        rw [criteriaOf,listed]
        split
        · next l hl => exact absurd hl (hnone l)
        · rfl
      rw [hlisted,hnil]

theorem acceptance_get (state : Dict) (updates : Option (List TaskAcceptanceUpdate)) {k : String}
    (hk : k ≠ "acceptance_criteria") : Dict.get (match updates with
      | none => state
      | some updates => applyAcceptanceUpdates state updates) k = Dict.get state k := by
  cases updates with
  | none => rfl
  | some updates =>
    simp only [applyAcceptanceUpdates]
    split
    · exact Dict.get_put_of_ne state _ (Ne.symm hk)
    · rfl

/-- The part for managed tasks: the progress, then the updates of the criteria. -/
theorem mergeManaged_parts (state : Dict) (delta : TaskStateDelta) : ∃ before runtime,
    mergeManaged state delta = Dict.put (match delta.acceptanceUpdates with
      | none => before
      | some updates => applyAcceptanceUpdates before updates) "runtime" (.obj runtime) ∧
    ∀ k, k ≠ "progress" → k ≠ "checkpoints" → Dict.get before k = Dict.get state k := by
  refine ⟨_,_,rfl,fun k hp hc => ?_⟩
  refine (checkpoints_get _ (delta.completedCheckpoints.map (boundedStrings · 32)) hc).trans ?_
  exact Dict.get_put_of_ne state _ (Ne.symm hp)

theorem mergeManaged_get (state : Dict) (delta : TaskStateDelta) {k : String}
    (hk : k ∉ ["progress","checkpoints","acceptance_criteria","runtime"]) :
    Dict.get (mergeManaged state delta) k = Dict.get state k := by
  simp only [List.mem_cons,List.not_mem_nil,or_false,not_or] at hk
  obtain ⟨before,runtime,hmerged,hbefore⟩ := mergeManaged_parts state delta
  rw [hmerged,Dict.get_put_of_ne _ _ (Ne.symm hk.2.2.2)]
  exact (acceptance_get before delta.acceptanceUpdates hk.2.2.1).trans (hbefore k hk.1 hk.2.1)

theorem criteriaOf_mergeManaged (state : Dict) (delta : TaskStateDelta) :
    criteriaOf (mergeManaged state delta) = (delta.acceptanceUpdates.getD []).foldl
      (applyAcceptanceUpdate (knownEvidenceIds state)) (criteriaOf state) := by
  obtain ⟨before,runtime,hmerged,hbefore⟩ := mergeManaged_parts state delta
  have hknown : knownEvidenceIds before = knownEvidenceIds state := by
    apply knownEvidenceIds_congr
    rw [part,hbefore _ (by decide) (by decide),part]
  have hcriteria : criteriaOf before = criteriaOf state := by
    rw [criteriaOf,listed,hbefore _ (by decide) (by decide),criteriaOf,listed]
  rw [hmerged,criteriaOf,listed_put_of_ne _ _ (by decide),← hknown,← hcriteria]
  exact criteriaOf_acceptance before delta.acceptanceUpdates

/-- A delta first writes the semantic part, then what there is of a managed task, last its status. -/
theorem mergeSemanticDelta_parts (fresh : String) (delta : TaskStateDelta)
    (h : state.isEmpty = false) : ∃ semantic,
    (∀ k, k ≠ "semantic" → Dict.get semantic k = Dict.get state k) ∧
    mergeSemanticDelta fresh state delta = (match delta.status with
      | none => if managed semantic then mergeManaged semantic delta else semantic
      | some status =>
          concludeDelta (if managed semantic then mergeManaged semantic delta else semantic) status) := by
  refine ⟨Dict.put (if delta.replace then Dict.put state "semantic" (.obj emptySemantic) else state)
    "semantic" (.obj (mergeSemantic (part (if delta.replace then
      Dict.put state "semantic" (.obj emptySemantic) else state) "semantic") delta)),?_,?_⟩
  · intro k hk
    rw [Dict.get_put_of_ne _ _ (Ne.symm hk)]
    split
    · rw [Dict.get_put_of_ne _ _ (Ne.symm hk)]
    · rfl
  · cases hstatus : delta.status with
    | none => simp only [mergeSemanticDelta,h,hstatus,Bool.false_eq_true,if_false]
    | some status => simp only [mergeSemanticDelta,h,hstatus,Bool.false_eq_true,if_false]

omit [ActionRuntime] in
theorem managed_congr (h : Dict.get state' "mode" = Dict.get state "mode") :
    managed state' = managed state := by
  rw [managed,Dict.text,h,managed,Dict.text]

/-- A delta on a managed task, before it says whether the task is complete. -/
theorem mergeSemanticDelta_managed (fresh : String) (delta : TaskStateDelta)
    (h : managed state = true) : ∃ merged,
    mergeSemanticDelta fresh state delta = (match delta.status with
      | none => merged
      | some status => concludeDelta merged status) ∧
    managed merged = true ∧ Dict.text merged "status" = Dict.text state "status" ∧
    RuntimeBut deltaFields state merged ∧
    criteriaOf merged = (delta.acceptanceUpdates.getD []).foldl
      (applyAcceptanceUpdate (knownEvidenceIds state)) (criteriaOf state) := by
  obtain ⟨semantic,hget,hmerge⟩ :=
    mergeSemanticDelta_parts fresh delta (ne_nil_of_managed h)
  have hmanaged : managed semantic = true := (managed_congr (hget _ (by decide))).trans h
  have hcriteria : criteriaOf semantic = criteriaOf state := by
    rw [criteriaOf,listed,hget _ (by decide),criteriaOf,listed]
  have hpart : part semantic "runtime" = part state "runtime" := by
    rw [part,hget _ (by decide),part]
  have hknown : knownEvidenceIds semantic = knownEvidenceIds state := by
    rw [knownEvidenceIds,hpart,knownEvidenceIds]
  refine ⟨mergeManaged semantic delta,?_,?_,?_,?_,?_⟩
  · rw [hmerge]
    simp only [hmanaged,if_true]
  · rw [(mergeManaged_same semantic delta).managed,hmanaged]
  · rw [Dict.text,mergeManaged_get _ _ (by decide),hget _ (by decide),Dict.text]
  · intro k hk
    rw [mergeManaged_runtime semantic delta k hk,hpart]
  · rw [criteriaOf_mergeManaged,hknown,hcriteria]

omit [ActionRuntime] in
theorem begun_evidence (fresh : String) (state : Dict) :
    SameEvidence state (if state.isEmpty then newTaskState fresh "" else state) := by
  split
  · next h =>
    obtain rfl := List.isEmpty_iff.mp h
    exact ⟨rfl,rfl⟩
  · exact SameEvidence.refl state

/-- A delta on a task that is not managed leaves the evidence alone. -/
theorem mergeSemanticDelta_evidence (fresh : String) (delta : TaskStateDelta)
    (h : managed state = false) : SameEvidence state (mergeSemanticDelta fresh state delta) := by
  have hbegun : managed (if state.isEmpty then newTaskState fresh "" else state) = false := by
    split
    · rfl
    · exact h
  have hsame : mergeSemanticDelta fresh state delta =
      mergeSemanticDelta fresh (if state.isEmpty then newTaskState fresh "" else state) delta := by
    simp only [mergeSemanticDelta,begun_isEmpty,Bool.false_eq_true,if_false]
  obtain ⟨semantic,hget,hmerge⟩ := mergeSemanticDelta_parts fresh delta (begun_isEmpty fresh state)
  have hmanaged := (managed_congr (hget _ (by decide))).trans hbegun
  have hsemantic : SameEvidence state semantic := by
    refine (begun_evidence fresh state).trans ⟨?_,?_⟩
    · rw [part,hget _ (by decide),part]
    · rw [criteriaOf,listed,hget _ (by decide),criteriaOf,listed]
  rw [hsame,hmerge]
  simp only [hmanaged,Bool.false_eq_true,if_false]
  cases delta.status with
  | none => exact hsemantic
  | some status => exact hsemantic.trans (concludeDelta_evidence semantic status)

/-- What the runtime recorded covers what a document names. -/
structure Recorded (recorded : List String) (state : Dict) : Prop where
  known : ∀ r ∈ knownEvidenceIds state, r ∈ recorded
  criteria : ∀ item ∈ criteriaOf state, Evidenced recorded item

theorem Recorded.same {recorded : List String} (h : Recorded recorded state)
    (hs : SameEvidence state state') : Recorded recorded state' := by
  refine ⟨?_,?_⟩
  · rw [knownEvidenceIds_congr hs.recent]
    exact h.known
  · rw [hs.criteria]
    exact h.criteria

omit [ActionRuntime] in
theorem Evidenced.mono {recorded recorded' : List String} {item : Json}
    (h : Evidenced recorded item) (hsub : recorded ⊆ recorded') : Evidenced recorded' item := by
  obtain ⟨refs,hrefs,hall⟩ := h
  exact ⟨refs,hrefs,fun r hr => hsub (hall r hr)⟩

theorem Recorded.mono {recorded recorded' : List String} (h : Recorded recorded state)
    (hsub : recorded ⊆ recorded') : Recorded recorded' state :=
  ⟨fun r hr => hsub (h.known r hr),fun item hitem => (h.criteria item hitem).mono hsub⟩

/-- A runtime event makes its evidence known, no other. -/
theorem knownEvidenceIds_recordRuntimeEvent (fresh : String) (event : RuntimeEvent) {r : String}
    (h : r ∈ knownEvidenceIds (recordRuntimeEvent fresh state event)) :
    r ∈ knownEvidenceIds state ∨ r = event.evidenceId := by
  have hrecent : ∃ entry : Dict, Dict.get entry "evidence_id" = some (.str event.evidenceId) ∧
      listed (part (recordRuntimeEvent fresh state event) "runtime") "recent_events" =
        lastItems maxEvents (listed (part state "runtime") "recent_events" ++ [Json.obj entry]) := by
    refine ⟨putSome [("operation",.str event.operation),("phase",.str event.phase),
      ("evidence_id",.str event.evidenceId),
      ("targets",.obj (safeTargets event.arguments event.detail))] "action_id"
      ((event.actionId.bind orNone).map .str),?_,?_⟩
    · rw [get_putSome_of_ne _ _ (by decide)]
      rfl
    · rw [← (begun_evidence fresh state).recent]
      simp only [recordRuntimeEvent,part_put]
      split_ifs <;> simp [listed,Dict.get_put_of_ne]
  obtain ⟨entry,hentry,hrecent⟩ := hrecent
  simp only [knownEvidenceIds,hrecent,List.mem_filterMap] at h ⊢
  obtain ⟨item,hitem,hid⟩ := h
  rcases List.mem_append.mp (List.mem_of_mem_drop hitem) with hold | hnew
  · exact .inl ⟨item,hold,hid⟩
  · right
    obtain rfl := List.mem_singleton.mp hnew
    simp only [Json.field,hentry,entryText,Option.getD_some,ActionRuntime.str_text] at hid
    split at hid
    · exact (Option.some.inj hid).symm
    · cases hid

theorem criteriaOf_recordRuntimeEvent (fresh : String) (event : RuntimeEvent) (state : Dict) :
    criteriaOf (recordRuntimeEvent fresh state event) = criteriaOf state := by
  rw [← (begun_evidence fresh state).criteria]
  simp only [recordRuntimeEvent]
  exact listed_put_of_ne _ _ (by decide)

theorem Recorded.event {recorded : List String} (h : Recorded recorded state) (fresh : String)
    (event : RuntimeEvent) :
    Recorded (recorded ++ [event.evidenceId]) (recordRuntimeEvent fresh state event) := by
  refine ⟨fun r hr => ?_,?_⟩
  · rcases knownEvidenceIds_recordRuntimeEvent fresh event hr with hold | rfl
    · exact List.mem_append_left _ (h.known r hold)
    · exact List.mem_append_right _ (List.mem_singleton_self _)
  · rw [criteriaOf_recordRuntimeEvent]
    exact (h.mono (List.subset_append_left _ _)).criteria

theorem Recorded.delta {recorded : List String} (h : Recorded recorded state) (fresh : String)
    (delta : TaskStateDelta) : Recorded recorded (mergeSemanticDelta fresh state delta) := by
  by_cases hmanaged : managed state = true
  · obtain ⟨merged,hmerge,_,_,hruntime,hcriteria⟩ :=
      mergeSemanticDelta_managed fresh delta hmanaged
    have hmerged : Recorded recorded merged := by
      refine ⟨?_,?_⟩
      · rw [knownEvidenceIds_congr (hruntime.listed (by decide))]
        exact h.known
      · rw [hcriteria]
        exact evidenced_foldl h.known _ h.criteria
    rw [hmerge]
    cases delta.status with
    | none => exact hmerged
    | some status => exact hmerged.same (concludeDelta_evidence merged status)
  · exact h.same (mergeSemanticDelta_evidence fresh delta (Bool.not_eq_true _ ▸ hmanaged))

theorem Recorded.ownerTurn {recorded : List String} (h : Recorded recorded state)
    (fresh request ownerTurnId : String) :
    Recorded recorded (beginOwnerCheckpoint fresh state request ownerTurnId) := by
  have hturn : Recorded recorded (beginOwnerTurn fresh state request) := by
    have hnew : ∀ state' : Dict, listed (part state' "runtime") "recent_events" = [] →
        criteriaOf state' = [] → Recorded recorded state' := by
      intro state' hrecent hcriteria
      refine ⟨?_,?_⟩
      · rw [knownEvidenceIds,hrecent]
        exact fun r hr => absurd hr List.not_mem_nil
      · rw [hcriteria]
        exact fun item hitem => absurd hitem List.not_mem_nil
    simp only [beginOwnerTurn]
    split
    · split
      · exact hnew _ rfl rfl
      · refine hnew _ ?_ ?_
        · rw [part_put,listed_put_of_ne _ _ (by decide)]
          rfl
        · rw [criteriaOf,listed_put_of_ne _ _ (by decide)]
          rfl
    · refine h.same ((sameEvidence_runtime state ?_).trans (sameEvidence_put _ _ (by decide)))
      rw [listed_put_of_ne _ _ (by decide),listed_put_of_ne _ _ (by decide)]
  refine hturn.same (sameEvidence_runtime _ ?_)
  rw [listed_put_of_ne _ _ (by decide)]

omit [ActionRuntime] in
theorem recordedIds_append (folds : List TaskFold) (fold : TaskFold) :
    recordedIds (folds ++ [fold]) = recordedIds folds ++ recordedIds [fold] :=
  List.filterMap_append

theorem Recorded.fold {row : TranscriptRow} {folds : List TaskFold}
    (h : Recorded (recordedIds folds) row.activeTaskState) (fold : TaskFold) :
    Recorded (recordedIds (folds ++ [fold])) (foldTask row fold).activeTaskState := by
  have hstored : ∀ (recorded : List String) (fresh : String) (transform : Dict → Dict),
      Recorded recorded (transform row.activeTaskState) →
      Recorded recorded (mutateTask fresh row transform).activeTaskState :=
    fun recorded fresh transform hr => hr.same (mutateTask_evidence fresh row transform)
  have hrest : recordedIds [fold] = [] →
      Recorded (recordedIds folds) (foldTask row fold).activeTaskState →
      Recorded (recordedIds (folds ++ [fold])) (foldTask row fold).activeTaskState := by
    intro hnone hr
    rw [recordedIds_append,hnone,List.append_nil]
    exact hr
  cases fold with
  | ownerTurn fresh request ownerTurnId =>
    exact hrest rfl (hstored _ _ _ (h.ownerTurn fresh request ownerTurnId))
  | task e =>
    cases e with
    | runtime fresh event =>
      rw [recordedIds_append]
      exact hstored _ _ _ (h.event fresh event)
    | delta fresh delta => exact hrest rfl (hstored _ _ _ (h.delta fresh delta))
    | resolved fresh actionIds =>
      refine hrest rfl (hstored _ _ _ ?_)
      have hbegun := h.same (begun_evidence fresh _)
      have hremoved := hbegun.same
        (removeResolved_evidence fresh actionIds (begun_isEmpty fresh _))
      simpa only [removeResolvedPendingActions,begun_isEmpty,Bool.false_eq_true,if_false]
        using hremoved
    | controller fresh controller nextWakeAt retryCount transientRetryCount runId finishedAt =>
      exact hrest rfl (hstored _ _ _ (h.same (controllerState_evidence _ _ _ _ _ _ _)))
    | outcome fresh limits outcome =>
      exact hrest rfl (hstored _ _ _ (h.same (iterationOutcome_evidence _ _ _)))
    | cancel fresh cancelledAt reason =>
      refine hrest rfl ?_
      simp only [foldTask,foldEvent]
      split
      · exact h
      · exact h.same ((cancelledState_evidence _ _ _).trans (storeTask_evidence fresh row _))
    | resume fresh wakeAt =>
      refine hrest rfl ?_
      simp only [foldTask,foldEvent]
      split
      · exact h
      · exact h.same ((resumedState_evidence _ _).trans (storeTask_evidence fresh row _))

omit [ActionRuntime] in
theorem text_put (state : Dict) (key value : String) :
    Dict.text (Dict.put state key (.str value)) key = some value := by
  rw [Dict.text,Dict.get_put]

omit [ActionRuntime] in
theorem text_put_of_ne {k : String} (state : Dict) (value : Json) (h : key ≠ k) :
    Dict.text (Dict.put state key value) k = Dict.text state k := by
  rw [Dict.text,Dict.get_put_of_ne _ _ h,Dict.text]

end

/-- The document of the agreed task. -/
def agreedRow : TranscriptRow where
  activeTaskState := ((newManagedTaskState "T" "P" agreedTask).toOption).getD []

/-- The tests have passed and the task is done. -/
def doneDelta : TaskStateDelta where
  acceptanceUpdates := some [⟨"A1",.passed,["E1"]⟩]
  status := some .complete

end Runtime
end Atlas
