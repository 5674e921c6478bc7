import Atlas.Runtime.TaskState
import Atlas.Lib.RowCounts

/-! What the owner agreed to when a managed task was made, across everything that is folded into
the task document afterwards. -/
namespace Atlas
namespace Runtime

open Memory (TranscriptRow)
open Actions

/-- The agreed contract as a task document holds it. -/
structure Contract where
  projectId : Option Json
  objective : Option Json
  scope : Option Json
  criteria : List (Option Json × Option Json)
  authorityGrants : Option Json

def contract (state : Dict) : Contract where
  projectId := Dict.get state "project_id"
  objective := Dict.get (part state "semantic") "objective"
  scope := Dict.get state "scope"
  criteria := (listed state "acceptance_criteria").map fun item => (item.field "id",item.field "text")
  authorityGrants := Dict.get state "authority_grants"

/-- What is folded into the document of a managed task. -/
inductive TaskEvent where
  | delta (fresh : String) (delta : TaskStateDelta)
  | runtime (fresh : String) (event : RuntimeEvent)
  | resolved (fresh : String) (actionIds : List String)
  | controller (fresh controller : String) (nextWakeAt : Option String)
      (retryCount transientRetryCount : Option ℕ) (runId finishedAt : Option String)
  | outcome (fresh : String) (limits : RetryLimits) (outcome : IterationOutcome)
  | cancel (fresh cancelledAt reason : String)
  | resume (fresh wakeAt : String)

section

variable [ActionRuntime]

def foldEvent (row : TranscriptRow) : TaskEvent → TranscriptRow
  | .delta fresh delta => mutateTask fresh row (mergeSemanticDelta fresh · delta)
  | .runtime fresh event => mutateTask fresh row (recordRuntimeEvent fresh · event)
  | .resolved fresh actionIds => mutateTask fresh row (removeResolvedPendingActions fresh · actionIds)
  | .controller fresh controller nextWakeAt retryCount transientRetryCount runId finishedAt =>
      mutateTask fresh row
        (controllerState · controller nextWakeAt retryCount transientRetryCount runId finishedAt)
  | .outcome fresh limits outcome => mutateTask fresh row (iterationOutcome limits outcome)
  | .cancel fresh cancelledAt reason =>
      if Dict.text row.activeTaskState "status" ≠ some "active" then row
      else storeTask fresh row (cancelledState row.activeTaskState cancelledAt reason)
  | .resume fresh wakeAt =>
      if Dict.text row.activeTaskState "status" ≠ some "active" ∨
        Dict.text (part row.activeTaskState "runtime") "controller_state" ≠ some "stalled" then row
      else storeTask fresh row (resumedState row.activeTaskState wakeAt)

end

/-- What a delta makes of the objective. -/
def objectiveAfter (delta : TaskStateDelta) (objective : Option Json) : Option Json :=
  match delta.objective with
  | some text => some (.str (clip text 800))
  | none => if delta.replace then some .null else objective

/-- Whether an event leaves an agreed objective as it is. -/
def TaskEvent.keeps (agreed : String) : TaskEvent → Prop
  | .delta _ change =>
      match change.objective with
      | some text => clip text 800 = agreed
      | none => change.replace = false
  | _ => True

mutual

theorem eq_of_sameJson : ∀ {a b : Json}, sameJson a b = true → a = b
  | .null,.null,_ => rfl
  | .bool _,.bool _,h => congrArg Json.bool (beq_iff_eq.mp h)
  | .num _,.num _,h => congrArg Json.num (beq_iff_eq.mp h)
  | .str _,.str _,h => congrArg Json.str (beq_iff_eq.mp h)
  | .arr _,.arr _,h => congrArg Json.arr (eq_of_sameItems h)
  | .obj _,.obj _,h => congrArg Json.obj (eq_of_sameFields h)

theorem eq_of_sameItems : ∀ {a b : List Json}, sameItems a b = true → a = b
  | [],[],_ => rfl
  | a :: as,b :: bs,h => by
      rw [sameItems,Bool.and_eq_true] at h
      rw [eq_of_sameJson h.1,eq_of_sameItems h.2]

theorem eq_of_sameFields : ∀ {a b : List (String × Json)}, sameFields a b = true → a = b
  | [],[],_ => rfl
  | (k,a) :: as,(l,b) :: bs,h => by
      rw [sameFields,Bool.and_eq_true,Bool.and_eq_true,beq_iff_eq] at h
      rw [h.1.1,eq_of_sameJson h.1.2,eq_of_sameFields h.2]

end

section

variable {state : Dict} {key k : String} {value : Json}

@[simp] theorem part_put (state : Dict) (key : String) (d : Dict) :
    part (Dict.put state key (.obj d)) key = d := by
  rw [part,Dict.get_put]

theorem part_put_of_ne (state : Dict) (value : Json) (h : key ≠ k) :
    part (Dict.put state key value) k = part state k := by
  rw [part,Dict.get_put_of_ne state value h,part]

theorem listed_put_of_ne (state : Dict) (value : Json) (h : key ≠ k) :
    listed (Dict.put state key value) k = listed state k := by
  rw [listed,Dict.get_put_of_ne state value h,listed]

theorem get_putSome_of_ne (state : Dict) (value : Option Json) (h : key ≠ k) :
    Dict.get (putSome state key value) k = Dict.get state k := by
  cases value with
  | none => rfl
  | some value => exact Dict.get_put_of_ne state value h

theorem get_putSome (state : Dict) (key : String) (value : Option Json) :
    Dict.get (putSome state key value) key =
    (value <|> Dict.get state key) := by
  cases value with
  | none => rfl
  | some value => exact Dict.get_put state key value

/-- The keys under which a document holds the contract and what says that it is one. -/
def contractKeys : List String :=
  ["mode","project_id","semantic","scope","acceptance_criteria","authority_grants"]

/-- One document holds the contract of another. -/
structure SameContract (state state' : Dict) : Prop where
  contract : contract state' = contract state
  managed : managed state' = managed state

theorem SameContract.refl (state : Dict) : SameContract state state := ⟨rfl,rfl⟩

theorem SameContract.trans {state' state'' : Dict} (h : SameContract state state')
    (h' : SameContract state' state'') : SameContract state state'' :=
  ⟨h'.contract.trans h.contract,h'.managed.trans h.managed⟩

theorem managed_put (state : Dict) (value : Json) (h : key ≠ "mode") :
    managed (Dict.put state key value) = managed state := by
  rw [managed,managed,Dict.text,Dict.text,Dict.get_put_of_ne state value h]

theorem sameContract_put (state : Dict) (value : Json) (h : key ∉ contractKeys) :
    SameContract state (Dict.put state key value) := by
  simp only [contractKeys,List.mem_cons,List.not_mem_nil,or_false,not_or] at h
  obtain ⟨hmode,hproject,hsemantic,hscope,hcriteria,hgrants⟩ := h
  refine ⟨?_,managed_put state value hmode⟩
  simp only [Runtime.contract,Dict.get_put_of_ne state value hproject,
    part_put_of_ne state value hsemantic,Dict.get_put_of_ne state value hscope,
    listed_put_of_ne state value hcriteria,Dict.get_put_of_ne state value hgrants]

theorem sameContract_putIn (state : Dict) (field : String) (value : Json)
    (h : key ∉ contractKeys) : SameContract state (putIn state key field value) :=
  sameContract_put state _ h

theorem contract_put_semantic (state semantic : Dict) :
    contract (Dict.put state "semantic" (.obj semantic)) =
      {contract state with objective := Dict.get semantic "objective"} := by
  simp only [contract,part_put,Dict.get_put_of_ne state _ (show "semantic" ≠ "project_id" by decide),
    Dict.get_put_of_ne state _ (show "semantic" ≠ "scope" by decide),
    listed_put_of_ne state _ (show "semantic" ≠ "acceptance_criteria" by decide),
    Dict.get_put_of_ne state _ (show "semantic" ≠ "authority_grants" by decide)]

theorem sameContract_semantic (state : Dict) {field : String} (value : Json)
    (h : field ≠ "objective") : SameContract state (putIn state "semantic" field value) := by
  refine ⟨?_,managed_put state _ (by decide)⟩
  rw [putIn,contract_put_semantic,Dict.get_put_of_ne _ value h]
  rfl

/-- Entries whose ids and texts are those of others. -/
theorem contract_put_criteria (state : Dict) {criteria : List Json}
    (h : criteria.map (fun item => (item.field "id",item.field "text")) =
      (contract state).criteria) :
    SameContract state (Dict.put state "acceptance_criteria" (.arr criteria)) := by
  refine ⟨?_,managed_put state _ (by decide)⟩
  have hlisted : listed (Dict.put state "acceptance_criteria" (.arr criteria))
      "acceptance_criteria" = criteria := by rw [listed,Dict.get_put]
  simp only [Runtime.contract,hlisted,h,
    Dict.get_put_of_ne state _ (show "acceptance_criteria" ≠ "project_id" by decide),
    part_put_of_ne state _ (show "acceptance_criteria" ≠ "semantic" by decide),
    Dict.get_put_of_ne state _ (show "acceptance_criteria" ≠ "scope" by decide),
    Dict.get_put_of_ne state _ (show "acceptance_criteria" ≠ "authority_grants" by decide)]

theorem ne_nil_of_managed (h : managed state = true) : state.isEmpty = false := by
  cases state with
  | nil => cases h
  | cons p state => rfl

theorem get_mergeSemantic (semantic : Dict) (delta : TaskStateDelta) :
    Dict.get (mergeSemantic semantic delta) "objective" =
      ((delta.objective.map fun o => Json.str (clip o 800)) <|> Dict.get semantic "objective") := by
  rw [mergeSemantic,get_putSome_of_ne _ _ (by decide),get_putSome_of_ne _ _ (by decide),
    get_putSome_of_ne _ _ (by decide),get_putSome_of_ne _ _ (by decide),
    get_putSome_of_ne _ _ (by decide),get_putSome]

end

section

variable [ActionRuntime] {state : Dict}

theorem applyAcceptanceUpdate_texts (known : List String) (criteria : List Json)
    (update : TaskAcceptanceUpdate) :
    (applyAcceptanceUpdate known criteria update).map
        (fun item => (item.field "id",item.field "text")) =
      criteria.map fun item => (item.field "id",item.field "text") := by
  rw [applyAcceptanceUpdate]
  split
  · rfl
  · next i hi =>
    simp only
    split
    · rfl
    · refine RowTable.map_modify_eq i fun item => ?_
      cases item with
      | obj fields =>
        simp only [Json.mapFields,Json.field]
        rw [Dict.get_put_of_ne _ _ (by decide),Dict.get_put_of_ne _ _ (by decide),
          Dict.get_put_of_ne _ _ (by decide),Dict.get_put_of_ne _ _ (by decide)]
      | _ => rfl

theorem applyAcceptanceUpdates_same (state : Dict) (updates : List TaskAcceptanceUpdate) :
    SameContract state (applyAcceptanceUpdates state updates) := by
  rw [applyAcceptanceUpdates]
  split
  · next criteria hcriteria =>
    apply contract_put_criteria
    have hlisted : listed state "acceptance_criteria" = criteria := by rw [listed,hcriteria]
    simp only [contract,hlisted]
    have hfold : ∀ (updates : List TaskAcceptanceUpdate) (l : List Json),
        (updates.foldl (applyAcceptanceUpdate (knownEvidenceIds state)) l).map
          (fun item => (item.field "id",item.field "text")) =
        l.map fun item => (item.field "id",item.field "text") := by
      intro updates
      induction updates with
      | nil => exact fun _ => rfl
      | cons update updates ih =>
        intro l
        rw [List.foldl_cons,ih,applyAcceptanceUpdate_texts]
    exact hfold updates criteria
  · exact SameContract.refl state

omit [ActionRuntime] in
theorem checkpoints_same (state : Dict) (completed : Option (List String)) :
    SameContract state (match completed,Dict.get state "checkpoints" with
      | some completed,some (.arr checkpoints) => Dict.put state "checkpoints"
          (.arr (markCheckpoints completed checkpoints))
      | _,_ => state) := by
  split
  · exact sameContract_put state _ (by decide)
  · exact SameContract.refl state

theorem mergeManaged_same (state : Dict) (delta : TaskStateDelta) :
    SameContract state (mergeManaged state delta) := by
  have hprogress : ∀ progress, SameContract state (Dict.put state "progress" progress) :=
    fun progress => sameContract_put state progress (by decide)
  simp only [mergeManaged]
  refine SameContract.trans ?_ (sameContract_put _ _ (by decide))
  cases delta.acceptanceUpdates with
  | none => exact (hprogress _).trans (checkpoints_same _ _)
  | some updates =>
    exact ((hprogress _).trans (checkpoints_same _ _)).trans (applyAcceptanceUpdates_same _ updates)

omit [ActionRuntime] in
theorem concludeDelta_same (state : Dict) (status : DeltaStatus) :
    SameContract state (concludeDelta state status) := by
  have hstatus : ∀ value, SameContract state (Dict.put state "status" value) :=
    fun value => sameContract_put state value (by decide)
  simp only [concludeDelta]
  split
  · split
    · have hrejected := fun value => (hstatus (.str "active")).trans (@sameContract_putIn
        "runtime" (Dict.put state "status" (.str "active")) "completion_rejected" value
        (by decide))
      split
      · exact hrejected _
      · exact (hrejected _).trans (sameContract_semantic _ _ (by decide))
    · exact (((hstatus _).trans (sameContract_putIn _ _ _ (by decide))).trans
        (sameContract_semantic _ _ (by decide))).trans (sameContract_putIn _ _ _ (by decide))
  · cases status with
    | active => exact hstatus _
    | complete => exact (hstatus _).trans (sameContract_semantic _ _ (by decide))

/-- A delta changes nothing of the contract except the objective. -/
theorem mergeSemanticDelta_contract (fresh : String) (delta : TaskStateDelta)
    (h : managed state = true) :
    contract (mergeSemanticDelta fresh state delta) =
        {contract state with objective := objectiveAfter delta (contract state).objective} ∧
      managed (mergeSemanticDelta fresh state delta) = true := by
  generalize hreplaced : (if delta.replace then Dict.put state "semantic" (.obj emptySemantic)
    else state) = replaced
  generalize hmerged : Dict.put replaced "semantic"
    (.obj (mergeSemantic (part replaced "semantic") delta)) = merged
  have hcontract : contract merged =
      {contract state with objective := objectiveAfter delta (contract state).objective} := by
    rw [← hmerged,contract_put_semantic,get_mergeSemantic,objectiveAfter]
    cases hr : delta.replace with
    | true =>
      rw [hr,if_pos rfl] at hreplaced
      rw [← hreplaced,contract_put_semantic,part_put]
      cases delta.objective with
      | none => rfl
      | some text => rfl
    | false =>
      rw [hr,if_neg (by decide)] at hreplaced
      rw [← hreplaced]
      cases delta.objective with
      | none => rfl
      | some text => rfl
  have hmanaged : managed merged = true := by
    rw [← hmerged,managed_put _ _ (by decide),← hreplaced]
    split
    · rw [managed_put _ _ (by decide),h]
    · exact h
  have hsame := mergeManaged_same merged delta
  have hrest : SameContract merged (mergeSemanticDelta fresh state delta) := by
    simp only [mergeSemanticDelta,ne_nil_of_managed h,Bool.false_eq_true,if_false,hreplaced,
      hmerged,hmanaged,if_true]
    cases delta.status with
    | none => exact hsame
    | some status => exact hsame.trans (concludeDelta_same _ status)
  exact ⟨hrest.contract.trans hcontract,hrest.managed.trans hmanaged⟩

theorem recordRuntimeEvent_same (fresh : String) (event : RuntimeEvent)
    (h : managed state = true) : SameContract state (recordRuntimeEvent fresh state event) := by
  simp only [recordRuntimeEvent,ne_nil_of_managed h,Bool.false_eq_true,if_false]
  exact sameContract_put state _ (by decide)

theorem removeResolvedPendingActions_same (fresh : String) (resolved : List String)
    (h : managed state = true) :
    SameContract state (removeResolvedPendingActions fresh state resolved) := by
  simp only [removeResolvedPendingActions,ne_nil_of_managed h,Bool.false_eq_true,if_false]
  split
  · exact SameContract.refl state
  · exact sameContract_putIn state _ _ (by decide)

omit [ActionRuntime] in
theorem controllerState_same (state : Dict) (controller : String) (nextWakeAt : Option String)
    (retryCount transientRetryCount : Option ℕ) (runId finishedAt : Option String) :
    SameContract state (controllerState state controller nextWakeAt retryCount
      transientRetryCount runId finishedAt) :=
  sameContract_put state _ (by decide)

theorem iterationOutcome_same (limits : RetryLimits) (outcome : IterationOutcome)
    (state : Dict) : SameContract state (iterationOutcome limits outcome state) := by
  have hall := controllerState_same state
  simp only [iterationOutcome]
  split_ifs <;> exact hall _ _ _ _ _ _

omit [ActionRuntime] in
theorem cancelledState_same (state : Dict) (cancelledAt reason : String) :
    SameContract state (cancelledState state cancelledAt reason) := by
  simp only [cancelledState]
  exact ((sameContract_put state _ (by decide)).trans (sameContract_semantic _ _ (by decide))).trans
    (sameContract_put _ _ (by decide))

omit [ActionRuntime] in
theorem resumedState_same (state : Dict) (wakeAt : String) :
    SameContract state (resumedState state wakeAt) :=
  sameContract_put state _ (by decide)

omit [ActionRuntime] in
theorem storeTask_same (fresh : String) (row : TranscriptRow) (state : Dict) :
    SameContract state (storeTask fresh row state).activeTaskState := by
  simp only [storeTask]
  split
  · exact sameContract_put state _ (by decide)
  · exact (sameContract_put state _ (by decide)).trans (sameContract_put _ _ (by decide))

omit [ActionRuntime] in
theorem mutateTask_same (fresh : String) (row : TranscriptRow) (transform : Dict → Dict) :
    SameContract (transform row.activeTaskState)
      (mutateTask fresh row transform).activeTaskState := by
  simp only [mutateTask]
  split
  · next hsame =>
    rw [eq_of_sameFields hsame]
    exact SameContract.refl _
  · exact storeTask_same fresh row _

/-- What an event makes of the contract. -/
def contractAfter (agreed : Contract) : TaskEvent → Contract
  | .delta _ delta => {agreed with objective := objectiveAfter delta agreed.objective}
  | _ => agreed

theorem foldEvent_contract (row : TranscriptRow) (h : managed row.activeTaskState = true)
    (e : TaskEvent) :
    contract (foldEvent row e).activeTaskState = contractAfter (contract row.activeTaskState) e ∧
      managed (foldEvent row e).activeTaskState = true := by
  have hsame : ∀ {state : Dict}, SameContract row.activeTaskState state →
      contract state = contract row.activeTaskState ∧ managed state = true :=
    fun hs => ⟨hs.contract,hs.managed.trans h⟩
  cases e with
  | delta fresh delta =>
    obtain ⟨hcontract,hmanaged⟩ := mergeSemanticDelta_contract fresh delta h
    have hstored := mutateTask_same fresh row (mergeSemanticDelta fresh · delta)
    exact ⟨hstored.contract.trans hcontract,hstored.managed.trans hmanaged⟩
  | runtime fresh event =>
    exact hsame ((recordRuntimeEvent_same fresh event h).trans
      (mutateTask_same fresh row (recordRuntimeEvent fresh · event)))
  | resolved fresh actionIds =>
    exact hsame ((removeResolvedPendingActions_same fresh actionIds h).trans
      (mutateTask_same fresh row (removeResolvedPendingActions fresh · actionIds)))
  | controller fresh controller nextWakeAt retryCount transientRetryCount runId finishedAt =>
    exact hsame ((controllerState_same _ controller nextWakeAt retryCount transientRetryCount
      runId finishedAt).trans (mutateTask_same fresh row (controllerState · controller nextWakeAt
        retryCount transientRetryCount runId finishedAt)))
  | outcome fresh limits outcome =>
    exact hsame ((iterationOutcome_same limits outcome _).trans
      (mutateTask_same fresh row (iterationOutcome limits outcome)))
  | cancel fresh cancelledAt reason =>
    simp only [foldEvent]
    split
    · exact ⟨rfl,h⟩
    · exact hsame ((cancelledState_same _ cancelledAt reason).trans (storeTask_same fresh row _))
  | resume fresh wakeAt =>
    simp only [foldEvent]
    split
    · exact ⟨rfl,h⟩
    · exact hsame ((resumedState_same _ wakeAt).trans (storeTask_same fresh row _))

/-- The document of a managed task after what was folded into it. -/
def folded (row : TranscriptRow) (events : List TaskEvent) : TranscriptRow :=
  events.foldl foldEvent row

theorem folded_contract (events : List TaskEvent) : ∀ {row : TranscriptRow},
    managed row.activeTaskState = true →
    contract (folded row events).activeTaskState =
        events.foldl contractAfter (contract row.activeTaskState) ∧
      managed (folded row events).activeTaskState = true := by
  induction events with
  | nil => exact fun h => ⟨rfl,h⟩
  | cons e events ih =>
    intro row h
    obtain ⟨hcontract,hmanaged⟩ := foldEvent_contract row h e
    have hrest := ih hmanaged
    rw [hcontract] at hrest
    exact hrest

end

section

variable {agreed : Contract} {text : String}

theorem contractAfter_iff (h : agreed.objective = some (.str text)) (e : TaskEvent) :
    contractAfter agreed e = agreed ↔ e.keeps text := by
  obtain ⟨projectId,objective,scope,criteria,grants⟩ := agreed
  obtain rfl := h
  cases e with
  | delta fresh delta =>
    simp only [contractAfter,objectiveAfter,TaskEvent.keeps]
    cases delta.objective with
    | some new => simp
    | none => cases delta.replace with
      | true => simp
      | false => simp
  | _ => simp [contractAfter,TaskEvent.keeps]

/-- Apart from the objective a contract stays what it was. -/
theorem contractAfter_rest (agreed : Contract) (events : List TaskEvent) :
    events.foldl contractAfter agreed =
      {agreed with objective := (events.foldl contractAfter agreed).objective} := by
  induction events generalizing agreed with
  | nil => rfl
  | cons e events ih =>
    rw [List.foldl_cons,ih]
    cases e with
    | _ => rfl

/-- A contract stays the same throughout exactly where every event keeps the objective. -/
theorem contracts_iff (h : agreed.objective = some (.str text)) (events : List TaskEvent) :
    (∀ before, before <+: events → before.foldl contractAfter agreed = agreed) ↔
      ∀ e ∈ events, e.keeps text := by
  constructor
  · intro hall e he
    obtain ⟨before,after,rfl⟩ := List.append_of_mem he
    have hbefore := hall before ⟨_,rfl⟩
    have hnext := hall (before ++ [e]) ⟨after,by simp⟩
    rw [List.foldl_append,hbefore] at hnext
    exact (contractAfter_iff h e).mp hnext
  · rintro hall before ⟨after,rfl⟩
    have hkeeps : ∀ e ∈ before, e.keeps text := fun e he => hall e (List.mem_append_left _ he)
    clear hall
    induction before with
    | nil => rfl
    | cons e before ih =>
      rw [List.foldl_cons,(contractAfter_iff h e).mpr (hkeeps e List.mem_cons_self)]
      exact ih fun e he => hkeeps e (List.mem_cons_of_mem _ he)

theorem newManagedTaskState_agreed {taskId freshProject : String} {task : ManagedTask}
    {state : Dict} (h : newManagedTaskState taskId freshProject task = .ok state) :
    managed state = true ∧
      (contract state).objective = some (.str (clip task.objective 800)) := by
  obtain ⟨_,_,h⟩ := accepted h
  obtain ⟨_,_,h⟩ := accepted h
  obtain ⟨_,_,h⟩ := accepted h
  obtain rfl := Except.ok.inj h
  refine ⟨rfl,?_⟩
  rfl

end

/-- Whatever is folded into a managed task, its contract stays as it was agreed except for the
objective, and the objective stays throughout if and only if every model delta keeps it. -/
theorem contract_immutable [ActionRuntime] {taskId freshProject : String} {task : ManagedTask}
    {state : Dict} (h : newManagedTaskState taskId freshProject task = .ok state)
    {row : TranscriptRow} (hrow : row.activeTaskState = state) (events : List TaskEvent) :
    contract (folded row events).activeTaskState =
      {contract state with
        objective := (contract (folded row events).activeTaskState).objective} ∧
    ((∀ before, before <+: events →
        contract (folded row before).activeTaskState = contract state) ↔
      ∀ e ∈ events, e.keeps (clip task.objective 800)) := by
  subst hrow
  obtain ⟨hmanaged,hobjective⟩ := newManagedTaskState_agreed h
  have hfolded := fun events => (folded_contract events hmanaged).1
  constructor
  · rw [hfolded events]
    exact contractAfter_rest _ events
  · simp only [hfolded]
    exact contracts_iff hobjective events

/-- A task that the owner agreed to. -/
def agreedTask : ManagedTask where
  title := "Parser"
  objective := "Port the parser"
  scope := ["src/parser"]
  acceptanceCriteria := ["The tests pass"]
  authorityGrants := ["coding.agent.start"]

theorem contract_immutable_agreed : letI := plainActions
    ∃ state, newManagedTaskState "T" "P" agreedTask = .ok state ∧
      contract (folded {activeTaskState := state} [.delta "" {nextStep := some "Read it"}]
        ).activeTaskState = contract state := by
  refine ⟨_,rfl,?_⟩
  have hall := (@contract_immutable plainActions "T" "P" agreedTask _ rfl
    {activeTaskState := _} rfl [.delta "" {nextStep := some "Read it"}]).2.mpr fun e he => by
      obtain rfl := List.mem_singleton.mp he
      rfl
  exact hall _ (List.prefix_refl _)

/-- A model delta rewrites the agreed objective. -/
theorem objective_rewritten : letI := plainActions
    ∃ state, newManagedTaskState "T" "P" agreedTask = .ok state ∧
      (contract state).objective = some (.str "Port the parser") ∧
      (contract (folded {activeTaskState := state}
        [.delta "" {objective := some "Delete the parser"}]).activeTaskState).objective =
        some (.str "Delete the parser") := by
  exact ⟨_,rfl,rfl,rfl⟩

end Runtime
end Atlas
