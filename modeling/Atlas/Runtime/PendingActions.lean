import Atlas.Lib.Recency
import Atlas.Runtime.RuntimeFields

/-! The pending actions of a task document after whatever the runtime folded into it. -/
namespace Atlas
namespace Runtime

open Memory (TranscriptRow)
open Actions

/-- What is folded into the document of a conversation. -/
inductive ActionFold where
  | event (fresh : String) (event : RuntimeEvent)
  | ownerTurn (fresh request ownerTurnId : String)
  | merge (fresh : String) (delta : TaskStateDelta)
  | removal (fresh : String) (resolved : List String)

section

variable [ActionRuntime]

def foldAction (row : TranscriptRow) : ActionFold → TranscriptRow
  | .event fresh event => mutateTask fresh row (recordRuntimeEvent fresh · event)
  | .ownerTurn fresh request ownerTurnId =>
      mutateTask fresh row (beginOwnerCheckpoint fresh · request ownerTurnId)
  | .merge fresh delta => mutateTask fresh row (mergeSemanticDelta fresh · delta)
  | .removal fresh resolved => mutateTask fresh row (removeResolvedPendingActions fresh · resolved)

end

def openPhases : List String := ["prepared","approval_required","executing","uncertain"]

def closedPhases : List String := ["succeeded","failed","cancelled","rejected"]

/-- An event of the life of an action. -/
def LifecycleEvent (folds : List ActionFold) (actionId : String) (i : ℕ) (phase : String) : Prop :=
  phase ∈ openPhases ++ closedPhases ∧ ∃ fresh event, folds[i]? = some (.event fresh event) ∧
    event.actionId.bind orNone = some actionId ∧ event.phase = phase

/-- The last event of the life of an action. -/
def LatestEvent (folds : List ActionFold) (actionId : String) (i : ℕ) (phase : String) : Prop :=
  LifecycleEvent folds actionId i phase ∧ ∀ j phase', LifecycleEvent folds actionId j phase' → j ≤ i

def RemovedAfter (folds : List ActionFold) (actionId : String) (i : ℕ) : Prop :=
  ∃ j fresh resolved, i < j ∧ folds[j]? = some (.removal fresh resolved) ∧ actionId ∈ resolved

/-- The action is unresolved since its last event. -/
def PendingSince (folds : List ActionFold) (actionId : String) (i : ℕ) : Prop :=
  (∃ phase ∈ openPhases, LatestEvent folds actionId i phase) ∧ ¬RemovedAfter folds actionId i

/-- What a fold says about the actions. -/
def actionMove : ActionFold → Recency.Move String
  | .event _ event =>
      match event.actionId.bind orNone with
      | none => .drop []
      | some actionId =>
          if event.phase ∈ openPhases then .use actionId
          else if event.phase ∈ closedPhases then .drop [actionId]
          else .drop []
  | .removal _ resolved => .drop resolved
  | _ => .drop []

section

variable {folds : List ActionFold} {actionId phase : String} {i : ℕ}

theorem actionMove_use {fold : ActionFold} : actionMove fold = .use actionId ↔
    ∃ fresh event, fold = .event fresh event ∧ event.actionId.bind orNone = some actionId ∧
      event.phase ∈ openPhases := by
  cases fold with
  | event fresh event =>
    simp only [actionMove,ActionFold.event.injEq]
    cases h : event.actionId.bind orNone with
    | none =>
      constructor
      · rintro ⟨⟩
      · rintro ⟨_,_,⟨rfl,rfl⟩,hid,_⟩
        rw [h] at hid
        cases hid
    | some id =>
      simp only
      split
      · next hopen =>
        constructor
        · intro he
          exact ⟨fresh,event,⟨rfl,rfl⟩,by rw [h,Recency.Move.use.inj he],hopen⟩
        · rintro ⟨_,_,⟨rfl,rfl⟩,hid,_⟩
          rw [Option.some.inj (h.symm.trans hid)]
      · next hclosed =>
        constructor
        · split
          · rintro ⟨⟩
          · rintro ⟨⟩
        · rintro ⟨_,_,⟨rfl,rfl⟩,_,hopen⟩
          exact absurd hopen hclosed
  | _ => simp [actionMove]

/-- What is said about an action is an event of its life or its removal. -/
theorem actionMove_names {fold : ActionFold} : (actionMove fold).names actionId ↔
    (∃ fresh event, fold = .event fresh event ∧ event.actionId.bind orNone = some actionId ∧
      event.phase ∈ openPhases ++ closedPhases) ∨
    ∃ fresh resolved, fold = .removal fresh resolved ∧ actionId ∈ resolved := by
  cases fold with
  | event fresh event =>
    simp only [actionMove,ActionFold.event.injEq,reduceCtorEq,false_and,exists_false,or_false,
      List.mem_append]
    cases h : event.actionId.bind orNone with
    | none =>
      simp only [Recency.Move.names,List.not_mem_nil,false_iff]
      rintro ⟨_,_,⟨rfl,rfl⟩,hid,_⟩
      rw [h] at hid
      cases hid
    | some id =>
      have hiff : (∃ fresh' event', (fresh = fresh' ∧ event = event') ∧
          event'.actionId.bind orNone = some actionId ∧
          (event'.phase ∈ openPhases ∨ event'.phase ∈ closedPhases)) ↔
          id = actionId ∧ (event.phase ∈ openPhases ∨ event.phase ∈ closedPhases) := by
        constructor
        · rintro ⟨_,_,⟨rfl,rfl⟩,hid,hphase⟩
          exact ⟨Option.some.inj (h.symm.trans hid),hphase⟩
        · rintro ⟨rfl,hphase⟩
          exact ⟨fresh,event,⟨rfl,rfl⟩,h,hphase⟩
      rw [hiff]
      by_cases hopen : event.phase ∈ openPhases
      · simp [hopen,Recency.Move.names]
      · by_cases hclosed : event.phase ∈ closedPhases
        · simp [hopen,hclosed,Recency.Move.names,eq_comm]
        · simp [hopen,hclosed,Recency.Move.names]
  | removal fresh resolved => simp [actionMove,Recency.Move.names]
  | _ => simp [actionMove,Recency.Move.names]

/-- To be unresolved since an event is to be in use since then. -/
theorem pendingSince_iff :
    PendingSince folds actionId i ↔ Recency.LastUse (folds.map actionMove) actionId i := by
  simp only [Recency.LastUse,List.getElem?_map,Option.map_eq_some_iff]
  constructor
  · rintro ⟨⟨phase,hphase,⟨_,fresh,event,hi,hid,rfl⟩,hlast⟩,hremoved⟩
    refine ⟨⟨_,hi,actionMove_use.mpr ⟨fresh,event,rfl,hid,hphase⟩⟩,?_⟩
    rintro j _ hj ⟨fold,hfold,rfl⟩ hnames
    rcases actionMove_names.mp hnames with ⟨fresh',event',rfl,hid',hphase'⟩ | ⟨fresh',resolved,rfl,hin⟩
    · have hle := hlast j event'.phase ⟨hphase',fresh',event',hfold,hid',rfl⟩
      omega
    · exact hremoved ⟨j,fresh',resolved,hj,hfold,hin⟩
  · rintro ⟨⟨fold,hi,huse⟩,hlater⟩
    obtain ⟨fresh,event,rfl,hid,hphase⟩ := actionMove_use.mp huse
    refine ⟨⟨event.phase,hphase,⟨List.mem_append_left _ hphase,fresh,event,hi,hid,rfl⟩,?_⟩,?_⟩
    · rintro j phase' ⟨hphase',fresh',event',hj,hid',rfl⟩
      by_contra hlt
      exact hlater j _ (by omega) ⟨_,hj,rfl⟩
        (actionMove_names.mpr (.inl ⟨fresh',event',rfl,hid',hphase'⟩))
    · rintro ⟨j,fresh',resolved,hj,hfold,hin⟩
      exact hlater j _ hj ⟨_,hfold,rfl⟩ (actionMove_names.mpr (.inr ⟨fresh',resolved,rfl,hin⟩))

end

/-- The entries about pending actions. -/
def pendingActions (state : Dict) : List Json := listed (part state "runtime") "pending_actions"

section

variable {state : Dict}

theorem pendingActions_of_isEmpty (h : state.isEmpty = true) : pendingActions state = [] := by
  obtain rfl := List.isEmpty_iff.mp h
  rfl

/-- Where there is no document a new one is begun. -/
theorem pendingActions_begun (fresh : String) (state : Dict) :
    pendingActions (if state.isEmpty then newTaskState fresh "" else state) =
      pendingActions state := by
  split
  · next h =>
    rw [pendingActions_of_isEmpty h]
    rfl
  · rfl

theorem begun_isEmpty (fresh : String) (state : Dict) :
    (if state.isEmpty then newTaskState fresh "" else state).isEmpty = false := by
  split
  · rfl
  · next h => exact Bool.eq_false_iff.mpr h

theorem RuntimeBut.pendingActions {fields : List String} {state' : Dict}
    (h : RuntimeBut fields state state') (hk : "pending_actions" ∉ fields) :
    pendingActions state' = pendingActions state :=
  h.listed hk

theorem pendingActions_putIn (state : Dict) (items : List Json) :
    pendingActions (putIn state "runtime" "pending_actions" (.arr items)) = items := by
  rw [pendingActions,putIn,part_put,listed,Dict.get_put]

theorem pendingActions_beginOwnerTurn (fresh request : String) (state : Dict) :
    pendingActions (beginOwnerTurn fresh state request) = pendingActions state := by
  simp only [beginOwnerTurn]
  split
  · split
    · next h =>
      rw [pendingActions_of_isEmpty h]
      rfl
    · rw [pendingActions,part_put,listed,Dict.get_put,pendingActions,listed]
      cases Dict.get (part state "runtime") "pending_actions" with
      | none => rfl
      | some value => rfl
  · rw [pendingActions,part_put_of_ne _ _ (by decide),part_put,listed_put_of_ne _ _ (by decide),
      listed_put_of_ne _ _ (by decide),pendingActions]

theorem pendingActions_beginOwnerCheckpoint (fresh request ownerTurnId : String) (state : Dict) :
    pendingActions (beginOwnerCheckpoint fresh state request ownerTurnId) =
      pendingActions state := by
  rw [← pendingActions_beginOwnerTurn fresh request state,beginOwnerCheckpoint,pendingActions,
    part_put,listed_put_of_ne _ _ (by decide),pendingActions]

/-- A managed task begins without pending actions. -/
theorem pendingActions_newManagedTaskState {taskId freshProject : String} {task : ManagedTask}
    (h : newManagedTaskState taskId freshProject task = .ok state) : pendingActions state = [] := by
  obtain ⟨_,_,h⟩ := accepted h
  obtain ⟨_,_,h⟩ := accepted h
  obtain ⟨_,_,h⟩ := accepted h
  obtain rfl := Except.ok.inj h
  rfl

variable [ActionRuntime]

theorem pendingActions_mergeSemanticDelta (fresh : String) (delta : TaskStateDelta)
    (state : Dict) : pendingActions (mergeSemanticDelta fresh state delta) = pendingActions state := by
  have h := mergeSemanticDelta_runtime fresh delta (begun_isEmpty fresh state)
  rw [← pendingActions_begun fresh state,← h.pendingActions (by decide)]
  simp only [mergeSemanticDelta,begun_isEmpty,Bool.false_eq_true,if_false]

theorem pendingActions_recordRuntimeEvent (fresh : String) (event : RuntimeEvent) (state : Dict) :
    pendingActions (recordRuntimeEvent fresh state event) =
      pendingAfter (pendingActions state) event (safeTargets event.arguments event.detail) := by
  rw [← pendingActions_begun fresh state]
  simp only [recordRuntimeEvent,pendingActions,part_put]
  split_ifs <;> simp [listed,Dict.get_put_of_ne]

theorem pendingActions_removeResolved (fresh : String) (resolved : List String) (state : Dict) :
    pendingActions (removeResolvedPendingActions fresh state resolved) =
      (pendingActions state).filter fun item =>
        !resolved.contains (match (item.field "action_id").filter Json.truthy with
          | none => ""
          | some id => ActionRuntime.str id) := by
  rw [← pendingActions_begun fresh state]
  simp only [removeResolvedPendingActions]
  split
  · next h => simp [h]
  · exact pendingActions_putIn _ _

/-- The entries are about these actions, in their order. -/
def AboutActions (state : Dict) (ids : List String) : Prop :=
  (pendingActions state).map (·.textAt "action_id") = ids.map some

omit [ActionRuntime] in
theorem map_filter_some {items : List Json} {ids : List String}
    (h : items.map (·.textAt "action_id") = ids.map some) (p : Json → Bool) (q : String → Bool)
    (hpq : ∀ item id, item.textAt "action_id" = some id → p item = q id) :
    (items.filter p).map (·.textAt "action_id") = (ids.filter q).map some := by
  induction items generalizing ids with
  | nil =>
    cases ids with
    | nil => rfl
    | cons id ids => cases h
  | cons item items ih =>
    cases ids with
    | nil => cases h
    | cons id ids =>
      obtain ⟨hhead,htail⟩ := List.cons.inj h
      rw [List.filter_cons,List.filter_cons,hpq item id hhead]
      by_cases hq : q id = true
      · rw [if_pos hq,if_pos hq,List.map_cons,List.map_cons,ih htail]
        exact congrArg (· :: _) hhead
      · rw [if_neg hq,if_neg hq,ih htail]

theorem AboutActions.event {ids : List String} (h : AboutActions state ids) (fresh : String)
    (event : RuntimeEvent) : AboutActions (recordRuntimeEvent fresh state event)
      (Recency.move ids (actionMove (.event fresh event))) := by
  have hothers : ∀ actionId, ((pendingActions state).filter
      fun item => item.textAt "action_id" != some actionId).map (·.textAt "action_id") =
      (ids.filter (· ≠ actionId)).map some := by
    intro actionId
    refine map_filter_some h _ _ fun item id hid => ?_
    rw [hid]
    by_cases he : id = actionId
    · simp [he]
    · simp [he]
  rw [AboutActions,pendingActions_recordRuntimeEvent,pendingAfter,actionMove]
  cases hid : event.actionId.bind orNone with
  | none => simpa [Recency.move,AboutActions] using h
  | some actionId =>
    simp only
    have hopen : event.phase ∈ openPhases ↔
        event.phase ∈ ["prepared","approval_required","executing"] ∨ event.phase = "uncertain" := by
      simp [openPhases,or_assoc]
    by_cases hstarted : event.phase ∈ ["prepared","approval_required","executing"]
    · rw [if_pos hstarted,if_pos (hopen.mpr (.inl hstarted)),List.map_append,hothers,Recency.move,
        List.map_append]
      rfl
    · by_cases huncertain : event.phase = "uncertain"
      · rw [if_neg hstarted,if_pos huncertain,if_pos (hopen.mpr (.inr huncertain)),
          List.map_append,hothers,Recency.move,List.map_append]
        rfl
      · rw [if_neg hstarted,if_neg huncertain,if_neg (fun ho => (hopen.mp ho).elim hstarted huncertain)]
        by_cases hclosed : event.phase ∈ closedPhases
        · rw [if_pos hclosed,if_pos (show event.phase ∈ ["succeeded","failed","cancelled","rejected"]
            from hclosed),hothers,Recency.move]
          simp only [List.mem_singleton]
        · rw [if_neg hclosed,if_neg (show event.phase ∉ ["succeeded","failed","cancelled",
            "rejected"] from hclosed)]
          simpa [Recency.move,AboutActions] using h

theorem AboutActions.removal {ids : List String} (h : AboutActions state ids) (fresh : String)
    (resolved : List String) : AboutActions (removeResolvedPendingActions fresh state resolved)
      (Recency.move ids (.drop resolved)) := by
  rw [AboutActions,pendingActions_removeResolved,Recency.move]
  refine map_filter_some h _ _ fun item id hid => ?_
  have hfield : item.field "action_id" = some (.str id) := by
    cases item with
    | obj fields =>
      simp only [Json.textAt] at hid
      simp only [Json.field]
      split at hid
      · next s hs => rw [hs,Option.some.inj hid]
      · cases hid
    | _ => cases hid
  have hstr : (match (some (Json.str id)).filter Json.truthy with
      | none => ""
      | some id => ActionRuntime.str id) = id := by
    by_cases hempty : id = ""
    · rw [hempty]
      rfl
    · have htruthy : Json.truthy (.str id) = true := by simp [Json.truthy,hempty]
      rw [Option.filter_some,htruthy,if_pos rfl]
      exact ActionRuntime.str_text id
  rw [hfield,hstr]
  simp

omit [ActionRuntime] in
theorem pendingActions_mutateTask (fresh : String) (row : TranscriptRow)
    (transform : Dict → Dict) :
    pendingActions (mutateTask fresh row transform).activeTaskState =
      pendingActions (transform row.activeTaskState) :=
  (mutateTask_runtime [] fresh row transform).pendingActions List.not_mem_nil

theorem AboutActions.fold {row : TranscriptRow} {ids : List String}
    (h : AboutActions row.activeTaskState ids) (fold : ActionFold) :
    AboutActions (foldAction row fold).activeTaskState (Recency.move ids (actionMove fold)) := by
  have hkept : Recency.move ids (.drop []) = ids := by simp [Recency.move]
  cases fold with
  | event fresh event =>
    rw [AboutActions,foldAction,pendingActions_mutateTask]
    exact h.event fresh event
  | ownerTurn fresh request ownerTurnId =>
    rw [AboutActions,foldAction,pendingActions_mutateTask,pendingActions_beginOwnerCheckpoint]
    exact h.trans (congrArg _ hkept.symm)
  | merge fresh delta =>
    rw [AboutActions,foldAction,pendingActions_mutateTask,pendingActions_mergeSemanticDelta]
    exact h.trans (congrArg _ hkept.symm)
  | removal fresh resolved =>
    rw [AboutActions,foldAction,pendingActions_mutateTask]
    exact h.removal fresh resolved

/-- The fold over the document is the list of the actions in the order of their last use. -/
theorem aboutActions_foldl (folds : List ActionFold) {row : TranscriptRow} {ids : List String}
    (h : AboutActions row.activeTaskState ids) :
    AboutActions (folds.foldl foldAction row).activeTaskState
      ((folds.map actionMove).foldl Recency.move ids) := by
  induction folds generalizing row ids with
  | nil => exact h
  | cons fold folds ih => exact ih (h.fold fold)

end

/-- Whatever is folded into a document without pending actions, it then lists exactly the actions
that are unresolved since their last event, each once, in the order of these events. -/
theorem pending_actions_exact [ActionRuntime] {row : TranscriptRow}
    (h : pendingActions row.activeTaskState = []) (folds : List ActionFold) :
    ∃ ids : List String,
      (pendingActions (folds.foldl foldAction row).activeTaskState).map (·.textAt "action_id") =
        ids.map some ∧
      ids.Nodup ∧
      (∀ actionId, actionId ∈ ids ↔ ∃ i, PendingSince folds actionId i) ∧
      ids.Pairwise fun a b => ∀ i j, PendingSince folds a i → PendingSince folds b j → i < j := by
  have habout : AboutActions row.activeTaskState [] := by rw [AboutActions,h]; rfl
  obtain ⟨hmem,hnodup,hsorted⟩ := Recency.ordered_foldl (folds.map actionMove)
  refine ⟨_,aboutActions_foldl folds habout,hnodup,?_,?_⟩
  · intro actionId
    rw [hmem]
    simp only [pendingSince_iff]
  · simp only [pendingSince_iff]
    exact hsorted

/-- Two actions, one of which fails. -/
def twoActions : List ActionFold := [
  .event "T" ⟨"mail.send","prepared","E1",[],[],some "A"⟩,
  .ownerTurn "" "Write the file" "O",
  .event "" ⟨"file.write","executing","E2",[],[],some "B"⟩,
  .merge "" {status := some .complete},
  .event "" ⟨"mail.send","failed","E3",[],[],some "A"⟩]

theorem pending_actions_exact_two : letI := plainActions
    ∃ i, PendingSince twoActions "B" i := by
  let := plainActions
  obtain ⟨ids,hids,_,hmem,_⟩ := @pending_actions_exact _ {} rfl twoActions
  have hactual : ids.map some = [some "B"] := hids.symm.trans (by decide +kernel)
  have hids : ids = ["B"] := List.map_injective_iff.mpr (Option.some_injective _) hactual
  exact (hmem "B").mp (hids ▸ List.mem_singleton_self _)

end Runtime
end Atlas
