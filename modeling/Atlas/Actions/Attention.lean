import Atlas.Actions.AuthoritySteps

/-! The attention ledger: how many unresolved attention rows an action has, in every ledger
that the service reaches. -/
namespace Atlas
namespace Actions

open RowTable

namespace ActionRow

/-- Whether an action was begun without the owner's approval. -/
def automatic (a : ActionRow) : Bool := Dict.holds a.evidence "automatic"

def acknowledged (a : ActionRow) : Bool :=
  (Dict.get a.evidence "owner_acknowledged_at").isSome

/-- Whether the owner still has to decide on an action or to take note of its doubt. -/
def needsOwner (a : ActionRow) : Bool :=
  match a.status with
  | .prepared => true
  | .executing => !a.automatic
  | .uncertain => !a.acknowledged
  | _ => false

@[simp] theorem remark_acknowledged (a : ActionRow) (text : String) {key : String}
    (h : key ≠ "owner_acknowledged_at") : (a.remark key text).acknowledged = a.acknowledged := by
  simp only [remark,acknowledged,Dict.get_put_of_ne _ _ h]

theorem remark_automatic (a : ActionRow) (text : String) {key : String}
    (h : key ≠ "automatic") : (a.remark key text).automatic = a.automatic := by
  simp only [remark,automatic,Dict.holds_put_of_ne _ _ h]

theorem completed_acknowledged (a : ActionRow) (status : ActionStatus) (result : Dict)
    (externalId : Option String) :
    (a.complete status result externalId).acknowledged = a.acknowledged := by
  simp only [complete,acknowledged,completedEvidence]
  split
  · rw [Dict.get_put_of_ne _ _ (by decide),Dict.get_put_of_ne _ _ (by decide)]
  · rw [Dict.get_put_of_ne _ _ (by decide),Dict.get_put_of_ne _ _ (by decide),
      Dict.get_put_of_ne _ _ (by decide)]

/-- What the evidence of an action says agrees with its status. -/
def Consistent (a : ActionRow) : Prop :=
  (a.acknowledged = true → a.status = .uncertain) ∧
    (a.status = .prepared → a.automatic = false)

theorem Consistent.remark {a : ActionRow} (h : a.Consistent) (text : String) {key : String}
    (hk : key ≠ "owner_acknowledged_at") (ha : key ≠ "automatic") :
    (a.remark key text).Consistent := by
  rw [Consistent,remark_acknowledged a text hk,remark_automatic a text ha]
  exact h

end ActionRow

/-- The rows that point at an action point at one of the table, and no notice without an action
has their states. -/
def Grounded (n : ℕ) (t : List OwnerAttentionRow) : Prop :=
  ∀ r ∈ t, ∀ id, r.actionId = some id →
    id < n ∧ (r.state = .approvalRequired ∨ r.state = .uncertain)

theorem Grounded.append {n : ℕ} {t : List OwnerAttentionRow} (h : Grounded n t)
    {row : OwnerAttentionRow} (hrow : ∀ id, row.actionId = some id →
      id < n ∧ (row.state = .approvalRequired ∨ row.state = .uncertain)) :
    Grounded n (t ++ [row]) := by
  intro r hr
  rcases List.mem_append.mp hr with hr | hr
  · exact h r hr
  · rw [List.mem_singleton.mp hr]
    exact hrow

theorem Grounded.modify {n : ℕ} {t : List OwnerAttentionRow} (h : Grounded n t) (i : ℕ)
    {f : OwnerAttentionRow → OwnerAttentionRow} (hf : ∀ r, (f r).actionId = r.actionId ∧
      ((f r).state = r.state ∨ (f r).state = .uncertain)) : Grounded n (t.modify i f) := by
  intro r hr id hid
  rcases mem_modify hr with hr | ⟨x,hx,rfl⟩
  · exact h r hr id hid
  · obtain ⟨ha,hs⟩ := hf x
    have hold := h x (List.mem_of_getElem? hx) id (ha ▸ hid)
    rcases hs with hs | hs
    · rw [hs]
      exact hold
    · exact ⟨hold.1,Or.inr hs⟩

theorem Grounded.map {n : ℕ} {t : List OwnerAttentionRow} (h : Grounded n t)
    {f : OwnerAttentionRow → OwnerAttentionRow}
    (hf : ∀ r, (f r).actionId = r.actionId ∧ (f r).state = r.state) : Grounded n (t.map f) := by
  intro r hr id hid
  obtain ⟨x,hx,rfl⟩ := List.mem_map.mp hr
  rw [(hf x).2]
  exact h x hx id ((hf x).1 ▸ hid)

theorem Grounded.mono {n m : ℕ} {t : List OwnerAttentionRow} (h : Grounded n t) (hnm : n ≤ m) :
    Grounded m t :=
  fun r hr id hid => ⟨Nat.lt_of_lt_of_le (h r hr id hid).1 hnm,(h r hr id hid).2⟩

namespace Ledger

variable {s s' : Ledger} {id runId : ℕ} {a a' action : ActionRow} {now : Instant}

/-- Whether an attention row asks the owner about an action. -/
def asks (id : ℕ) (r : OwnerAttentionRow) : Bool := r.actionId == some id && !r.resolved

theorem asks_eq_false {r : OwnerAttentionRow} (h : r.actionId = none) : asks id r = false := by
  simp [asks,h]

/-- The number of unresolved attention rows of an action. -/
def openCount (s : Ledger) (id : ℕ) : ℕ := s.attention.countP (asks id)

theorem length_openAttention (s : Ledger) (id : ℕ) :
    (s.openAttention id).length = s.openCount id := length_ids _ _

theorem openCount_append (h : s'.attention = s.attention ++ [row]) (id : ℕ) :
    s'.openCount id = s.openCount id + if asks id row then 1 else 0 := by
  rw [openCount,h,List.countP_append,List.countP_singleton,openCount]

theorem mem_openAttention {i : ℕ} (h : s.openAttention id = [i]) :
    ∃ r, s.attention[i]? = some r ∧ r.actionId = some id ∧ r.resolved = false := by
  have hi : i ∈ s.openAttention id := by simp [h]
  obtain ⟨r,hr,hp⟩ := mem_ids.mp hi
  exact ⟨r,hr,by simpa using hp⟩

/-- A change of the one row that asks about an action, seen from the other actions. -/
theorem openCount_modify_ne {i j : ℕ} {f : OwnerAttentionRow → OwnerAttentionRow}
    (hopen : s.openAttention id = [i]) (h : s'.attention = s.attention.modify i f)
    (hf : ∀ r, (f r).actionId = r.actionId) (hj : j ≠ id) : s'.openCount j = s.openCount j := by
  obtain ⟨x,hx,hid,_⟩ := mem_openAttention hopen
  rw [openCount,h,openCount]
  apply countP_modify_eq
  intro r hr
  obtain rfl : r = x := Option.some.inj (hr.symm.trans hx)
  have hne : (id == j) = false := by simpa using fun he : id = j => hj he.symm
  simp [asks,hf,hid,hne]

theorem openCount_resolve {i : ℕ} (hopen : s.openAttention id = [i])
    (h : s'.attention = s.attention.modify i (·.resolve now)) : s'.openCount id = 0 := by
  obtain ⟨r,hr,hid,hres⟩ := mem_openAttention hopen
  have hone : s.openCount id = 1 := by
    rw [← length_openAttention,hopen]
    rfl
  have hlt := countP_modify_lt (p := asks id) (f := (·.resolve now)) hr (by simp [asks,hid,hres])
    (by simp [asks,OwnerAttentionRow.resolve])
  rw [openCount] at hone ⊢
  rw [h]
  omega

/-- The unresolved attention rows of every action are as its status says. -/
structure Tended (s : Ledger) : Prop where
  counted : ∀ id a, s.actions[id]? = some a → s.openCount id = if a.needsOwner then 1 else 0
  grounded : Grounded s.actions.length s.attention
  consistent : ∀ a ∈ s.actions, a.Consistent

theorem Tended.quiet (h : s.Tended) (hactions : s'.actions = s.actions)
    (hcount : ∀ id, s'.openCount id = s.openCount id)
    (hgrounded : Grounded s.actions.length s'.attention) : s'.Tended where
  counted id a ha := by
    rw [hcount]
    exact h.counted id a (hactions ▸ ha)
  grounded := hactions ▸ hgrounded
  consistent := hactions ▸ h.consistent

theorem Tended.same (h : s.Tended) (hactions : s'.actions = s.actions)
    (hattention : s'.attention = s.attention) : s'.Tended :=
  h.quiet hactions (fun id => by rw [openCount,hattention,openCount]) (hattention ▸ h.grounded)

/-- A notice about no action. -/
theorem Tended.notice (h : s.Tended) {row : OwnerAttentionRow} (hrow : row.actionId = none) :
    (s.addAttention row).Tended := by
  refine h.quiet rfl (fun id => ?_) (h.grounded.append fun id hid => ?_)
  · rw [openCount_append (s := s) rfl]
    rw [asks_eq_false hrow]
    rfl
  · rw [hrow] at hid
    cases hid

/-- The resolution of rows that no action is asked about with. -/
theorem Tended.resolveWhere (h : s.Tended) {p : OwnerAttentionRow → Bool} (now : Instant)
    (hp : ∀ r ∈ s.attention, p r = true → r.actionId = none) :
    (s.resolveWhere p now).Tended := by
  refine h.quiet rfl (fun id => ?_) (h.grounded.map fun r => ?_)
  · simp only [openCount,Ledger.resolveWhere,List.countP_map]
    apply List.countP_congr
    intro r hr
    by_cases hpr : p r = true
    · have hnone := hp r hr hpr
      rw [asks_eq_false hnone]
      simp only [Function.comp_apply]
      split
      · rw [asks_eq_false (r := r.resolve now) hnone]
      · rw [asks_eq_false hnone]
    · simp [hpr]
  · split
    · exact ⟨rfl,rfl⟩
    · exact ⟨rfl,rfl⟩

/-- A new action, with the row that asks about it if it needs one. -/
theorem Tended.added (h : s.Tended) (hactions : s'.actions = s.actions ++ [a])
    (hconsistent : a.Consistent)
    (hcount : ∀ j, s'.openCount j = s.openCount j +
      if j = s.actions.length ∧ a.needsOwner then 1 else 0)
    (hgrounded : Grounded (s.actions.length + 1) s'.attention) : s'.Tended := by
  have hnew : s.openCount s.actions.length = 0 := by
    rw [openCount,List.countP_eq_zero]
    intro r hr hask
    have hid : r.actionId = some s.actions.length ∧ r.resolved = false := by simpa [asks] using hask
    exact Nat.lt_irrefl _ (h.grounded r hr _ hid.1).1
  refine ⟨fun j x hx => ?_,?_,?_⟩
  · rw [hactions,getElem?_insert] at hx
    rw [hcount]
    by_cases hj : j = s.actions.length
    · rw [if_pos hj] at hx
      obtain rfl := Option.some.inj hx
      subst hj
      rw [hnew]
      simp
    · rw [if_neg hj] at hx
      rw [h.counted j x hx]
      simp [hj]
  · rw [hactions,List.length_append,List.length_singleton]
    exact hgrounded
  · rw [hactions]
    intro x hx
    rcases List.mem_append.mp hx with hx | hx
    · exact h.consistent x hx
    · rw [List.mem_singleton.mp hx]
      exact hconsistent

/-- A change of one action, with the rows that ask about it. -/
theorem Tended.changed (h : s.Tended) (hactions : Changes s.actions s'.actions id a a')
    (hconsistent : a'.Consistent) (hothers : ∀ j, j ≠ id → s'.openCount j = s.openCount j)
    (hown : s'.openCount id = if a'.needsOwner then 1 else 0)
    (hgrounded : Grounded s.actions.length s'.attention) : s'.Tended := by
  refine ⟨fun j x hx => ?_,?_,?_⟩
  · rcases hactions.cases hx with ⟨rfl,rfl⟩ | ⟨hj,hx⟩
    · exact hown
    · rw [hothers j hj]
      exact h.counted j x hx
  · rw [hactions.length]
    exact hgrounded
  · intro x hx
    obtain ⟨j,hj⟩ := List.mem_iff_getElem?.mp hx
    rcases hactions.cases hj with ⟨rfl,rfl⟩ | ⟨_,hj⟩
    · exact hconsistent
    · exact h.consistent x (List.mem_of_getElem? hj)

/-- A remark on an action that leaves its status alone. -/
theorem Tended.remarked (h : s.Tended) (hrow : s.actions[id]? = some a) (text : String)
    {key : String} (hk : key ≠ "owner_acknowledged_at") (ha : key ≠ "automatic") :
    (s.setAction id (·.remark key text)).Tended := by
  have hcons := h.consistent a (List.mem_of_getElem? hrow)
  refine h.changed (Changes.modify hrow _) (hcons.remark text hk ha) (fun j _ => rfl) ?_ h.grounded
  have hneeds : (a.remark key text).needsOwner = a.needsOwner := by
    simp only [ActionRow.needsOwner,ActionRow.remark_acknowledged a text hk,
      ActionRow.remark_automatic a text ha]
    rfl
  rw [hneeds]
  exact h.counted id a hrow

/-- An action that comes to rest, its question to the owner withdrawn. -/
theorem Tended.closed (h : s.Tended) (hrow : s.actions[id]? = some a) {f : ActionRow → ActionRow}
    (hneeds : (f a).needsOwner = false) (hconsistent : (f a).Consistent)
    (hclosed : Closed (s.setAction id f) s' id runId now) : s'.Tended := by
  have hactions : Changes s.actions s'.actions id a (f a) := by
    rw [hclosed.actions]
    exact Changes.modify hrow f
  rcases hclosed.attention with ⟨hnone,hatt⟩ | ⟨i,hopen,hatt⟩
  · refine h.changed hactions hconsistent (fun j _ => by rw [openCount,hatt]; rfl) ?_
      (hatt ▸ h.grounded)
    have hzero : s.openCount id = 0 := by
      rw [← length_openAttention]
      exact congrArg List.length hnone
    rw [hneeds,openCount,hatt]
    exact hzero
  · refine h.changed hactions hconsistent (fun j hj => ?_) ?_ ?_
    · exact openCount_modify_ne (s := s) hopen hatt (fun _ => rfl) hj
    · rw [hneeds]
      exact openCount_resolve (s := s) hopen hatt
    · rw [hatt]
      exact h.grounded.modify i fun r => ⟨rfl,Or.inl rfl⟩

/-- An action that falls into doubt, the owner asked about it. -/
theorem Tended.marked (h : s.Tended) (hrow : s.actions[id]? = some a) {f : ActionRow → ActionRow}
    (hneeds : (f a).needsOwner = true) (hconsistent : (f a).Consistent)
    (hmarked : Marked (s.setAction id f) s' id runId) : s'.Tended := by
  have hactions : Changes s.actions s'.actions id a (f a) := by
    rw [hmarked.actions]
    exact Changes.modify hrow f
  have hid : id < s.actions.length := (List.getElem?_eq_some_iff.mp hrow).1
  rcases hmarked.attention with ⟨hnone,row,hto,hstate,hres,hatt⟩ | ⟨i,g,hopen,hatt,hg⟩
  · have hzero : s.openCount id = 0 := by
      rw [← length_openAttention]
      exact congrArg List.length hnone
    refine h.changed hactions hconsistent (fun j hj => ?_) ?_ ?_
    · rw [openCount_append (s := s) hatt]
      have hne : ¬id = j := fun he => hj he.symm
      simp [asks,hto,hne]
    · rw [openCount_append (s := s) hatt,hzero,hneeds]
      simp [asks,hto,hres]
    · rw [hatt]
      refine h.grounded.append fun j hj => ?_
      obtain rfl : id = j := Option.some.inj (hto.symm.trans hj)
      exact ⟨hid,Or.inr hstate⟩
  · refine h.changed hactions hconsistent (fun j hj => ?_) ?_ ?_
    · exact openCount_modify_ne (s := s) hopen hatt (fun r => (hg r).1) hj
    · have hone : s.openCount id = 1 := by
        rw [← length_openAttention]
        exact congrArg List.length hopen
      rw [hneeds,openCount,hatt]
      refine (countP_modify_eq fun r _ => ?_).trans hone
      simp [asks,(hg r).1,(hg r).2.1]
    · rw [hatt]
      exact h.grounded.modify i fun r => ⟨(hg r).1,Or.inr (hg r).2.2⟩

theorem Tended.doubted (h : s.Tended) (hd : Doubted s s' id) : s'.Tended := by
  obtain ⟨a,hrow,hstatus,hmarked⟩ := hd
  have hcons := h.consistent a (List.mem_of_getElem? hrow)
  have hack : a.acknowledged = false := by
    by_contra hne
    rw [Bool.not_eq_false] at hne
    rw [hcons.1 hne] at hstatus
    cases hstatus
  refine h.marked hrow ?_ ⟨fun _ => rfl,fun he => (by cases he)⟩ hmarked
  show (!a.acknowledged) = true
  rw [hack]
  rfl

theorem Tended.cancelled (h : s.Tended) (hc : s.cancel id now = .ok s') : s'.Tended := by
  obtain ⟨a,hrow,hstatus,hclosed⟩ := cancel_ok hc
  have hcons := h.consistent a (List.mem_of_getElem? hrow)
  refine h.closed hrow rfl ⟨fun hack => ?_,fun he => (by cases he)⟩ hclosed
  have hold : a.acknowledged = true := by
    rw [← hack]
    simp only [ActionRow.acknowledged,ActionRow.cancel]
    rw [Dict.get_put_of_ne _ _ (by decide)]
  rw [hcons.1 hold] at hstatus
  cases hstatus

theorem Tended.completed (h : s.Tended) {status : ActionStatus} {result : Dict}
    {externalId : Option String} (hc : s.complete id status result externalId now = .ok s') :
    s'.Tended := by
  obtain ⟨a,hrow,hstatus,hends⟩ := complete_ok hc
  have hcons := h.consistent a (List.mem_of_getElem? hrow)
  have hack : (a.complete status result externalId).acknowledged = false := by
    rw [ActionRow.completed_acknowledged]
    by_contra hne
    rw [Bool.not_eq_false] at hne
    rw [hcons.1 hne] at hstatus
    cases hstatus
  have hconsistent : status ≠ .prepared → (a.complete status result externalId).Consistent := by
    intro hne
    refine ⟨fun he => ?_,fun he => absurd he hne⟩
    rw [hack] at he
    cases he
  rcases hends with ⟨rfl,hmarked⟩ | ⟨hend,hclosed⟩
  · refine h.marked hrow ?_ (hconsistent (by decide)) hmarked
    show (!(a.complete .uncertain result externalId).acknowledged) = true
    rw [hack]
    rfl
  · rcases hend with rfl | rfl
    · exact h.closed hrow rfl (hconsistent (by decide)) hclosed
    · exact h.closed hrow rfl (hconsistent (by decide)) hclosed

theorem Tended.acknowledged [PyRuntime] (h : s.Tended)
    (hc : s.acknowledgeUncertain id now = .ok s') : s'.Tended := by
  obtain ⟨a,i,hrow,hstatus,hopen,rfl⟩ := acknowledgeUncertain_ok hc
  have hack : (a.remark "owner_acknowledged_at" (PyRuntime.isoformat now)).acknowledged = true := by
    simp [ActionRow.acknowledged,ActionRow.remark]
  have hneeds :
      (a.remark "owner_acknowledged_at" (PyRuntime.isoformat now)).needsOwner = false := by
    have hu : (a.remark "owner_acknowledged_at" (PyRuntime.isoformat now)).status = .uncertain :=
      hstatus
    rw [ActionRow.needsOwner,hu,hack]
    rfl
  refine h.changed (Changes.modify hrow _) ⟨fun _ => hstatus,fun he => ?_⟩ (fun j hj => ?_) ?_ ?_
  · exact absurd (hstatus.symm.trans he) (by decide)
  · exact openCount_modify_ne (s := s) hopen rfl (fun _ => rfl) hj
  · rw [hneeds]
    exact openCount_resolve (s := s) hopen rfl
  · exact h.grounded.modify i fun r => ⟨rfl,Or.inl rfl⟩

section

variable [ActionRuntime] {operation title summary capabilityId : String} {arguments : Dict}

omit [ActionRuntime] in
/-- A new action that asks the owner nothing. -/
theorem Tended.entered (h : s.Tended) {row : ActionRow} (hneeds : row.needsOwner = false)
    (hconsistent : row.Consistent) : (s.addAction row).Tended := by
  refine h.added rfl hconsistent (fun j => ?_) (h.grounded.mono (Nat.le_succ _))
  rw [hneeds]
  simp [openCount,addAction]

theorem Tended.recorded (h : s.Tended) {status : String} {output : Json}
    (hc : s.recordExecution runId operation arguments status summary output now = .ok (s',id)) :
    s'.Tended := by
  obtain ⟨_,_,rfl⟩ := recordExecution_ok hc
  have hack : (recordedAction id runId operation arguments status summary output
      now).acknowledged = false := by
    simp [ActionRow.acknowledged,recordedAction,Dict.get]
  refine h.entered ?_ ⟨fun he => ?_,fun he => ?_⟩
  · by_cases hs : status = "succeeded"
    · simp [ActionRow.needsOwner,recordedAction,hs]
    · simp [ActionRow.needsOwner,recordedAction,hs]
  · rw [hack] at he
    cases he
  · by_cases hs : status = "succeeded"
    · simp [recordedAction,hs] at he
    · simp [recordedAction,hs] at he

theorem Tended.begunAutomatically (h : s.Tended)
    (hc : s.beginAutomaticExecution runId operation arguments summary capabilityId now =
      .ok (s',id)) : s'.Tended := by
  obtain ⟨_,_,_,rfl⟩ := beginAutomaticExecution_ok hc
  have hauto : (automaticAction id runId operation arguments summary capabilityId
      now).automatic = true := by
    simp [ActionRow.automatic,automaticAction,Dict.holds,Dict.get,Json.truthy]
  refine h.entered ?_ ⟨fun he => ?_,fun he => (by cases he)⟩
  · show (!(automaticAction id runId operation arguments summary capabilityId
      now).automatic) = false
    rw [hauto]
    rfl
  · simp [ActionRow.acknowledged,automaticAction,Dict.get] at he

theorem Tended.prepared (h : s.Tended)
    (hc : s.prepareProposal runId operation arguments title capabilityId now = .ok (s',id)) :
    s'.Tended := by
  obtain ⟨_,_,rfl,capability,rfl⟩ := prepareProposal_ok hc
  have hrow : (preparedAction s.actions.length runId operation arguments title capability
      now).needsOwner = true := rfl
  refine h.added (a := preparedAction s.actions.length runId operation arguments title capability
    now) ?_ ⟨fun he => ?_,fun _ => ?_⟩ (fun j => ?_) ?_
  · rw [recomputeRun_actions]
    rfl
  · simp [ActionRow.acknowledged,preparedAction,Dict.get] at he
  · simp [ActionRow.automatic,preparedAction,Dict.holds,Dict.get]
  · rw [openCount_append (s := s) (by rw [recomputeRun_attention]; rfl),hrow]
    by_cases hj : j = s.actions.length
    · simp [asks,approvalNotice,hj]
    · have hne : (s.actions.length == j) = false := by
        simpa using fun he : s.actions.length = j => hj he.symm
      simp [asks,approvalNotice,hj,hne]
  · rw [recomputeRun_attention]
    refine (h.grounded.mono (Nat.le_succ _)).append fun j hj => ?_
    obtain rfl : s.actions.length = j := Option.some.inj hj
    exact ⟨Nat.lt_succ_self _,Or.inl rfl⟩

theorem Tended.begun (h : s.Tended) {reviewed : Option String} {proposal : Dict}
    (hc : s.beginExecution id reviewed now = .ok (s',proposal)) : s'.Tended := by
  obtain ⟨a,hrow,hstatus,_,_,rfl⟩ := beginExecution_ok hc
  have hcons := h.consistent a (List.mem_of_getElem? hrow)
  have hauto : a.automatic = false := hcons.2 hstatus
  have hone : s.openCount id = 1 := by
    rw [h.counted id a hrow,ActionRow.needsOwner,hstatus]
    rfl
  refine h.changed (?_ : Changes _ _ id a (a.begin now))
    ⟨fun he => ?_,fun he => (by cases he)⟩ (fun j _ => ?_) ?_ ?_
  · rw [recomputeRun_actions]
    exact Changes.modify hrow _
  · exact absurd (hcons.1 he) (by rw [hstatus]; decide)
  · rw [openCount,recomputeRun_attention]
    rfl
  · have hneeds : (a.begin now).needsOwner = true := by
      show (!a.automatic) = true
      rw [hauto]
      rfl
    rw [hneeds,openCount,recomputeRun_attention]
    exact hone
  · rw [recomputeRun_attention]
    exact h.grounded

omit [ActionRuntime] in
/-- The actions that an interrupted run leaves in doubt. -/
theorem Tended.abandoned {reason : String} (l : List ℕ) :
    ∀ {s s' : Ledger}, s.Tended → l.foldlM (abandonAction reason) s = .ok s' → s'.Tended := by
  induction l with
  | nil =>
    intro s s' h hc
    obtain rfl := Except.ok.inj hc
    exact h
  | cons id l ih =>
    intro s s' h hc
    rw [List.foldlM_cons] at hc
    obtain ⟨t,ht,hrest⟩ := accepted hc
    rcases abandonAction_ok ht with rfl | hd
    · exact ih h hrest
    · exact ih (h.doubted hd) hrest

theorem Tended.interrupted (h : s.Tended) {reason : String}
    (hc : s.interruptRun runId reason now = .ok s') : s'.Tended := by
  rcases interruptRun_ok hc with ⟨rfl,_⟩ | ⟨run,t,u,_,_,ht,hfold,hs⟩
  · exact h
  · have hstart : t.Tended := h.same (by rw [ht]; rfl) (by rw [ht]; rfl)
    have hu : u.Tended := Tended.abandoned _ hstart hfold
    have hv : (u.recomputeRun runId now).Tended := hu.same (by simp) (by simp)
    rcases hs with rfl | hs
    · exact hv
    · rcases noteInterruption_ok hs with rfl | ⟨row,hrow,rfl⟩
      · exact hv
      · exact hv.notice hrow

theorem Tended.finished (h : s.Tended) {result : CapabilityCallResult} {evidenceId : String}
    (hc : s.finishAction runId id result evidenceId now = .ok s') : s'.Tended := by
  rcases finishAction_ok hc with ⟨a,hrow,_,rfl⟩ | ⟨t,hcomplete,rfl⟩
  · exact h.remarked hrow evidenceId (by decide) (by decide)
  · have ht := h.completed hcomplete
    rcases noteStagedChange_eq t runId result with he | ⟨row,hrow,he⟩
    · rw [he]
      exact ht
    · rw [he]
      exact ht.notice hrow

omit [ActionRuntime] in
theorem Tended.superseded (h : s.Tended) (hc : s.supersede id now = .ok s') : s'.Tended := by
  obtain ⟨t,hcancel,rfl⟩ := supersede_ok hc
  have ht := h.cancelled hcancel
  obtain ⟨a,hrow,_,hclosed⟩ := cancel_ok hcancel
  have hnew : t.actions[id]? = some a.cancel := by
    rw [hclosed.actions]
    exact (Changes.modify hrow (·.cancel)).after
  exact ht.remarked hnew _ (by decide) (by decide)

omit [ActionRuntime] in
/-- A notice whose state is none of an action's is about no action. -/
theorem Tended.unattached (h : s.Tended) {r : OwnerAttentionRow} (hr : r ∈ s.attention)
    (hstate : r.state ≠ .approvalRequired ∧ r.state ≠ .uncertain) : r.actionId = none := by
  cases hid : r.actionId with
  | none => rfl
  | some id =>
    rcases (h.grounded r hr id hid).2 with he | he
    · exact absurd he hstate.1
    · exact absurd he hstate.2

theorem apply_tended (h : s.Tended) {op : Op} (hc : s.apply op now = .ok s') : s'.Tended := by
  cases op with
  | openTranscript row =>
    obtain rfl := Except.ok.inj hc
    exact h.same rfl rfl
  | document transcriptId state =>
    obtain rfl := Except.ok.inj hc
    exact h.same rfl rfl
  | createRun transcriptId intent kind =>
    obtain ⟨⟨t,i⟩,ht,rfl⟩ := map_accepted hc
    obtain ⟨_,rfl,_⟩ := createRun_ok ht
    exact h.same rfl rfl
  | queueRun transcriptId intent scheduleId scheduledFor snapshot =>
    obtain ⟨⟨t,i⟩,ht,rfl⟩ := map_accepted hc
    obtain ⟨row,_,_,_,_,_,_,_,_,_,rfl,_⟩ := queueRun_ok ht
    exact h.same rfl rfl
  | startRun runId =>
    obtain rfl := Except.ok.inj hc
    exact h.same rfl rfl
  | heartbeat runId =>
    obtain rfl := Except.ok.inj hc
    exact h.same rfl rfl
  | finishRun runId succeeded =>
    rcases finishRun_ok hc with rfl | ⟨run,_,_,_,rfl⟩
    · exact h
    · exact h.same (by rw [recomputeRun_actions]; rfl) (by rw [recomputeRun_attention]; rfl)
  | interruptRun runId reason => exact h.interrupted hc
  | expireRun runId cutoff =>
    obtain rfl := Except.ok.inj hc
    exact h.same rfl rfl
  | prepareProposal runId operation arguments title capabilityId =>
    obtain ⟨⟨t,i⟩,ht,rfl⟩ := map_accepted hc
    exact h.prepared ht
  | beginExecution actionId reviewed =>
    obtain ⟨⟨t,proposal⟩,ht,rfl⟩ := map_accepted hc
    exact h.begun ht
  | beginAutomaticExecution runId operation arguments summary capabilityId =>
    obtain ⟨⟨t,i⟩,ht,rfl⟩ := map_accepted hc
    exact h.begunAutomatically ht
  | recordExecution runId operation arguments status summary output =>
    obtain ⟨⟨t,i⟩,ht,rfl⟩ := map_accepted hc
    exact h.recorded ht
  | cancel actionId => exact h.cancelled hc
  | supersede actionId => exact h.superseded hc
  | complete actionId status result externalId => exact h.completed hc
  | finishAction runId actionId result evidenceId => exact h.finished hc
  | reconcileStaleExecution actionId staleBefore =>
    rcases reconcileStaleExecution_ok hc with rfl | hd
    · exact h
    · exact h.doubted hd
  | acknowledgeUncertain actionId => exact h.acknowledged hc
  | dismissInterruption attentionId =>
    rcases dismissInterruption_ok hc with rfl | ⟨row,hrow,hid,rfl⟩
    · exact h
    · refine h.quiet rfl (fun id => countP_modify_eq fun r hr => ?_)
        (h.grounded.modify _ fun r => ⟨rfl,Or.inl rfl⟩)
      obtain rfl : r = row := Option.some.inj (hr.symm.trans hrow)
      rw [asks_eq_false hid,asks_eq_false (r := r.resolve now) hid]
  | dismissInformationalNotices =>
    obtain rfl := Except.ok.inj hc
    refine h.resolveWhere now fun r _ hp => ?_
    simp only [Bool.and_eq_true,Option.isNone_iff_eq_none] at hp
    exact hp.1
  | ownerMessage transcriptId =>
    obtain rfl := Except.ok.inj hc
    refine h.resolveWhere now fun r hr hp => h.unattached hr ?_
    simp only [Bool.and_eq_true,beq_iff_eq] at hp
    simp [hp.2]
  | stallAttention transcriptId runId title detail =>
    obtain rfl := Except.ok.inj hc
    simp only [stallAttention]
    split
    · exact h
    · exact h.notice rfl
  | resolveStallAttention transcriptId =>
    obtain rfl := Except.ok.inj hc
    refine h.resolveWhere now fun r hr hp => h.unattached hr ?_
    simp only [Bool.and_eq_true,beq_iff_eq] at hp
    simp [hp.2]

theorem reachable_tended (h : s.Reachable) : s.Tended := by
  refine h.invariant (fun s hs => ?_) fun s e hs _ => ?_
  · rw [hs]
    exact ⟨fun id a ha => (by simp at ha),fun r hr => (by cases hr),fun a ha => (by cases ha)⟩
  · simp only [step]
    split
    · next t ht => exact apply_tended hs ht
    · exact hs

/-- In every ledger that the service reaches an action has exactly one unresolved attention row
while it is prepared, executes after approval, or is uncertain and not acknowledged, and none
when it succeeded, failed, was cancelled, executes automatically, or is acknowledged. -/
theorem attention_ledger (h : s.Reachable) {action : ActionRow}
    (hrow : s.actions[id]? = some action) :
    (action.status = .prepared → (s.openAttention id).length = 1) ∧
    (action.status = .executing →
      (s.openAttention id).length = if action.automatic then 0 else 1) ∧
    (action.status = .uncertain →
      (s.openAttention id).length = if action.acknowledged then 0 else 1) ∧
    (action.status ∈ [ActionStatus.succeeded,.failed,.cancelled] →
      (s.openAttention id).length = 0) := by
  have hcount := (reachable_tended h).counted id action hrow
  rw [← length_openAttention] at hcount
  refine ⟨fun hs => ?_,fun hs => ?_,fun hs => ?_,fun hs => ?_⟩
  · rw [hcount,ActionRow.needsOwner,hs]
    rfl
  · rw [hcount,ActionRow.needsOwner,hs]
    cases action.automatic <;> rfl
  · rw [hcount,ActionRow.needsOwner,hs]
    cases action.acknowledged <;> rfl
  · have hend : action.status = .succeeded ∨ action.status = .failed ∨
        action.status = .cancelled := by simpa using hs
    rw [hcount,ActionRow.needsOwner]
    rcases hend with he | he | he <;> rw [he] <;> rfl

/-- An automatic action whose run is interrupted. -/
def interruptedNote : List (Op × Instant) := [
  (.createRun none "plan" .foreground,0),
  (.beginAutomaticExecution 0 "notes.write" [] "Write a note" "notes",1),
  (.interruptRun 0 "stopped",2)]

omit [ActionRuntime] in
theorem attention_ledger_interrupted : letI := plainActions
    ∃ action, (ran interruptedNote).actions[0]? = some action ∧ action.status = .uncertain ∧
      ((ran interruptedNote).openAttention 0).length = 1 := by
  have h := @attention_ledger (@ran plainActions interruptedNote) 0 plainActions
    (@ran_reachable plainActions _) _ rfl
  exact ⟨_,rfl,rfl,h.2.2.1 rfl⟩

end

end Ledger
end Actions
end Atlas
