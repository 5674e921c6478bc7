import Atlas.Capabilities.Host

/-! What the handler of a call and the decision on a proposal ask, after what they were told, under
any answers at all: which invocations they make and what stands behind each. -/
namespace Atlas
namespace Capabilities

open Actions Dialogue

abbrev Said := List (Exchange Request Request.Reply)

/-- The questions about the authority of a call. -/
def Request.asksAuthority : Request → Bool
  | .operationAuthorities | .resolver .. => true
  | _ => false

/-- The requests that dispatch nothing and report nothing. -/
def Request.quiet : Request → Bool
  | .beginExecution .. | .beginAutomaticExecution .. | .complete .. | .finishAction .. |
      .executor .. => false
  | _ => true

theorem Request.quiet_of_asksAuthority {q : Request} (h : q.asksAuthority = true) :
    q.quiet = true := by
  cases q <;> first | rfl | cases h

/-- What was said since is of a kind. -/
def Since (kind : Request → Bool) (said said' : Said) : Prop :=
  ∃ l, said' = said ++ l ∧ ∀ x ∈ l, kind x.1 = true

namespace Since

variable {kind kind' : Request → Bool} {said said' said'' : Said} {x : Exchange Request Request.Reply}

theorem refl : Since kind said said := ⟨[],by simp,by simp⟩

theorem trans (h : Since kind said said') (h' : Since kind said' said'') :
    Since kind said said'' := by
  obtain ⟨l,rfl,hl⟩ := h
  obtain ⟨l',rfl,hl'⟩ := h'
  refine ⟨l ++ l',by simp,fun x hx => ?_⟩
  rcases List.mem_append.mp hx with hx | hx
  · exact hl x hx
  · exact hl' x hx

theorem tail (h : Since kind said said') (hx : kind x.1 = true) :
    Since kind said (said' ++ [x]) := by
  apply h.trans
  exact ⟨[x],rfl,fun y hy => by rw [List.mem_singleton.mp hy]; exact hx⟩

theorem mono (h : Since kind said said') (hk : ∀ q, kind q = true → kind' q = true) :
    Since kind' said said' := by
  obtain ⟨l,rfl,hl⟩ := h
  exact ⟨l,rfl,fun x hx => hk _ (hl x hx)⟩

theorem mem (h : Since kind said said') (hx : x ∈ said) : x ∈ said' := by
  obtain ⟨l,rfl,_⟩ := h
  exact List.mem_append_left _ hx

/-- What is not of the kind was said before. -/
theorem mem_of_not (h : Since kind said said') (hx : x ∈ said') (hk : kind x.1 = false) :
    x ∈ said := by
  obtain ⟨l,rfl,hl⟩ := h
  rcases List.mem_append.mp hx with hx | hx
  · exact hx
  · rw [hl x hx] at hk
    cases hk

end Since

/-- Whether the execution of an action was begun. -/
def Begun (said : Said) (id : ℕ) : Prop :=
  (∃ runId operation arguments summary capabilityId,
    ⟨.beginAutomaticExecution runId operation arguments summary capabilityId,.ok id⟩ ∈ said) ∨
  ∃ reviewed proposal, ⟨.beginExecution id reviewed,.ok proposal⟩ ∈ said

/-- Whether an executor was invoked. -/
def Invoked (said : Said) : Prop := ∃ operation arguments r, ⟨.executor operation arguments,r⟩ ∈ said

/-- Whether an executor raised, without a word on how far it got. -/
def Ambiguous (said : Said) : Prop :=
  ∃ operation arguments e, ⟨.executor operation arguments,.error e⟩ ∈ said

/-- Whether the outcome of an action was reported. -/
def Reported (said : Said) : Prop :=
  ∃ x ∈ said, (∃ runId id result, x.1 = .finishAction runId id result) ∨
    ∃ id result, x.1 = .complete id result

/-- Nothing was dispatched and nothing reported. -/
def Idle (said : Said) : Prop := ¬Invoked said ∧ ¬Reported said

/-- A question about authority that raised, or that was answered with no authority at all. -/
def FailedAnswer : Exchange Request Request.Reply → Prop
  | ⟨.operationAuthorities,.error _⟩ | ⟨.taskState _,.error _⟩ | ⟨.resolver ..,.error _⟩ => True
  | ⟨.resolver ..,.ok value⟩ => AuthorityMode.ofValue value = none
  | _ => False

def Swallowed (said : Said) : Prop := ∃ x ∈ said, FailedAnswer x

variable {said said' : Said} {kind : Request → Bool}

theorem Begun.since {id : ℕ} (h : Since kind said said') (hb : Begun said id) : Begun said' id := by
  rcases hb with ⟨r,o,a,s,c,hx⟩ | ⟨r,p,hx⟩
  · exact Or.inl ⟨r,o,a,s,c,h.mem hx⟩
  · exact Or.inr ⟨r,p,h.mem hx⟩

theorem Swallowed.since (h : Since kind said said') (hs : Swallowed said) : Swallowed said' := by
  obtain ⟨x,hx,hf⟩ := hs
  exact ⟨x,h.mem hx,hf⟩

theorem Swallowed.last {x : Exchange Request Request.Reply} (h : FailedAnswer x) :
    Swallowed (said ++ [x]) := ⟨x,by simp,h⟩

theorem Reported.of_since (h : Since kind said said')
    (hk : ∀ q, (∃ runId id result, q = .finishAction runId id result) ∨
      (∃ id result, q = .complete id result) → kind q = false) (hr : Reported said') :
    Reported said := by
  obtain ⟨x,hx,hq⟩ := hr
  exact ⟨x,h.mem_of_not hx (hk _ hq),hq⟩

/-- Everything but an invocation and the report of an outcome. -/
def Request.idle : Request → Bool
  | .executor .. | .finishAction .. | .complete .. => false
  | _ => true

theorem Idle.since (h : Since Request.idle said said') (hi : Idle said) : Idle said' := by
  refine ⟨fun ⟨o,a,r,hx⟩ => hi.1 ⟨o,a,r,h.mem_of_not hx rfl⟩,fun hr => hi.2 (hr.of_since h ?_)⟩
  rintro q (⟨r,i,x,rfl⟩ | ⟨i,x,rfl⟩)
  · rfl
  · rfl

theorem Since.idle (h : Since Request.quiet said said') : Since Request.idle said said' :=
  h.mono fun q hq => by cases q <;> first | rfl | cases hq

theorem Ambiguous.invoked (h : Ambiguous said) : Invoked said := by
  obtain ⟨o,a,e,hx⟩ := h
  exact ⟨o,a,_,hx⟩

/-- The answers from which the authority of a call follows. -/
def Resolved (rt : CapabilityRuntime) (said : Said) (operationId : String) (arguments : Dict)
    (d : OperationDescriptor) (mode : AuthorityMode) : Prop :=
  ∃ raw, ⟨.operationAuthorities,.ok raw⟩ ∈ said ∧
    (overrideOf raw operationId = some mode ∨
      overrideOf raw operationId = none ∧
        ((operationId ∉ rt.authorityResolvers ∨ d.authority = .forbidden) ∧ mode = d.authority ∨
          d.authority ≠ .forbidden ∧ ∃ value, ⟨.resolver operationId arguments,.ok value⟩ ∈ said ∧
            AuthorityMode.ofValue value = some mode))

/-- The answers from which it follows that a grant of the task raises an operation to Auto. -/
def Promoted (transcriptId : ℕ) [ActionRuntime] (said : Said) (operationId : String)
    (d : OperationDescriptor) : Prop :=
  operationId ∉ nonDelegableManagedOperations ∧
    (∃ state, ⟨.taskState transcriptId,.ok state⟩ ∈ said ∧
      operationId ∈ managedTaskGrants state) ∧
    ∃ raw, ⟨.operationAuthorities,.ok raw⟩ ∈ said ∧ overrideOf raw operationId ≠ some .forbidden ∧
      ¬(overrideOf raw operationId = none ∧ d.authority = .forbidden)

/-- What lets a call run by itself. -/
def Automatic (rt : CapabilityRuntime) (transcriptId : ℕ) [ActionRuntime] (said : Said)
    (operationId : String) (arguments : Dict) (d : OperationDescriptor) : Prop :=
  Resolved rt said operationId arguments d .auto ∨
    Resolved rt said operationId arguments d .approvalRequired ∧
      Promoted transcriptId said operationId d

/-- The capabilities that were enabled when that was last asked. -/
def LastPolicy (said : Said) (enabled : List String) : Prop :=
  ∃ before after, said = before ++ ⟨.enabledCapabilities,.ok enabled⟩ :: after ∧
    ∀ x ∈ after, x.1 ≠ .enabledCapabilities

theorem LastPolicy.since {enabled : List String} (h : Since Request.asksAuthority said said')
    (hp : LastPolicy said enabled) : LastPolicy said' enabled := by
  obtain ⟨l,rfl,hl⟩ := h
  obtain ⟨before,after,rfl,hafter⟩ := hp
  refine ⟨before,after ++ l,by simp,fun x hx he => ?_⟩
  rcases List.mem_append.mp hx with hx | hx
  · exact hafter x hx he
  · have hk := hl x hx
    rw [he] at hk
    cases hk

theorem Resolved.since {rt : CapabilityRuntime} {operationId : String} {arguments : Dict}
    {d : OperationDescriptor} {mode : AuthorityMode} (h : Since kind said said')
    (hr : Resolved rt said operationId arguments d mode) :
    Resolved rt said' operationId arguments d mode := by
  obtain ⟨raw,hx,h₁ | ⟨h₂,h₃ | ⟨hd,value,hv,hmode⟩⟩⟩ := hr
  · exact ⟨raw,h.mem hx,Or.inl h₁⟩
  · exact ⟨raw,h.mem hx,Or.inr ⟨h₂,Or.inl h₃⟩⟩
  · exact ⟨raw,h.mem hx,Or.inr ⟨h₂,Or.inr ⟨hd,value,h.mem hv,hmode⟩⟩⟩

theorem Automatic.since [ActionRuntime] {rt : CapabilityRuntime} {transcriptId : ℕ}
    {operationId : String} {arguments : Dict} {d : OperationDescriptor} (h : Since kind said said')
    (ha : Automatic rt transcriptId said operationId arguments d) :
    Automatic rt transcriptId said' operationId arguments d := by
  rcases ha with hr | ⟨hr,hn,⟨state,hs,hg⟩,raw,hx,hraw⟩
  · exact Or.inl (hr.since h)
  · exact Or.inr ⟨hr.since h,hn,⟨state,h.mem hs,hg⟩,raw,h.mem hx,hraw⟩

/-! The programs, from the inside out. -/

variable {ok : Said → Request → Prop} {α : Type}

theorem minds_put {q : Request} {β : Type} {f : q.Answer → Program β}
    {Post : Said → Except Refusal β → Prop} (hq : ok said q)
    (hok : ∀ a, (f a).Minds ok Post (said ++ [⟨q,.ok a⟩]))
    (herror : ∀ e, Post (said ++ [⟨q,.error e⟩]) (.error e)) :
    (put q >>= f).Minds ok Post said := by
  refine ⟨hq,fun r => ?_⟩
  cases r with
  | ok a => exact hok a
  | error e => exact herror e

section

variable (hquiet : ∀ (said : Said) (q : Request), q.quiet = true → ok said q)

include hquiet

theorem authorityOverride_minds (operationId : String) (said : Said) :
    (authorityOverride operationId).Minds ok (fun said' r =>
      Since Request.asksAuthority said said' ∧
        (∀ e, r = .error e → Swallowed said') ∧
        ∀ override, r = .ok override → ∃ raw, ⟨.operationAuthorities,.ok raw⟩ ∈ said' ∧
          override = overrideOf raw operationId) said := by
  apply minds_put (hquiet _ _ rfl)
  · intro raw
    refine Prog.minds_pure ⟨Since.refl.tail rfl,by simp,fun override h => ?_⟩
    exact ⟨raw,by simp,(Except.ok.inj h).symm⟩
  · intro e
    exact ⟨Since.refl.tail rfl,fun e' _ => Swallowed.last trivial,by simp⟩

theorem resolveAuthority_minds {rt : CapabilityRuntime} {operationId : String} (arguments : Dict)
    {d : OperationDescriptor} (hd : rt.descriptor operationId = some d) (said : Said) :
    (rt.resolveAuthority operationId arguments).Minds ok (fun said' r =>
      Since Request.asksAuthority said said' ∧
        (∀ e, r = .error e → Swallowed said') ∧
        ∀ mode, r = .ok mode → Resolved rt said' operationId arguments d mode) said := by
  simp only [CapabilityRuntime.resolveAuthority,hd]
  apply (authorityOverride_minds hquiet operationId said).bind
  · rintro said₁ override ⟨hsince,_,hover⟩
    obtain ⟨raw,hraw,rfl⟩ := hover override rfl
    cases hmode : overrideOf raw operationId with
    | some mode =>
      refine Prog.minds_pure ⟨hsince,by simp,fun m hm => ?_⟩
      obtain rfl := Except.ok.inj hm
      exact ⟨raw,hraw,Or.inl hmode⟩
    | none =>
      apply Prog.minds_ite
      · intro hc
        refine Prog.minds_pure ⟨hsince,by simp,fun m hm => ?_⟩
        obtain rfl := Except.ok.inj hm
        exact ⟨raw,hraw,Or.inr ⟨hmode,Or.inl ⟨hc,rfl⟩⟩⟩
      · intro hc
        rw [not_or,not_not] at hc
        apply minds_put (hquiet _ _ rfl)
        · intro value
          have hlast : Since Request.asksAuthority said
              (said₁ ++ [⟨.resolver operationId arguments,.ok value⟩]) := hsince.tail rfl
          cases hvalue : AuthorityMode.ofValue value with
          | none => exact Prog.minds_raise ⟨hlast,fun e _ => Swallowed.last hvalue,by simp⟩
          | some mode =>
            refine Prog.minds_pure ⟨hlast,by simp,fun m hm => ?_⟩
            obtain rfl := Except.ok.inj hm
            exact ⟨raw,by simp [hraw],Or.inr ⟨hmode,Or.inr ⟨hc.2,value,by simp,hvalue⟩⟩⟩
        · intro e
          exact ⟨hsince.tail rfl,fun e' _ => Swallowed.last trivial,by simp⟩
  · rintro said₁ e ⟨hsince,hfailed,_⟩
    exact ⟨hsince,fun e' _ => hfailed e rfl,by simp⟩

/-- What the handler asks about the authority of a call. -/
def Request.asksGrants : Request → Bool
  | .taskState _ => true
  | q => q.asksAuthority

omit hquiet in
theorem Since.grants (h : Since Request.asksAuthority said said') :
    Since Request.asksGrants said said' :=
  h.mono fun q hq => by cases q <;> first | rfl | cases hq

theorem applyTaskGrant_minds {rt : CapabilityRuntime} {operationId : String}
    {d : OperationDescriptor} (hd : rt.descriptor operationId = some d) (resolved : AuthorityMode)
    (said : Said) :
    (rt.applyTaskGrant operationId resolved).Minds ok (fun said' r =>
      Since Request.asksAuthority said said' ∧
        (∀ e, r = .error e → Swallowed said') ∧
        ∀ mode, r = .ok mode → mode = .auto → resolved = .auto ∨
          resolved = .approvalRequired ∧ operationId ∉ nonDelegableManagedOperations ∧
            ∃ raw, ⟨.operationAuthorities,.ok raw⟩ ∈ said' ∧
              overrideOf raw operationId ≠ some .forbidden ∧
              ¬(overrideOf raw operationId = none ∧ d.authority = .forbidden)) said := by
  simp only [CapabilityRuntime.applyTaskGrant,hd]
  apply Prog.minds_ite
  · intro _
    refine Prog.minds_pure ⟨Since.refl,by simp,fun mode hm hauto => Or.inl ?_⟩
    exact (Except.ok.inj hm).trans hauto
  · intro hc
    rw [not_or,not_not] at hc
    apply (authorityOverride_minds hquiet operationId said).bind
    · rintro said₁ override ⟨hsince,_,hover⟩
      obtain ⟨raw,hraw,rfl⟩ := hover override rfl
      apply Prog.minds_ite
      · intro _
        refine Prog.minds_pure ⟨hsince,by simp,fun mode hm hauto => ?_⟩
        rw [← Except.ok.inj hm] at hauto
        cases hauto
      · intro hfree
        rw [not_or] at hfree
        exact Prog.minds_pure ⟨hsince,by simp,fun mode _ _ =>
          Or.inr ⟨hc.2,hc.1,raw,hraw,hfree.1,hfree.2⟩⟩
    · rintro said₁ e ⟨hsince,hfailed,_⟩
      exact ⟨hsince,fun e' _ => hfailed e rfl,by simp⟩

variable [ActionRuntime]

/-- The handler finds a call automatic on good grounds, or a question of it has failed. -/
theorem handlerAuthority_minds {rt : CapabilityRuntime} (transcriptId : ℕ) {operation : String}
    (arguments : Dict) {d : OperationDescriptor} (hd : rt.descriptor operation = some d)
    (said : Said) :
    (rt.handlerAuthority transcriptId operation arguments).Minds ok (fun said' r =>
      Since Request.asksGrants said said' ∧
        (∀ e, r = .error e → Swallowed said') ∧
        ∀ mode granted, r = .ok (mode,granted) → mode = .auto →
          Automatic rt transcriptId said' operation arguments d) said := by
  apply (resolveAuthority_minds hquiet arguments hd said).bind
  · rintro said₁ authority ⟨hsince,_,hresolved⟩
    have hres := hresolved authority rfl
    have hfirst := Since.grants hsince
    apply minds_put (hquiet _ _ rfl)
    · intro state
      have hsecond : Since Request.asksGrants said (said₁ ++ [⟨.taskState transcriptId,.ok state⟩]) :=
        hfirst.tail rfl
      have hlast : Since Request.asksGrants said₁
          (said₁ ++ [⟨.taskState transcriptId,.ok state⟩]) := Since.refl.tail rfl
      have hres' : Resolved rt (said₁ ++ [⟨.taskState transcriptId,.ok state⟩]) operation arguments
          d authority := hres.since hlast
      apply Prog.minds_ite
      · intro hgrant
        apply (applyTaskGrant_minds hquiet hd authority _).bind
        · rintro said₂ granted ⟨hthird,_,hauto⟩
          refine Prog.minds_pure ⟨hsecond.trans (Since.grants hthird),by simp,?_⟩
          intro mode flag hm hmode
          obtain ⟨rfl,_⟩ := Prod.mk.inj (Except.ok.inj hm)
          rcases hauto granted rfl hmode with rfl | ⟨rfl,hn,hraw⟩
          · exact Or.inl (hres'.since hthird)
          · exact Or.inr ⟨hres'.since hthird,hn,⟨state,hthird.mem (by simp),hgrant⟩,hraw⟩
        · rintro said₂ e ⟨hthird,hfailed,_⟩
          exact ⟨hsecond.trans (Since.grants hthird),fun e' _ => hfailed e rfl,by simp⟩
      · intro _
        refine Prog.minds_pure ⟨hsecond,by simp,fun mode flag hm hmode => ?_⟩
        obtain ⟨rfl,_⟩ := Prod.mk.inj (Except.ok.inj hm)
        exact Or.inl (hmode ▸ hres')
    · intro e
      exact ⟨hfirst.tail rfl,fun e' _ => Swallowed.last trivial,by simp⟩
  · rintro said₁ e ⟨hsince,hfailed,_⟩
    exact ⟨Since.grants hsince,fun e' _ => hfailed e rfl,by simp⟩

omit [ActionRuntime] hquiet in
theorem actionStatus_ambiguous (operationId : String) (e : Refusal) :
    actionStatusForResult (callResult operationId (.error e)) = .uncertain := by
  simp [actionStatusForResult,callResult,refused,failurePhase,Json.textAt,Dict.get]

/-- Everything but the begin and the report of an execution. -/
def Request.inCall : Request → Bool
  | .executor .. => true
  | q => q.quiet

omit [ActionRuntime] hquiet in
theorem Since.inCall (h : Since Request.quiet said said') : Since Request.inCall said said' :=
  h.mono fun q hq => by cases q <;> first | rfl | cases hq

omit [ActionRuntime] hquiet in
theorem Since.quietly (h : Since Request.asksAuthority said said') :
    Since Request.quiet said said' :=
  h.mono fun _ => Request.quiet_of_asksAuthority

/-- What a call leaves behind: an executor that raised leaves its result in doubt. -/
structure Called (said said' : Said) (r : Except Refusal CapabilityCallResult) : Prop where
  since : Since Request.inCall said said'
  doubt : Ambiguous said' → Ambiguous said ∨ ∃ result, r = .ok result ∧
    actionStatusForResult result = .uncertain ∧ result.status ≠ "succeeded"

omit [ActionRuntime] hquiet in
theorem Called.quietly {r : Except Refusal CapabilityCallResult}
    (h : Since Request.quiet said said') : Called said said' r := by
  refine ⟨h.inCall,fun ⟨o,a,e,hx⟩ => Or.inl ⟨o,a,e,h.mem_of_not hx rfl⟩⟩

omit [ActionRuntime] hquiet in
theorem Called.trans {said'' : Said} {r : Except Refusal CapabilityCallResult}
    (h : Since Request.quiet said said') (h' : Called said' said'' r) : Called said said'' r := by
  refine ⟨h.inCall.trans h'.since,fun ha => ?_⟩
  rcases h'.doubt ha with ⟨o,a,e,hx⟩ | hr
  · exact Or.inl ⟨o,a,e,h.mem_of_not hx rfl⟩
  · exact Or.inr hr

/-- What may be asked of a proposal sink. -/
def QuietSink (ok : Said → Request → Prop)
    (sink : Option (OperationDescriptor → Dict → Program ℕ)) : Prop :=
  ∀ f, sink = some f → ∀ d arguments said,
    (f d arguments).Minds ok (fun said' _ => Since Request.quiet said said') said

omit [ActionRuntime] hquiet in
theorem dispatch_minds {sink : Option (OperationDescriptor → Dict → Program ℕ)}
    (hsink : QuietSink ok sink) (d : OperationDescriptor) (operationId : String)
    (arguments : Dict) (approved : Bool) (mode : AuthorityMode) (said : Said)
    (hexecutor : mode = .auto ∨ (mode = .approvalRequired ∧ approved = true) →
      ok said (.executor operationId arguments)) :
    (dispatch d operationId arguments sink approved mode).Minds ok (Called said) said := by
  apply Prog.minds_ite
  · intro _
    exact Prog.minds_pure (Called.quietly Since.refl)
  · intro hforbidden
    apply Prog.minds_ite
    · intro _
      cases sink with
      | none => exact Prog.minds_pure (Called.quietly Since.refl)
      | some f =>
        apply (hsink f rfl d arguments said).bind
        · intro said₁ id hsince
          exact Prog.minds_pure (Called.quietly hsince)
        · intro said₁ e hsince
          exact Called.quietly hsince
    · intro happroval
      have hmode : mode = .auto ∨ (mode = .approvalRequired ∧ approved = true) := by
        cases mode with
        | auto => exact Or.inl rfl
        | approvalRequired => exact Or.inr ⟨rfl,by simpa using happroval⟩
        | forbidden => exact absurd rfl hforbidden
      refine ⟨hexecutor hmode,fun r => ?_⟩
      refine ⟨(Since.refl).tail rfl,fun ⟨o,a,e,hx⟩ => ?_⟩
      rcases List.mem_append.mp hx with hx | hx
      · exact Or.inl ⟨o,a,e,hx⟩
      · obtain ⟨hq,hr⟩ := Sigma.mk.inj (List.mem_singleton.mp hx)
        obtain ⟨rfl,rfl⟩ := Request.executor.inj hq
        obtain rfl := eq_of_heq hr
        refine Or.inr ⟨_,rfl,actionStatus_ambiguous _ _,?_⟩
        simp [callResult,refused]

/-- Nothing is invoked in a call that was not found enabled when last asked, with valid arguments
and an authority that lets it run. -/
theorem call_minds {rt : CapabilityRuntime} {operationId : String} {arguments : Dict}
    {sink : Option (OperationDescriptor → Dict → Program ℕ)} (hsink : QuietSink ok sink)
    (approved : Bool) (authority : Option AuthorityMode) (said : Said)
    (hexecutor : ∀ (d : OperationDescriptor) (enabled : List String) (said' : Said)
      (mode : AuthorityMode), rt.descriptor operationId = some d → d.capabilityId ∈ enabled →
      LastPolicy said' enabled → Since Request.quiet said said' →
      rt.validateArguments operationId arguments = .ok none →
      (authority = some mode ∨
        authority = none ∧ Resolved rt said' operationId arguments d mode) →
      mode = .auto ∨ (mode = .approvalRequired ∧ approved = true) →
      ok said' (.executor operationId arguments)) :
    (rt.call operationId arguments sink approved authority).Minds ok (Called said) said := by
  simp only [CapabilityRuntime.call]
  cases hd : rt.descriptor operationId with
  | none => exact Prog.minds_pure (Called.quietly Since.refl)
  | some d =>
    apply Prog.minds_ite
    · intro _
      exact Prog.minds_pure (Called.quietly Since.refl)
    · intro _
      apply minds_put (hquiet _ _ rfl)
      · intro enabled
        have hfirst : Since Request.quiet said (said ++ [⟨.enabledCapabilities,.ok enabled⟩]) :=
          Since.refl.tail rfl
        have hpolicy : LastPolicy (said ++ [⟨.enabledCapabilities,.ok enabled⟩]) enabled :=
          ⟨said,[],rfl,by simp⟩
        apply Prog.minds_ite
        · intro _
          exact Prog.minds_pure (Called.quietly hfirst)
        · intro henabled
          rw [not_not] at henabled
          have hdenied : (forbiddenByDefault d authority).Minds ok
              (fun said' _ => Since Request.asksAuthority
                (said ++ [⟨.enabledCapabilities,.ok enabled⟩]) said')
              (said ++ [⟨.enabledCapabilities,.ok enabled⟩]) := by
            apply Prog.minds_ite
            · intro _
              exact ((authorityOverride_minds hquiet d.id _).mono fun _ _ h => h.1).bind
                (fun _ _ h => h) fun _ _ h => h
            · intro _
              exact Prog.minds_pure Since.refl
          apply hdenied.bind
          · intro said₁ denied hsince
            have hsecond := hfirst.trans hsince.quietly
            have hpolicy₁ := hpolicy.since hsince
            apply Prog.minds_ite
            · intro _
              exact Prog.minds_pure (Called.quietly hsecond)
            · intro _
              simp only [CapabilityRuntime.callChecked]
              cases hvalid : rt.validateArguments operationId arguments with
              | error e => exact Called.quietly hsecond
              | ok problem =>
                cases problem with
                | some problem => exact Prog.minds_pure (Called.quietly hsecond)
                | none =>
                  cases authority with
                  | some mode =>
                    apply (dispatch_minds hsink d operationId arguments approved mode said₁ ?_).mono
                    · exact fun said' r h => h.trans hsecond
                    · exact hexecutor d enabled said₁ mode hd henabled hpolicy₁ hsecond hvalid
                        (Or.inl rfl)
                  | none =>
                    apply (resolveAuthority_minds hquiet arguments hd said₁).attempt.bind
                    · rintro said₂ r ⟨x,hx,hthird,_,hresolved⟩
                      obtain rfl := Except.ok.inj hx
                      have hall := hsecond.trans hthird.quietly
                      cases r with
                      | error e => exact Prog.minds_pure (Called.quietly hall)
                      | ok mode =>
                        apply (dispatch_minds hsink d operationId arguments approved mode said₂
                          ?_).mono
                        · exact fun said' r h => h.trans hall
                        · exact hexecutor d enabled said₂ mode hd henabled
                            (hpolicy₁.since hthird) hall hvalid
                            (Or.inr ⟨rfl,hresolved mode rfl⟩)
                    · rintro said₂ e ⟨x,hx,_⟩
                      cases hx
          · intro said₁ e hsince
            exact Called.quietly (hfirst.trans hsince.quietly)
      · intro e
        exact Called.quietly (Since.refl.tail rfl)

end

end Capabilities
end Atlas
