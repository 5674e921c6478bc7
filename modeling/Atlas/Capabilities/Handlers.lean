import Atlas.Capabilities.Conduct

/-! The order that the handler of a call and the decision on a proposal keep, whatever they are
answered. -/
namespace Atlas
namespace Capabilities

open Actions Dialogue

variable [ActionRuntime]

/-- What the handler of a call may ask after what was said. -/
def HandlerOrder (rt : CapabilityRuntime) (runId transcriptId : ℕ) (said : Said) : Request → Prop
  | .executor operation arguments => Idle said ∧ ∃ d, rt.descriptor operation = some d ∧
      (∃ enabled, LastPolicy said enabled ∧ d.capabilityId ∈ enabled) ∧
      Automatic rt transcriptId said operation arguments d ∧
      (d.effect = .read ∨ Swallowed said ∨ ∃ id summary capabilityId,
        ⟨.beginAutomaticExecution runId operation arguments summary capabilityId,.ok id⟩ ∈ said)
  | .beginAutomaticExecution run .. => run = runId ∧ ∀ id, ¬Begun said id
  | .finishAction _ id result => Begun said id ∧ ¬Reported said ∧
      (Ambiguous said → actionStatusForResult result = .uncertain)
  | .complete .. | .beginExecution .. => False
  | _ => True

/-- What the decision on a proposal may ask after what was said. -/
def DecisionOrder (rt : CapabilityRuntime) (actionId : ℕ) (said : Said) : Request → Prop
  | .executor operation arguments => Idle said ∧
      (∃ d enabled mode, rt.descriptor operation = some d ∧ LastPolicy said enabled ∧
        d.capabilityId ∈ enabled ∧ Resolved rt said operation arguments d mode ∧
        mode ≠ .forbidden) ∧
      ∃ action now proposal reviewed p, ⟨.action actionId,.ok (some action)⟩ ∈ said ∧
        verifyProposal action now = .ok proposal ∧ action.operation = operation ∧
        Dict.get proposal "arguments" = some (.obj arguments) ∧
        ⟨.beginExecution actionId (some reviewed),.ok p⟩ ∈ said
  | .beginExecution id _ => id = actionId ∧ ∀ id, ¬Begun said id
  | .finishAction _ id result | .complete id result => Begun said id ∧ ¬Reported said ∧
      (Ambiguous said → actionStatusForResult result = .uncertain)
  | .beginAutomaticExecution .. => False
  | _ => True

variable {rt : CapabilityRuntime} {runId transcriptId actionId : ℕ} {said said' : Said}

theorem handlerOrder_quiet (said : Said) (q : Request) (h : q.quiet = true) :
    HandlerOrder rt runId transcriptId said q := by
  cases q <;> first | exact trivial | cases h

theorem decisionOrder_quiet (said : Said) (q : Request) (h : q.quiet = true) :
    DecisionOrder rt actionId said q := by
  cases q <;> first | exact trivial | cases h

omit [ActionRuntime] in
theorem quietSink_none {ok : Said → Request → Prop} : QuietSink ok none := by
  intro f hf
  cases hf

omit [ActionRuntime] in
theorem quietSink_propose {ok : Said → Request → Prop}
    (hquiet : ∀ (said : Said) (q : Request), q.quiet = true → ok said q) (runId : ℕ)
    (operation : String) : QuietSink ok (some (propose runId operation)) := by
  intro f hf d arguments said
  obtain rfl := Option.some.inj hf
  exact ⟨hquiet _ _ rfl,fun r => Since.refl.tail rfl⟩

omit [ActionRuntime] in
theorem withPreflight_of_ne (operation : String) (arguments : Dict) {result : CapabilityCallResult}
    (h : result.status ≠ "succeeded") : withPreflight operation arguments result = result := by
  simp only [withPreflight]
  split
  · simp [h]
  · rfl

/-- The state of a handler before it has begun anything. -/
structure Unbegun (said : Said) : Prop where
  idle : Idle said
  begun : ∀ id, ¬Begun said id

omit [ActionRuntime] in
theorem Unbegun.quietly (h : Since Request.quiet said said') (hu : Unbegun said) :
    Unbegun said' := by
  refine ⟨hu.idle.since h.idle,fun id hb => hu.begun id ?_⟩
  rcases hb with ⟨r,o,a,s,c,hx⟩ | ⟨r,p,hx⟩
  · exact Or.inl ⟨r,o,a,s,c,h.mem_of_not hx rfl⟩
  · exact Or.inr ⟨r,p,h.mem_of_not hx rfl⟩

omit [ActionRuntime] in
theorem unbegun_nil : Unbegun [] := by
  refine ⟨⟨?_,?_⟩,?_⟩
  · rintro ⟨o,a,r,hx⟩
    cases hx
  · rintro ⟨x,hx,_⟩
    cases hx
  · rintro id (⟨r,o,a,s,c,hx⟩ | ⟨r,p,hx⟩) <;> cases hx

omit [ActionRuntime] in
theorem unbegun_of_quiet (h : Since Request.quiet [] said) : Unbegun said := unbegun_nil.quietly h

/-- What is known of a call whose result is to be recorded. -/
structure Recordable (said : Said) (actionId : Option ℕ) (result : CapabilityCallResult) :
    Prop where
  begun : ∀ id, actionId = some id → Begun said id
  unreported : ¬Reported said
  doubt : Ambiguous said → actionStatusForResult result = .uncertain

theorem recordResult_minds {operation : String} {arguments : Dict} {id : Option ℕ}
    {result : CapabilityCallResult} (h : Recordable said id result) :
    (recordResult rt runId operation arguments id result).Minds
      (HandlerOrder rt runId transcriptId) (fun _ _ => True) said := by
  apply Prog.minds_ite
  · intro _
    exact Prog.minds_pure trivial
  · intro _
    cases id with
    | none => exact minds_put trivial (fun _ => Prog.minds_pure trivial) fun _ => trivial
    | some id =>
      exact minds_put ⟨h.begun id rfl,h.unreported,h.doubt⟩ (fun _ => Prog.minds_pure trivial)
        fun _ => trivial

omit [ActionRuntime] in
theorem Called.recordable {result : CapabilityCallResult} {id : Option ℕ}
    (h : Called said said' (.ok result)) (hidle : Idle said)
    (hbegun : ∀ i, id = some i → Begun said i) (operation : String) (arguments : Dict) :
    Recordable said' id (withPreflight operation arguments result) := by
  refine ⟨fun i hi => (hbegun i hi).since h.since,fun hr => hidle.2 (hr.of_since h.since ?_),
    fun ha => ?_⟩
  · rintro q (⟨r,i,x,rfl⟩ | ⟨i,x,rfl⟩)
    · rfl
    · rfl
  · rcases h.doubt ha with hold | ⟨x,hx,hdoubt,hstatus⟩
    · exact absurd hold.invoked hidle.1
    · obtain rfl := Except.ok.inj hx
      rw [withPreflight_of_ne _ _ hstatus]
      exact hdoubt

theorem beginAutomatic_minds {operation : String} {d : OperationDescriptor}
    (hd : rt.descriptor operation = some d) (arguments : Dict) (authority : Option AuthorityMode)
    (hfresh : Unbegun said) : (beginAutomatic rt runId operation arguments authority).Minds
      (HandlerOrder rt runId transcriptId) (fun said' r => Since Request.idle said said' ∧
        ∀ id, r = .ok id → (∀ i, id = some i → Begun said' i) ∧
          (authority = some .auto → d.effect = .read ∨ ∃ i summary capabilityId,
            ⟨.beginAutomaticExecution runId operation arguments summary capabilityId,.ok i⟩ ∈
              said')) said := by
  simp only [beginAutomatic,hd]
  apply Prog.minds_ite
  · intro _
    apply minds_put (q := .beginAutomaticExecution runId operation arguments d.description
      d.capabilityId) ⟨rfl,hfresh.begun⟩
    · intro id
      refine Prog.minds_pure ⟨Since.refl.tail rfl,fun i hi => ⟨?_,fun _ => Or.inr ?_⟩⟩
      · intro j hj
        obtain rfl := Option.some.inj ((Except.ok.inj hi).trans hj)
        exact Or.inl ⟨_,_,_,_,_,List.mem_append_right _ (List.mem_singleton.mpr rfl)⟩
      · exact ⟨id,d.description,d.capabilityId,by simp⟩
    · intro e
      exact ⟨Since.refl.tail rfl,by simp⟩
  · intro hauto
    rw [not_and_or,not_not] at hauto
    refine Prog.minds_pure ⟨Since.refl,fun i hi => ⟨?_,fun ha => ?_⟩⟩
    · intro j hj
      cases (Except.ok.inj hi).trans hj
    · exact hauto.imp (fun h => h) fun hn => absurd ha hn

/-- A call that is invoked has its intent committed, unless it reads or a question failed before. -/
theorem callValidated_minds {operation : String} {arguments : Dict} {d : OperationDescriptor}
    (hd : rt.descriptor operation = some d) (hfresh : Unbegun said) :
    (callValidated rt runId transcriptId operation arguments).Minds
      (HandlerOrder rt runId transcriptId) (fun _ _ => True) said := by
  apply (handlerAuthority_minds handlerOrder_quiet transcriptId arguments hd said).attempt.bind
  · rintro said₁ resolved ⟨x,hx,hsince,hfailed,hautomatic⟩
    obtain rfl := Except.ok.inj hx
    have hquiet₁ : Since Request.quiet said said₁ :=
      hsince.mono fun q hq => by cases q <;> first | rfl | cases hq
    have hfresh₁ := hfresh.quietly hquiet₁
    -- The authority that is passed on, and what stands behind it.
    generalize hauthority : passedOn resolved = authority
    have hground : authority = some .auto → Automatic rt transcriptId said₁ operation arguments d := by
      rintro rfl
      cases resolved with
      | error e => cases hauthority
      | ok p => exact hautomatic p.1 p.2 rfl (Option.some.inj hauthority)
    have hswallowed : authority = none → Swallowed said₁ := by
      rintro rfl
      cases resolved with
      | error e => exact hfailed e rfl
      | ok p => cases hauthority
    have hcall : ∀ (said₂ : Said) (id : Option ℕ), Since Request.idle said₁ said₂ →
        (∀ i, id = some i → Begun said₂ i) →
        (authority = some .auto → d.effect = .read ∨ ∃ i summary capabilityId,
          ⟨.beginAutomaticExecution runId operation arguments summary capabilityId,.ok i⟩ ∈ said₂) →
        (rt.call operation arguments (some (propose runId operation)) false authority >>= fun result
          => recordResult rt runId operation arguments id
            (withPreflight operation arguments result)).Minds
          (HandlerOrder rt runId transcriptId) (fun _ _ => True) said₂ := by
      intro said₂ id hidle hbegun hintent
      have hidle₂ := hfresh₁.idle.since hidle
      refine (call_minds handlerOrder_quiet (quietSink_propose handlerOrder_quiet runId operation)
        false authority said₂ ?_).bind ?_ ?_
      · intro d' enabled said₃ mode hd' henabled hpolicy hsince₃ _ hmode hauto
        obtain rfl := Option.some.inj (hd.symm.trans hd')
        obtain rfl : mode = .auto := by simpa using hauto
        refine ⟨hidle₂.since hsince₃.idle,d,hd,⟨enabled,hpolicy,henabled⟩,?_,?_⟩
        · rcases hmode with hm | ⟨_,hres⟩
          · exact ((hground hm).since hidle).since hsince₃
          · exact Or.inl hres
        · rcases hmode with hm | ⟨hn,_⟩
          · rcases hintent hm with hread | ⟨i,summary,capabilityId,hx⟩
            · exact Or.inl hread
            · exact Or.inr (Or.inr ⟨i,summary,capabilityId,hsince₃.mem hx⟩)
          · exact Or.inr (Or.inl (((hswallowed hn).since hidle).since hsince₃))
      · intro said₃ result hcalled
        exact recordResult_minds (hcalled.recordable hidle₂ hbegun operation arguments)
      · intro _ _ _
        trivial
    apply (beginAutomatic_minds hd arguments authority hfresh₁).bind
    · rintro said₂ id ⟨hidle,hbegun⟩
      refine hcall said₂ id hidle ?_ fun ha => (hbegun id rfl).2 ha
      rintro i rfl
      exact (hbegun _ rfl).1 i rfl
    · intro _ _ _
      trivial
  · rintro said₁ e ⟨x,hx,_⟩
    cases hx

section

variable {ok : Said → Request → Prop}
  (hquiet : ∀ (said : Said) (q : Request), q.quiet = true → ok said q)

include hquiet

theorem prepareManagedTaskCreate_minds (arguments : Dict) (said : Said) :
    (rt.prepareManagedTaskCreate transcriptId arguments).Minds ok
      (fun said' _ => Since Request.quiet said said') said := by
  have hpreflight : ∀ grants, (rt.preflightAuthorityGrants grants).Minds ok
      (fun said' _ => Since Request.quiet said said') said := by
    intro grants
    apply minds_put (hquiet _ _ rfl)
    · intro enabled
      apply minds_put (hquiet _ _ rfl)
      · intro raw
        have hfirst : Since Request.quiet said (said ++ [⟨.enabledCapabilities,.ok enabled⟩]) :=
          Since.refl.tail rfl
        have hsince := hfirst.tail (x := ⟨.operationAuthorities,.ok raw⟩) rfl
        split
        · exact Prog.minds_pure hsince
        · exact Prog.minds_raise hsince
      · intro e
        exact (Since.refl.tail rfl).tail rfl
    · intro e
      exact Since.refl.tail rfl
  exact (hpreflight _).bind (fun _ _ h => Prog.minds_pure h) fun _ _ h => h

theorem preparedArguments_minds (operation : String) (arguments : Dict) (said : Said) :
    (rt.preparedArguments transcriptId operation arguments).Minds ok
      (fun said' _ => Since Request.quiet said said') said := by
  apply Prog.minds_ite
  · intro _
    apply (prepareManagedTaskCreate_minds hquiet arguments said).attempt.bind
    · rintro said₁ r ⟨x,hx,hsince⟩
      obtain rfl := Except.ok.inj hx
      cases r with
      | ok prepared => exact Prog.minds_pure hsince
      | error e =>
        apply Prog.minds_ite
        · exact fun _ => Prog.minds_pure hsince
        · exact fun _ => Prog.minds_raise hsince
    · rintro said₁ e ⟨x,hx,_⟩
      cases hx
  · intro _
    apply Prog.minds_ite
    · intro _
      exact minds_put (hquiet _ _ rfl) (fun _ => Prog.minds_pure (Since.refl.tail rfl))
        fun _ => Since.refl.tail rfl
    · exact fun _ => Prog.minds_pure Since.refl

end

theorem callTool_minds (operation : String) (arguments : Dict) (hfresh : Unbegun said) :
    (callTool rt runId transcriptId operation arguments).Minds
      (HandlerOrder rt runId transcriptId) (fun _ _ => True) said := by
  apply (preparedArguments_minds handlerOrder_quiet operation arguments said).bind
  · intro said₁ prepared hsince
    have hfresh₁ := hfresh.quietly hsince
    cases prepared with
    | error problem =>
      refine recordResult_minds ⟨by simp,hfresh₁.idle.2,fun ha => ?_⟩
      exact absurd ha.invoked hfresh₁.idle.1
    | ok arguments =>
      simp only
      cases hvalid : rt.validateArguments operation arguments with
      | error e => trivial
      | ok problem =>
        cases problem with
        | some problem =>
          refine (call_minds handlerOrder_quiet
            (quietSink_propose handlerOrder_quiet runId operation) false none said₁ ?_).bind ?_ ?_
          · intro d enabled said₂ mode _ _ _ _ hnone
            rw [hvalid] at hnone
            cases hnone
          · intro said₂ result hcalled
            exact recordResult_minds (hcalled.recordable hfresh₁.idle (by simp) _ _)
          · intro _ _ _
            trivial
        | none =>
          have hd : ∃ d, rt.descriptor operation = some d := by
            cases hd : rt.descriptor operation with
            | none => simp [CapabilityRuntime.validateArguments,hd] at hvalid
            | some d => exact ⟨d,rfl⟩
          obtain ⟨d,hd⟩ := hd
          exact callValidated_minds hd hfresh₁
  · intro _ _ _
    trivial

/-- The handler of a call keeps its order whatever it is answered. -/
theorem toolHandler_minds (tool : ToolCall) : (toolHandler rt runId transcriptId tool).Minds
    (HandlerOrder rt runId transcriptId) (fun _ _ => True) [] := by
  apply minds_put trivial
  · intro _
    have hfresh : Unbegun [⟨.requireLiveRun runId,.ok ()⟩] :=
      unbegun_of_quiet (Since.refl.tail rfl)
    cases tool with
    | search query limit =>
      have hsearch : (searchTool rt transcriptId query limit).Minds
          (HandlerOrder rt runId transcriptId) (fun _ _ => True) [⟨.requireLiveRun runId,.ok ()⟩] :=
        minds_put trivial (fun _ => minds_put trivial (fun _ => minds_put trivial
          (fun _ => Prog.minds_pure trivial) fun _ => trivial) fun _ => trivial) fun _ => trivial
      exact hsearch.bind (fun _ _ _ => Prog.minds_pure trivial) fun _ _ _ => trivial
    | call operation arguments =>
      exact (callTool_minds operation arguments hfresh).bind (fun _ _ _ => Prog.minds_pure trivial)
        fun _ _ _ => trivial
    | other name => exact Prog.minds_pure trivial
  · intro _
    trivial

omit [ActionRuntime] in
theorem verifyProposal_ok [ActionRuntime] {action : ActionRow} {now : Instant} {proposal : Dict}
    (h : verifyProposal action now = .ok proposal) :
    Dict.get action.evidence "proposal" = some (.obj proposal) ∧
      ∃ arguments, Dict.get proposal "arguments" = some (.obj arguments) := by
  simp only [verifyProposal] at h
  split at h
  · next p hp =>
    split at h
    · next _ arguments _ _ _ _ _ ha _ _ _ _ =>
      split at h
      · cases h
      · split at h
        · cases h
        · split at h
          · cases h
          · split at h
            · cases h
            · obtain rfl := Except.ok.inj h
              exact ⟨hp,arguments,ha⟩
    · cases h
  · cases h

theorem dispatchApproved_minds {action : ActionRow} {arguments : Dict} {transcript : Option ℕ}
    (hidle : Idle said) (hbegun : Begun said actionId)
    (hexecutor : ∀ (d : OperationDescriptor) (enabled : List String) (said' : Said)
      (mode : AuthorityMode), rt.descriptor action.operation = some d →
      d.capabilityId ∈ enabled → LastPolicy said' enabled → Since Request.quiet said said' →
      Resolved rt said' action.operation arguments d mode → mode ≠ .forbidden →
      DecisionOrder rt actionId said' (.executor action.operation arguments)) :
    (dispatchApproved rt actionId action arguments transcript).Minds
      (DecisionOrder rt actionId) (fun _ _ => True) said := by
  refine (call_minds decisionOrder_quiet quietSink_none true none said ?_).attempt.bind ?_ ?_
  · intro d enabled said' mode hd henabled hpolicy hsince _ hmode hauto
    rcases hmode with hm | ⟨_,hres⟩
    · cases hm
    · apply hexecutor d enabled said' mode hd henabled hpolicy hsince hres
      rcases hauto with rfl | ⟨rfl,_⟩ <;> simp
  · rintro said₁ outcome ⟨x,hx,hcalled⟩
    obtain rfl := Except.ok.inj hx
    have hunreported : ¬Reported said₁ := by
      refine fun hr => hidle.2 (hr.of_since hcalled.since ?_)
      rintro q (⟨r,i,x,rfl⟩ | ⟨i,x,rfl⟩)
      · rfl
      · rfl
    have hdoubt : ∀ result, outcome = .ok result → Ambiguous said₁ →
        actionStatusForResult result = .uncertain := by
      rintro result rfl ha
      rcases hcalled.doubt ha with hold | ⟨y,hy,hd,_⟩
      · exact absurd hold.invoked hidle.1
      · obtain rfl := Except.ok.inj hy
        exact hd
    have hbegun₁ := hbegun.since hcalled.since
    have hstatus : Ambiguous said₁ →
        actionStatusForResult (approvedResult action.operation outcome) = .uncertain := by
      intro ha
      cases outcome with
      | ok x => exact hdoubt x rfl ha
      | error e =>
        simp [actionStatusForResult,approvedResult,refused,failurePhase,Json.textAt,Dict.get]
    cases transcript with
    | some id => exact ⟨⟨hbegun₁,hunreported,hstatus⟩,fun _ => trivial⟩
    | none =>
      exact minds_put ⟨hbegun₁,hunreported,hstatus⟩ (fun _ => Prog.minds_pure trivial)
        fun _ => trivial
  · intro _ _ _
    trivial

omit [ActionRuntime] in
theorem descriptorCurrent_minds {ok : Said → Request → Prop}
    (hquiet : ∀ (said : Said) (q : Request), q.quiet = true → ok said q)
    (d : OperationDescriptor) (said : Said) : (descriptorCurrent d).Minds ok
      (fun said' _ => Since Request.quiet said said') said := by
  apply minds_put (hquiet _ _ rfl)
  · intro enabled
    apply Prog.minds_ite
    · exact fun _ => Prog.minds_pure (Since.refl.tail rfl)
    · intro _
      exact minds_put (hquiet _ _ rfl)
        (fun _ => Prog.minds_pure ((Since.refl.tail rfl).tail rfl))
        fun _ => (Since.refl.tail rfl).tail rfl
  · intro e
    exact Since.refl.tail rfl

theorem approveAction_minds {action : ActionRow} {reviewed : String} (hfresh : Unbegun said)
    (haction : ⟨.action actionId,.ok (some action)⟩ ∈ said) :
    (approveAction rt actionId action reviewed).Minds (DecisionOrder rt actionId)
      (fun _ _ => True) said := by
  apply minds_put trivial
  · intro now
    have hnow : Since Request.quiet said (said ++ [⟨.now,.ok now⟩]) := Since.refl.tail rfl
    cases hverify : verifyProposal action now with
    | error e => trivial
    | ok proposal =>
      obtain ⟨_,arguments,harguments⟩ := verifyProposal_ok hverify
      simp only [harguments]
      cases hd : rt.descriptor action.operation with
      | none => trivial
      | some d =>
        apply (descriptorCurrent_minds decisionOrder_quiet d _).bind
        · intro said₁ current hsince₁
          apply Prog.minds_ite
          · exact fun _ => trivial
          · intro _
            cases hvalid : rt.validateArguments action.operation arguments with
            | error e => trivial
            | ok problem =>
              cases problem with
              | some problem => trivial
              | none =>
                apply minds_put trivial
                · intro run
                  have hsince₂ : Since Request.quiet said
                      (said₁ ++ [⟨.run action.runId,.ok run⟩]) := (hnow.trans hsince₁).tail rfl
                  have hfresh₂ := hfresh.quietly hsince₂
                  apply minds_put ⟨rfl,hfresh₂.begun⟩
                  · intro p
                    apply dispatchApproved_minds (hfresh₂.idle.since (Since.refl.tail rfl))
                    · exact Or.inr ⟨some reviewed,p,by simp⟩
                    · intro d' enabled said₃ mode hd' henabled hpolicy hsince₃ hres hmode
                      have hlast : ⟨.action actionId,.ok (some action)⟩ ∈ said₃ :=
                        hsince₃.mem (List.mem_append_left _ (hsince₂.mem haction))
                      refine ⟨(hfresh₂.idle.since (Since.refl.tail rfl)).since hsince₃.idle,
                        ⟨d',enabled,mode,hd',hpolicy,henabled,hres,hmode⟩,action,now,proposal,
                        reviewed,p,hlast,hverify,rfl,harguments,hsince₃.mem (by simp)⟩
                  · intro _
                    trivial
                · intro _
                  trivial
        · intro _ _ _
          trivial
  · intro _
    trivial

/-- The decision on a proposal keeps its order whatever it is answered. -/
theorem decideAction_minds (approve : Bool) (reviewed : Option String) :
    (decideAction rt actionId approve reviewed).Minds (DecisionOrder rt actionId)
      (fun _ _ => True) [] := by
  apply minds_put trivial
  · intro found
    cases found with
    | none => trivial
    | some action =>
      apply Prog.minds_ite
      · exact fun _ => trivial
      · intro _
        apply Prog.minds_ite
        · exact fun _ => minds_put trivial (fun _ => Prog.minds_pure trivial) fun _ => trivial
        · intro _
          cases reviewed.bind orNone with
          | none => trivial
          | some hash =>
            exact approveAction_minds (unbegun_of_quiet (Since.refl.tail rfl)) (by simp)
  · intro _
    trivial

/-- What a job may ask after what was said. -/
def JobOrder (rt : CapabilityRuntime) : Job → Said → Request → Prop
  | .tool runId transcriptId _ => HandlerOrder rt runId transcriptId
  | .decide actionId _ _ => DecisionOrder rt actionId

theorem program_minds (rt : CapabilityRuntime) (job : Job) :
    (program rt job).Minds (JobOrder rt job) (fun _ _ => True) [] := by
  cases job with
  | tool runId transcriptId tool =>
    exact (toolHandler_minds tool).bind (fun _ _ _ => Prog.minds_pure trivial) fun _ _ _ => trivial
  | decide actionId approve reviewed =>
    exact (decideAction_minds approve reviewed).bind (fun _ _ _ => Prog.minds_pure trivial)
      fun _ _ _ => trivial

end Capabilities
end Atlas
