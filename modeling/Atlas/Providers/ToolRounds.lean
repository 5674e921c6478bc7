import Atlas.Providers.ToolLoopRuns

/-! The rounds of a tool loop: what every request of it holds, and how its calls are metered. -/
namespace Atlas
namespace ToolLoop

open JsonText Evidence Guards Conversation

section

variable {F : Type} [ProviderRuntime F]

def callIds (r : Round F) : List String := r.calls.map fun call => call.1.callId

/-- Whether the wordings that are taken out of items leave calls and outputs what they are, and the
calls distinct. -/
def Event.Kept : Event F → Prop
  | .redact contents kept redacted => KeepsKinds F contents ∧
      (ids callKind kept ++ (ids callKind redacted).map (wordAt F contents)).Nodup
  | _ => True

instance (contents : List String) : Decidable (KeepsKinds F contents) :=
  inferInstanceAs (Decidable (_ ∧ _))

section

variable (ctx : LoopContext F) (messages : List Message)

/-- What a request holds: paired calls, no more tokens than the budget, the task and the protected
messages, and every round so far. -/
def Event.WellFormed (rounds : List (Round F)) : Event F → Prop
  | .request checkpoint base groups _ sent =>
      Paired (flatten base groups) ∧
      countInputTokens ctx.count (flatten base groups) sent ≤ ctx.settings.tokenBudget ∧
      (checkpoint.map messageItem).toList <+: base ∧
      (∃ front shown, base = front ++ shown ∧
        List.Forall₂ RedactedFrom (protectedItems ctx.readsCheckpoint messages) shown) ∧
      List.Forall₂ Represents (rounds.take groups.length) groups
  | _ => True

/-- The finished rounds of a loop. -/
structure Recalls (done : List (Round F)) (groups : List (Group F))
    (suppressedContents : List String) : Prop where
  whole : Whole groups
  represents : List.Forall₂ Represents done groups
  original : suppressedContents = [] → ∀ id ∈ groupIds groups, id ∈ done.flatMap callIds

end

theorem redactGroups_eq (groups : List (Group F)) (contents : List String) :
    redactGroups groups contents = groups.map (redactGroup · (guardedContents contents)) := by
  rw [redactGroups]
  split_ifs with h
  · have hsame : ∀ group : Group F, redactGroup group (guardedContents contents) = group := by
      intro group
      rw [redactGroup,if_pos (by rw [h,guardedContents_nil])]
    exact (List.map_id'' hsame groups).symm
  · rfl

theorem groupIds_redacted {contents : List String}
    (hkept : KeepsKinds F (guardedContents (guardedContents contents))) (groups : List (Group F)) :
    groupIds (groups.map (redactGroup · contents)) =
      (ids callKind (groups.flatMap Group.items)).map
        (wordAt F (guardedContents (guardedContents contents))) := by
  induction groups with
  | nil => rfl
  | cons group groups ih =>
    rw [groupIds] at ih
    rw [groupIds,List.map_cons,List.flatMap_cons,ih,List.flatMap_cons,ids_append,List.map_append,
      redactGroup_items,ids_redactItem (by decide) hkept.1]

/-- A redaction of the finished rounds that leaves calls what they are. -/
theorem Recalls.redact {done : List (Round F)} {groups : List (Group F)}
    {before contents : List String} (h : Recalls done groups before)
    (hkept : Event.Kept (F := F) (.redact (guardedContents (guardedContents
      (guardedContents contents))) [] (groups.flatMap Group.items))) (hne : contents ≠ []) :
    Recalls done (redactGroups groups contents) contents := by
  obtain ⟨hkinds,hnodup⟩ := hkept
  rw [redactGroups_eq]
  refine ⟨⟨?_,?_,?_⟩,?_,fun hnil => absurd hnil hne⟩
  · intro group hmem
    obtain ⟨source,hsource,rfl⟩ := List.mem_map.mp hmem
    rw [redactGroup_items]
    exact (h.whole.blocks source hsource).redact hkinds
  · intro group hmem
    obtain ⟨source,hsource,rfl⟩ := List.mem_map.mp hmem
    rw [redactGroup_items]
    exact (h.whole.unmixed source hsource).redact hkinds
  · rw [groupIds_redacted hkinds]
    exact hnodup
  · rw [List.forall₂_map_right_iff]
    exact h.represents.imp fun r group hrepresents => hrepresents.redact hkinds

/-- A loop within a round whose calls were answered up to one. -/
structure CallState.Sound (ctx : LoopContext F) (messages : List Message) (done : List (Round F))
    (answered : List String) (st : CallState F) : Prop where
  base : Protects ctx.readsCheckpoint messages st.loop.base
  recalls : Recalls done st.loop.rounds st.loop.suppressedContents
  calls : ids callKind st.items = []
  outputs : ids outputKind st.items = answered
  unmixed : Unmixed st.items

theorem contextSuppressionContents_guarded (result : Fields F) :
    ∃ values, contextSuppressionContents result = guardedContents values := by
  rw [contextSuppressionContents]
  split
  · split
    · exact ⟨_,rfl⟩
    · exact ⟨[],guardedContents_nil.symm⟩
  · exact ⟨[],guardedContents_nil.symm⟩

/-- Wordings that are suppressed stay suppressed. -/
theorem suppressed_ne_nil {result : Fields F} (before : List String)
    (h : contextSuppressionContents result ≠ []) :
    guardedContents (before ++ contextSuppressionContents result) ≠ [] := by
  obtain ⟨values,hvalues⟩ := contextSuppressionContents_guarded result
  obtain ⟨content,hcontent⟩ := List.exists_mem_of_ne_nil _ h
  rw [hvalues] at hcontent
  have hmem := mem_guardedContents_self hcontent
    (List.mem_append_right before (hvalues ▸ hcontent))
  exact List.ne_nil_of_mem hmem

theorem suppress_sound {ctx : LoopContext F} {messages : List Message} {done : List (Round F)}
    {result : Fields F} {s : LoopState F} (hbase : Protects ctx.readsCheckpoint messages s.base)
    (hrecalls : Recalls done s.rounds s.suppressedContents)
    (hkept : ∀ e ∈ (suppress s (contextSuppressionContents result)).1, e.Kept) :
    let t := (suppress s (contextSuppressionContents result)).2
    Protects ctx.readsCheckpoint messages t.base ∧
      Recalls done t.rounds t.suppressedContents ∧ t.budget = s.budget := by
  let := TextRuntime.toPyRuntime F
  by_cases h : contextSuppressionContents result = []
  · rw [suppress,if_pos h]
    exact ⟨hbase,hrecalls,rfl⟩
  · rw [suppress,if_neg h] at hkept ⊢
    refine ⟨?_,hrecalls.redact (hkept _ List.mem_cons_self) (suppressed_ne_nil _ h),rfl⟩
    dsimp only
    rw [redactGuardedList_eq]
    exact hbase.redact _

theorem resourceInput_parts {resource : Fields F} {item : Value F}
    (h : resourceInput resource = some item) : ∃ parts, item = partsItem parts := by
  rw [resourceInput] at h
  split at h
  · split_ifs at h
    · exact ⟨_,(Option.some.inj h).symm⟩
    all_goals split at h <;> exact ⟨_,(Option.some.inj h).symm⟩
  · cases h

theorem ids_resource (kind : String) (resource : Option (Fields F)) :
    ids kind (resource.bind resourceInput).toList = [] := by
  refine List.filterMap_eq_nil_iff.mpr fun item hitem => ?_
  obtain ⟨source,_,hitem⟩ := Option.bind_eq_some_iff.mp (Option.mem_toList.mp hitem)
  obtain ⟨parts,rfl⟩ := resourceInput_parts hitem
  rfl

omit [ProviderRuntime F] in
theorem unmixed_of_ids {items : List (Value F)} (hcall : ids callKind items = [])
    (houtput : ids outputKind items = []) : Unmixed items :=
  fun item hitem _ => ⟨List.filterMap_eq_nil_iff.mp hcall item hitem,
    List.filterMap_eq_nil_iff.mp houtput item hitem⟩

omit [ProviderRuntime F] in
theorem unmixed_append {items items' : List (Value F)} (h : Unmixed items) (h' : Unmixed items') :
    Unmixed (items ++ items') := by
  intro item hitem
  rcases List.mem_append.mp hitem with hmem | hmem
  · exact h item hmem
  · exact h' item hmem

theorem idFor_outputItem (c : FunctionCall F) (shown : Value F) :
    idFor outputKind (outputItem c shown) = some c.callId ∧
      idFor callKind (outputItem c shown) = none ∧ fieldOf (outputItem c shown) "role" = none := by
  simp [idFor,textAt,outputItem,fieldOf,fieldAt,outputKind,callKind]

/-- What one call puts behind the answer. -/
theorem ids_result (c : FunctionCall F) (shown : Value F) (resource : Option (Fields F)) :
    ids callKind (outputItem c shown :: (resource.bind resourceInput).toList) = [] ∧
    ids outputKind (outputItem c shown :: (resource.bind resourceInput).toList) = [c.callId] ∧
    Unmixed (outputItem c shown :: (resource.bind resourceInput).toList) := by
  obtain ⟨houtput,hcall,hrole⟩ := idFor_outputItem c shown
  have hresource := fun kind => ids_resource kind resource
  refine ⟨?_,?_,?_⟩
  · rw [ids,List.filterMap_cons_none hcall]
    exact hresource callKind
  · rw [ids,List.filterMap_cons_some houtput]
    exact congrArg _ (hresource outputKind)
  · intro item hitem hsome
    rcases List.mem_cons.mp hitem with rfl | hmem
    · rw [hrole] at hsome
      cases hsome
    · exact unmixed_of_ids (hresource callKind) (hresource outputKind) item hmem hsome

/-- What a call that is answered does to a loop. -/
theorem callStep_some {st st' : CallState F} {c : FunctionCall F} {result : Option (Fields F)}
    {events : List (Event F)} (h : callStep st c result = (events,some st')) :
    ∃ answers found budget shown, ∃ resource : Option (Fields F),
      answerCall st.loop.budget c result = (answers,some (found,budget)) ∧
      events = answers ++
        (suppress {st.loop with budget := budget} (contextSuppressionContents found)).1 ∧
      st'.loop = (suppress {st.loop with budget := budget} (contextSuppressionContents found)).2 ∧
      st'.items = st.items ++ outputItem c shown :: (resource.bind resourceInput).toList := by
  rw [callStep] at h
  split at h
  · cases h
  · next answers found budget hanswer =>
    cases h
    exact ⟨answers,found,budget,_,_,hanswer,rfl,rfl,rfl⟩

theorem CallState.Sound.step {ctx : LoopContext F} {messages : List Message}
    {done : List (Round F)} {answered : List String} {st st' : CallState F} {c : FunctionCall F}
    {result : Option (Fields F)} {events : List (Event F)} (h : st.Sound ctx messages done answered)
    (hstep : callStep st c result = (events,some st')) (hkept : ∀ e ∈ events, e.Kept) :
    st'.Sound ctx messages done (answered ++ [c.callId]) := by
  obtain ⟨answers,found,budget,shown,resource,_,rfl,hloop,hitems⟩ := callStep_some hstep
  obtain ⟨hbase,hrecalls,_⟩ := suppress_sound (s := {st.loop with budget := budget}) h.base
    h.recalls fun e he => hkept e (List.mem_append_right answers he)
  obtain ⟨hcall,houtput,hunmixed⟩ := ids_result c shown resource
  rw [← hloop] at hbase hrecalls
  refine ⟨hbase,hrecalls,?_,?_,?_⟩
  · rw [hitems,ids_append,h.calls,hcall]
    rfl
  · rw [hitems,ids_append,h.outputs,houtput]
  · rw [hitems]
    exact unmixed_append h.unmixed hunmixed

theorem CallState.Sound.steps {ctx : LoopContext F} {messages : List Message}
    {done : List (Round F)} (calls : List (FunctionCall F × Option (Fields F)))
    {answered : List String} {st st' : CallState F} (h : st.Sound ctx messages done answered)
    (hsteps : (callSteps calls st).2 = some st') (hkept : ∀ e ∈ (callSteps calls st).1, e.Kept) :
    st'.Sound ctx messages done (answered ++ calls.map fun call => call.1.callId) := by
  induction calls generalizing st answered with
  | nil =>
    cases hsteps
    rw [List.map_nil,List.append_nil]
    exact h
  | cons call calls ih =>
    obtain ⟨c,result⟩ := call
    cases hstep : callStep st c result with
    | mk events next =>
      cases next with
      | none => simp [callSteps,hstep] at hsteps
      | some next =>
        simp only [callSteps,hstep] at hsteps hkept
        have hnext := h.step hstep fun e he => hkept e (List.mem_append_left _ he)
        have hlast := ih hnext hsteps fun e he => hkept e (List.mem_append_right events he)
        rw [List.append_assoc] at hlast
        exact hlast

omit [ProviderRuntime F] in
theorem idFor_call (c : FunctionCall F) (result : Option (Fields F)) :
    idFor callKind (OutputItem.call c result).dump = some c.callId ∧
      idFor outputKind (OutputItem.call c result).dump = none ∧
      fieldOf (OutputItem.call c result).dump "role" = none := by
  have hextra : c.extra.find? (fun p => p.1 == "role") = none :=
    List.find?_eq_none.mpr fun p hp => by simpa using c.extra_role p hp
  simp [idFor,textAt,OutputItem.dump,FunctionCall.dump,fieldOf,fieldAt,callKind,outputKind,hextra]

omit [ProviderRuntime F] in
theorem idFor_other (item : OtherItem F) :
    idFor callKind (OutputItem.other item).dump = none ∧
      idFor outputKind (OutputItem.other item).dump = none := by
  simp [idFor,textAt,OutputItem.dump,fieldOf,fieldAt,callKind,outputKind,item.kind_call,
    item.kind_output]

omit [ProviderRuntime F] in
/-- The answer of a round holds its calls and no outputs. -/
theorem ids_answer (output : List (OutputItem F)) :
    ids callKind (output.map OutputItem.dump) =
      (output.filterMap fun item => match item with
        | .call c result => some (c,result)
        | .other _ => none).map (fun call : FunctionCall F × Option (Fields F) => call.1.callId) ∧
    ids outputKind (output.map OutputItem.dump) = [] ∧
    Unmixed (output.map OutputItem.dump) := by
  induction output with
  | nil => exact ⟨rfl,rfl,fun item hitem => absurd hitem List.not_mem_nil⟩
  | cons item output ih =>
    obtain ⟨hcalls,houtputs,hunmixed⟩ := ih
    rw [ids] at hcalls houtputs
    cases item with
    | call c result =>
      obtain ⟨hcall,houtput,hrole⟩ := idFor_call c result
      refine ⟨?_,?_,fun item hitem hsome => ?_⟩
      · rw [ids,List.map_cons,List.filterMap_cons_some hcall,hcalls]
        rfl
      · rw [ids,List.map_cons,List.filterMap_cons_none houtput,houtputs]
      · rcases List.mem_cons.mp hitem with rfl | hmem
        · rw [hrole] at hsome
          cases hsome
        · exact hunmixed item hmem hsome
    | other other =>
      obtain ⟨hcall,houtput⟩ := idFor_other other
      refine ⟨?_,?_,fun item hitem hsome => ?_⟩
      · rw [ids,List.map_cons,List.filterMap_cons_none hcall,hcalls]
        rfl
      · rw [ids,List.map_cons,List.filterMap_cons_none houtput,houtputs]
      · rcases List.mem_cons.mp hitem with rfl | hmem
        · exact ⟨hcall,houtput⟩
        · exact hunmixed item hmem hsome

omit [ProviderRuntime F] in
theorem groupIds_append (groups : List (Group F)) (group : Group F) :
    groupIds (groups ++ [group]) = groupIds groups ++ ids callKind group.items := by
  simp [groupIds]

omit [ProviderRuntime F] in
theorem groupIds_items (groups : List (Group F)) :
    groupIds groups = ids callKind (groups.flatMap Group.items) := by
  induction groups with
  | nil => rfl
  | cons group groups ih =>
    rw [groupIds] at ih
    rw [groupIds,List.flatMap_cons,List.flatMap_cons,ids_append,ih]

omit [ProviderRuntime F] in
/-- A further group whose calls are answered and are no calls of the groups before it. -/
theorem Recalls.push {done : List (Round F)} {groups : List (Group F)} {contents : List String}
    {r : Round F} {group : Group F} (h : Recalls done groups contents) (hblock : Block group.items)
    (hunmixed : Unmixed group.items) (hrepresents : Represents r group)
    (hdistinct : (groupIds groups ++ ids callKind group.items).Nodup)
    (horiginal : contents = [] → ids callKind group.items = callIds r) :
    Recalls (done ++ [r]) (groups ++ [group]) contents := by
  refine ⟨⟨?_,?_,?_⟩,?_,?_⟩
  · intro other hmem
    rcases List.mem_append.mp hmem with hmem | hmem
    · exact h.whole.blocks other hmem
    · rw [List.mem_singleton.mp hmem]
      exact hblock
  · intro other hmem
    rcases List.mem_append.mp hmem with hmem | hmem
    · exact h.whole.unmixed other hmem
    · rw [List.mem_singleton.mp hmem]
      exact hunmixed
  · rw [groupIds_append]
    exact hdistinct
  · exact List.rel_append h.represents (.cons hrepresents .nil)
  · intro hnil id hid
    rw [groupIds_append] at hid
    rw [List.flatMap_append]
    rcases List.mem_append.mp hid with hmem | hmem
    · exact List.mem_append_left _ (h.original hnil id hmem)
    · rw [horiginal hnil] at hmem
      exact List.mem_append_right _ (by simpa using hmem)

theorem CallState.Sound.finish {ctx : LoopContext F} {messages : List Message}
    {done : List (Round F)} {r : Round F} {st : CallState F}
    (h : st.Sound ctx messages done (callIds r))
    (hdistinct : ((done ++ [r]).flatMap callIds).Nodup)
    (hkept : ∀ e ∈ (finishRound st r.output).1, e.Kept) :
    Protects ctx.readsCheckpoint messages (finishRound st r.output).2.base ∧
      Recalls (done ++ [r]) (finishRound st r.output).2.rounds
        (finishRound st r.output).2.suppressedContents := by
  obtain ⟨hcalls,houtputs,hanswer⟩ := ids_answer r.output
  have hids : ids callKind (r.output.map OutputItem.dump) = callIds r := hcalls
  have hgroup : ids callKind (r.output.map OutputItem.dump ++ st.items) = callIds r := by
    rw [ids_append,hids,h.calls,List.append_nil]
  have hblock : Block (r.output.map OutputItem.dump ++ st.items) :=
    ⟨_,_,rfl,houtputs,h.calls,h.outputs.trans hids.symm⟩
  have hunmixed := unmixed_append hanswer h.unmixed
  rw [List.flatMap_append,List.flatMap_singleton,List.nodup_append'] at hdistinct
  by_cases hnil : st.loop.suppressedContents = []
  · rw [finishRound,if_pos hnil]
    refine ⟨h.base,h.recalls.push hblock hunmixed (.inr ?_) ?_ fun _ => hgroup⟩
    · rw [hgroup,callIds,List.length_map]
    · rw [hgroup]
      refine List.nodup_append'.mpr ⟨h.recalls.whole.distinct,hdistinct.2.1,fun id hid => ?_⟩
      exact hdistinct.2.2 (h.recalls.original hnil id hid)
  · rw [finishRound,if_neg hnil] at hkept ⊢
    obtain ⟨hkinds,hnodup⟩ := hkept _ List.mem_cons_self
    have hitems := redactGroup_items
      (⟨r.output.map OutputItem.dump ++ st.items,st.evidenceIds⟩ : Group F)
      st.loop.suppressedContents
    have hrepresents : Represents r
        ⟨r.output.map OutputItem.dump ++ st.items,st.evidenceIds⟩ :=
      .inr (by rw [hgroup,callIds,List.length_map])
    refine ⟨h.base,h.recalls.push ?_ ?_ (hrepresents.redact hkinds) ?_ fun h => absurd h hnil⟩
    · rw [hitems]
      exact hblock.redact hkinds
    · rw [hitems]
      exact hunmixed.redact hkinds
    · rw [hitems,ids_redactItem (by decide) hkinds.1,groupIds_items]
      exact hnodup

/-! Events that are no requests. -/

def Event.Quiet : Event F → Prop
  | .request _ _ _ _ _ => False
  | _ => True

theorem Event.Quiet.wellFormed {ctx : LoopContext F} {messages : List Message}
    {rounds : List (Round F)} {e : Event F} (h : e.Quiet) : e.WellFormed ctx messages rounds := by
  cases e with
  | request => exact h.elim
  | _ => trivial

/-- What answering a call can do: nothing that is metered, or one dispatch that is not refused. -/
theorem answerCall_cases (b : CapabilityBudget) (c : FunctionCall F) (result : Option (Fields F)) :
    (answerCall b c result).1 = [] ∧ (∀ found b', (answerCall b c result).2 = some (found,b') →
      b' = b ∨ b' = rememberSearch b found) ∨
    ∃ operationId, b.refusal operationId = none ∧ answerCall b c result =
      ([.dispatch b operationId],result.map fun r => (r,b.recordDispatch)) := by
  rw [answerCall]
  dsimp only
  generalize (parse (F := F) (if c.arguments = "" then "\x7b\x7d".toList else c.arguments.toList)).getD
    (Value.obj []) = arguments
  by_cases hname : c.name = capabilityCall
  · rw [if_pos hname]
    cases arguments with
    | obj arguments =>
      cases hrefusal : b.refusal (textOr (fieldAt arguments "operation_id")) with
      | none => exact .inr ⟨_,hrefusal,by simp only [hrefusal]⟩
      | some reason =>
        simp only [hrefusal]
        refine .inl ⟨trivial,fun found b' h => .inl ?_⟩
        cases h
        rfl
    | _ => exact .inl ⟨rfl,fun found b' h => by cases h⟩
  · rw [if_neg hname]
    refine .inl ⟨rfl,fun found b' h => ?_⟩
    obtain ⟨r,_,hr⟩ := Option.map_eq_some_iff.mp h
    cases hr
    by_cases hsearch : c.name = capabilitySearch
    · exact .inr (if_pos hsearch)
    · exact .inl (if_neg hsearch)

theorem quiet_answerCall (b : CapabilityBudget) (c : FunctionCall F) (result : Option (Fields F)) :
    ∀ e ∈ (answerCall b c result).1, e.Quiet := by
  rcases answerCall_cases b c result with ⟨hnone,_⟩ | ⟨operationId,_,hdispatch⟩
  · rw [hnone]
    exact fun e he => absurd he List.not_mem_nil
  · rw [hdispatch]
    exact fun e he => List.mem_singleton.mp he ▸ trivial

theorem quiet_suppress (st : LoopState F) (contents : List String) :
    ∀ e ∈ (suppress st contents).1, e.Quiet := by
  rw [suppress]
  split_ifs
  · simp
  · simp [Event.Quiet]

theorem quiet_callStep (st : CallState F) (c : FunctionCall F) (result : Option (Fields F)) :
    ∀ e ∈ (callStep st c result).1, e.Quiet := by
  have hanswer := quiet_answerCall st.loop.budget c result
  rw [callStep]
  split
  · next events heq =>
    rw [heq] at hanswer
    exact hanswer
  · next events found budget heq =>
    rw [heq] at hanswer
    intro e he
    rcases List.mem_append.mp he with hmem | hmem
    · exact hanswer e hmem
    · exact quiet_suppress _ _ e hmem

theorem quiet_callSteps (calls : List (FunctionCall F × Option (Fields F))) (st : CallState F) :
    ∀ e ∈ (callSteps calls st).1, e.Quiet := by
  induction calls generalizing st with
  | nil => simp [callSteps]
  | cons call calls ih =>
    have hstep := quiet_callStep st call.1 call.2
    cases h : callStep st call.1 call.2 with
    | mk events next =>
      rw [h] at hstep
      cases next with
      | none =>
        simp only [callSteps,h]
        exact hstep
      | some next =>
        simp only [callSteps,h]
        intro e he
        rcases List.mem_append.mp he with hmem | hmem
        · exact hstep e hmem
        · exact ih next e hmem

theorem quiet_finishRound (st : CallState F) (output : List (OutputItem F)) :
    ∀ e ∈ (finishRound st output).1, e.Quiet := by
  rw [finishRound]
  split_ifs
  · simp
  · simp [Event.Quiet]

/-- A loop between two rounds. -/
structure LoopState.Ready (ctx : LoopContext F) (messages : List Message) (done : List (Round F))
    (st : LoopState F) : Prop where
  base : Restores ctx.readsCheckpoint messages st.base
  recalls : Recalls done st.rounds st.suppressedContents

/-- Tokens are counted for no fewer tools than are sent. -/
def CountMonotone (count : List (Value F) → List Tool → ℕ) : Prop :=
  ∀ items tools tools', tools'.Sublist tools → count items tools' ≤ count items tools

/-- The request of a round. -/
def sentRequest (ctx : LoopContext F) (st : LoopState F) (r : Round F) (groups : List (Group F)) :
    Event F :=
  .request (if ctx.readsCheckpoint then r.checkpoint else none)
    (currentBase ctx.readsCheckpoint r.checkpoint st.base) groups (currentTools r.webCounted true)
    ((currentTools r.webCounted true).filter fun tool =>
      (currentTools r.webSent true).contains tool)

/-- A loop before the calls of a round. -/
def startedRound (ctx : LoopContext F) (st : LoopState F) (r : Round F)
    (groups : List (Group F)) : CallState F where
  loop := {st with
    base := currentBase ctx.readsCheckpoint r.checkpoint st.base, rounds := groups}
  evidenceIds := r.evidenceId.toList

/-- What a round can do. -/
theorem loopRound_cases (ctx : LoopContext F) (st : LoopState F) (r : Round F) :
    loopRound ctx st r = ([],none) ∨
    ∃ groups, fitLoopInput ctx.count ctx.settings.tokenBudget
        (currentBase ctx.readsCheckpoint r.checkpoint st.base) st.rounds
        (currentTools r.webCounted true) = some groups ∧
      (loopRound ctx st r = ([sentRequest ctx st r groups],none) ∨
        (callSteps r.calls (startedRound ctx st r groups)).2 = none ∧
          loopRound ctx st r = (sentRequest ctx st r groups ::
            (callSteps r.calls (startedRound ctx st r groups)).1,none) ∨
        ∃ last, (callSteps r.calls (startedRound ctx st r groups)).2 = some last ∧
          loopRound ctx st r = (sentRequest ctx st r groups ::
            ((callSteps r.calls (startedRound ctx st r groups)).1 ++
              (finishRound last r.output).1),some (finishRound last r.output).2)) := by
  rw [loopRound]
  dsimp only
  cases hfit : fitLoopInput ctx.count ctx.settings.tokenBudget
      (currentBase ctx.readsCheckpoint r.checkpoint st.base) st.rounds
      (currentTools r.webCounted true) with
  | none => exact .inl rfl
  | some groups =>
    refine .inr ⟨groups,rfl,?_⟩
    dsimp only
    by_cases hlast : (!r.completed || r.calls.isEmpty) = true
    · rw [if_pos hlast]
      exact .inl rfl
    · rw [if_neg hlast]
      cases hcalls : callSteps r.calls (startedRound ctx st r groups) with
      | mk events next =>
        rw [startedRound] at hcalls
        rw [hcalls]
        cases next with
        | none => exact .inr (.inl ⟨rfl,rfl⟩)
        | some last => exact .inr (.inr ⟨last,rfl,rfl⟩)

theorem LoopState.Ready.started {ctx : LoopContext F} {messages : List Message}
    {done : List (Round F)} {r : Round F} {st : LoopState F} {groups : List (Group F)}
    (h : st.Ready ctx messages done) (hreduced : List.Forall₂ Reduced st.rounds groups) :
    (startedRound ctx st r groups).Sound ctx messages done [] := by
  have hsub := groupIds_reduced hreduced h.recalls.whole.unmixed
  refine ⟨(h.base.current r.checkpoint).1,⟨h.recalls.whole.reduced hreduced,
    represents_reduced h.recalls.represents h.recalls.whole.unmixed hreduced,?_⟩,rfl,rfl,
    fun item hitem => absurd hitem List.not_mem_nil⟩
  exact fun hnil id hid => h.recalls.original hnil id (hsub.subset hid)

theorem LoopState.Ready.request {ctx : LoopContext F} {messages : List Message}
    {done later : List (Round F)} {r : Round F} {st : LoopState F} {groups : List (Group F)}
    (h : st.Ready ctx messages done) (hmono : CountMonotone ctx.count)
    (hfit : fitLoopInput ctx.count ctx.settings.tokenBudget
      (currentBase ctx.readsCheckpoint r.checkpoint st.base) st.rounds
      (currentTools r.webCounted true) = some groups) :
    (sentRequest ctx st r groups).WellFormed ctx messages (done ++ r :: later) := by
  obtain ⟨hreduced,hcount⟩ := fitLoopInput_spec hfit
  obtain ⟨hbase,hopens⟩ := h.base.current r.checkpoint
  have hstarted := h.started (r := r) hreduced
  have hwhole : Whole groups := hstarted.recalls.whole
  have hrepresents : List.Forall₂ Represents done groups := hstarted.recalls.represents
  have hlength : (done ++ r :: later).take groups.length = done := by
    rw [← hrepresents.length_eq]
    exact List.take_left
  refine ⟨paired_flatten (ids_texts hbase.texts) hwhole.blocks hwhole.distinct,?_,hopens,
    hbase.ends,by rw [hlength]; exact hrepresents⟩
  exact Nat.le_trans (hmono _ _ _ List.filter_sublist) hcount

/-- A round sends a well-formed request, and leaves a loop that recalls it. -/
theorem LoopState.Ready.round {ctx : LoopContext F} {messages : List Message}
    {done : List (Round F)} {r : Round F} {st : LoopState F} (later : List (Round F))
    (h : st.Ready ctx messages done) (hmono : CountMonotone ctx.count)
    (hdistinct : ((done ++ [r]).flatMap callIds).Nodup)
    (hkept : ∀ e ∈ (loopRound ctx st r).1, e.Kept) :
    (∀ e ∈ (loopRound ctx st r).1, e.WellFormed ctx messages (done ++ r :: later)) ∧
      ∀ st', (loopRound ctx st r).2 = some st' → st'.Ready ctx messages (done ++ [r]) := by
  rcases loopRound_cases ctx st r with hnone | ⟨groups,hfit,hcases⟩
  · rw [hnone]
    exact ⟨fun e he => absurd he List.not_mem_nil,fun st' h => by cases h⟩
  have hrequest : (sentRequest ctx st r groups).WellFormed ctx messages (done ++ r :: later) :=
    h.request hmono hfit
  have hstarted := h.started (r := r) (fitLoopInput_spec hfit).1
  have hquiet := quiet_callSteps r.calls (startedRound ctx st r groups)
  rcases hcases with hsingle | ⟨_,hraised⟩ | ⟨last,hlast,hfinished⟩
  · rw [hsingle]
    exact ⟨fun e he => List.mem_singleton.mp he ▸ hrequest,fun st' h => by cases h⟩
  · rw [hraised]
    refine ⟨fun e he => ?_,fun st' h => by cases h⟩
    rcases List.mem_cons.mp he with rfl | hmem
    · exact hrequest
    · exact (hquiet e hmem).wellFormed
  · rw [hfinished] at hkept ⊢
    have hsound := hstarted.steps r.calls hlast fun e he => hkept e
      (List.mem_cons_of_mem _ (List.mem_append_left _ he))
    rw [List.nil_append] at hsound
    have hfinish := CallState.Sound.finish hsound hdistinct fun e he => hkept e
      (List.mem_cons_of_mem _ (List.mem_append_right _ he))
    refine ⟨fun e he => ?_,fun st' h => ?_⟩
    · rcases List.mem_cons.mp he with rfl | hmem
      · exact hrequest
      · rcases List.mem_append.mp hmem with hmem | hmem
        · exact (hquiet e hmem).wellFormed
        · exact (quiet_finishRound last r.output e hmem).wellFormed
    · cases h
      exact ⟨hfinish.1.restores,hfinish.2⟩

theorem loopRounds_wellFormed {ctx : LoopContext F} {messages : List Message}
    (hmono : CountMonotone ctx.count) (n : ℕ) (rounds done : List (Round F)) (st : LoopState F)
    (h : st.Ready ctx messages done) (hdistinct : ((done ++ rounds).flatMap callIds).Nodup)
    (hkept : ∀ e ∈ loopRounds ctx n rounds st, e.Kept) :
    ∀ e ∈ loopRounds ctx n rounds st, e.WellFormed ctx messages (done ++ rounds) := by
  induction n generalizing rounds done st with
  | zero => exact fun e he => absurd he List.not_mem_nil
  | succ n ih =>
    cases rounds with
    | nil => exact fun e he => absurd he List.not_mem_nil
    | cons r rounds =>
      have hfirst : ((done ++ [r]).flatMap callIds).Nodup := by
        rw [List.append_cons,List.flatMap_append] at hdistinct
        exact (List.nodup_append'.mp hdistinct).1
      have hround := h.round rounds hmono hfirst
      rw [loopRounds] at hkept ⊢
      cases hstep : loopRound ctx st r with
      | mk events next =>
        rw [hstep] at hround hkept
        cases next with
        | none => exact (hround hkept).1
        | some next =>
          dsimp only at hkept ⊢
          obtain ⟨hevents,hnext⟩ := hround fun e he => hkept e (List.mem_append_left _ he)
          intro e he
          rcases List.mem_append.mp he with hmem | hmem
          · exact hevents e hmem
          · have hrest := ih rounds (done ++ [r]) next (hnext next rfl)
              (by rwa [← List.append_cons]) (fun e he => hkept e (List.mem_append_right _ he)) e hmem
            rwa [← List.append_cons] at hrest

/-! Metering. -/

/-- The dispatches among events, each with the budget before it. -/
def dispatches (events : List (Event F)) : List (CapabilityBudget × String) :=
  events.filterMap fun
    | .dispatch budget operationId => some (budget,operationId)
    | _ => none

/-- Dispatches that are counted one by one, none of them refused. -/
def Metered (limit reserve : ℕ) : ℕ → List (CapabilityBudget × String) → Prop
  | _,[] => True
  | n,(budget,operationId) :: rest =>
      (budget.limit = limit ∧ budget.reserve = reserve ∧ budget.dispatched = n ∧
        budget.refusal operationId = none) ∧ Metered limit reserve (n + 1) rest

/-- A budget after dispatches. -/
def Advanced (b b' : CapabilityBudget) (n : ℕ) : Prop :=
  b'.limit = b.limit ∧ b'.reserve = b.reserve ∧ b'.dispatched = b.dispatched + n

theorem Metered.append {limit reserve n : ℕ} {l l' : List (CapabilityBudget × String)}
    (h : Metered limit reserve n l) (h' : Metered limit reserve (n + l.length) l') :
    Metered limit reserve n (l ++ l') := by
  induction l generalizing n with
  | nil => exact h'
  | cons dispatch l ih =>
    rw [List.length_cons,show n + (l.length + 1) = n + 1 + l.length by omega] at h'
    exact ⟨h.1,ih h.2 h'⟩

theorem Metered.get {limit reserve n : ℕ} {l : List (CapabilityBudget × String)}
    (h : Metered limit reserve n l) (i : ℕ) (hi : i < l.length) :
    l[i].1.limit = limit ∧ l[i].1.reserve = reserve ∧ l[i].1.dispatched = n + i ∧
      l[i].1.refusal l[i].2 = none := by
  induction l generalizing n i with
  | nil => exact absurd hi (Nat.not_lt_zero i)
  | cons dispatch l ih =>
    cases i with
    | zero => exact h.1
    | succ i =>
      have hrest := ih h.2 i (Nat.lt_of_succ_lt_succ hi)
      rw [List.getElem_cons_succ]
      exact ⟨hrest.1,hrest.2.1,by omega,hrest.2.2.2⟩

/-- What is not refused is within the limit, and completes the task once the reserve is reached. -/
theorem refusal_none {b : CapabilityBudget} {operationId : String}
    (h : b.refusal operationId = none) :
    b.dispatched < b.limit ∧
      (b.limit - b.reserve ≤ b.dispatched → b.completionStep operationId = true) := by
  rw [CapabilityBudget.refusal] at h
  split_ifs at h with hlimit hreserve
  refine ⟨Nat.lt_of_not_le hlimit,fun hreached => ?_⟩
  by_contra hstep
  exact hreserve ⟨hreached,Bool.not_eq_true _ ▸ hstep⟩

theorem Metered.length {limit reserve : ℕ} {l : List (CapabilityBudget × String)}
    (h : Metered limit reserve 0 l) : l.length ≤ limit := by
  by_contra hlong
  have hlast := h.get limit (Nat.lt_of_not_le hlong)
  have hbelow := (refusal_none hlast.2.2.2).1
  omega

omit [ProviderRuntime F] in
theorem dispatches_append (events events' : List (Event F)) :
    dispatches (events ++ events') = dispatches events ++ dispatches events' :=
  List.filterMap_append

omit [ProviderRuntime F] in
theorem advanced_foldl {f : CapabilityBudget → Value F → CapabilityBudget}
    (hf : ∀ b item, Advanced b (f b item) 0) (items : List (Value F)) (b : CapabilityBudget) :
    Advanced b (items.foldl f b) 0 := by
  induction items generalizing b with
  | nil => exact ⟨rfl,rfl,rfl⟩
  | cons item items ih =>
    obtain ⟨hlimit,hreserve,hdispatched⟩ := hf b item
    obtain ⟨hlimit',hreserve',hdispatched'⟩ := ih (f b item)
    exact ⟨hlimit'.trans hlimit,hreserve'.trans hreserve,hdispatched'.trans hdispatched⟩

theorem advanced_remember (b : CapabilityBudget) (result : Fields F) :
    Advanced b (rememberSearch b result) 0 := by
  rw [rememberSearch]
  split
  · refine advanced_foldl (fun b item => ?_) _ b
    split
    · exact ⟨rfl,rfl,rfl⟩
    · exact ⟨rfl,rfl,rfl⟩
  · exact ⟨rfl,rfl,rfl⟩

theorem metered_answerCall (b : CapabilityBudget) (c : FunctionCall F)
    (result : Option (Fields F)) :
    Metered b.limit b.reserve b.dispatched (dispatches (answerCall b c result).1) ∧
      ∀ found b', (answerCall b c result).2 = some (found,b') →
        Advanced b b' (dispatches (answerCall b c result).1).length := by
  rcases answerCall_cases b c result with ⟨hnone,hnext⟩ | ⟨operationId,hrefusal,hdispatch⟩
  · rw [hnone]
    refine ⟨trivial,fun found b' h => ?_⟩
    rcases hnext found b' h with rfl | rfl
    · exact ⟨rfl,rfl,rfl⟩
    · exact advanced_remember b found
  · rw [hdispatch]
    refine ⟨⟨⟨rfl,rfl,rfl,hrefusal⟩,trivial⟩,fun found b' h => ?_⟩
    obtain ⟨r,_,hr⟩ := Option.map_eq_some_iff.mp h
    cases hr
    exact ⟨rfl,rfl,rfl⟩

theorem dispatches_suppress (st : LoopState F) (contents : List String) :
    dispatches (suppress st contents).1 = [] ∧ (suppress st contents).2.budget = st.budget := by
  rw [suppress]
  split_ifs <;> exact ⟨rfl,rfl⟩

theorem dispatches_finishRound (st : CallState F) (output : List (OutputItem F)) :
    dispatches (finishRound st output).1 = [] ∧
      (finishRound st output).2.budget = st.loop.budget := by
  rw [finishRound]
  split_ifs <;> exact ⟨rfl,rfl⟩

theorem metered_callStep (st : CallState F) (c : FunctionCall F) (result : Option (Fields F)) :
    Metered st.loop.budget.limit st.loop.budget.reserve st.loop.budget.dispatched
      (dispatches (callStep st c result).1) ∧
    ∀ st', (callStep st c result).2 = some st' →
      Advanced st.loop.budget st'.loop.budget (dispatches (callStep st c result).1).length := by
  obtain ⟨hmetered,hnext⟩ := metered_answerCall st.loop.budget c result
  rw [callStep]
  split
  · next events heq =>
    rw [heq] at hmetered
    exact ⟨hmetered,fun st' h => by cases h⟩
  · next events found budget heq =>
    obtain ⟨hnone,hbudget⟩ := dispatches_suppress {st.loop with budget := budget}
      (contextSuppressionContents found)
    rw [heq] at hmetered hnext
    dsimp only at hmetered hnext ⊢
    rw [dispatches_append,hnone,List.append_nil]
    refine ⟨hmetered,fun st' h => ?_⟩
    cases h
    rw [hbudget]
    exact hnext found budget rfl

theorem Advanced.trans {b b' b'' : CapabilityBudget} {n n' : ℕ} (h : Advanced b b' n)
    (h' : Advanced b' b'' n') : Advanced b b'' (n + n') :=
  ⟨h'.1.trans h.1,h'.2.1.trans h.2.1,by rw [h'.2.2,h.2.2]; omega⟩

/-- Metered events after metered ones. -/
theorem Metered.advance {b b' : CapabilityBudget} {l l' : List (CapabilityBudget × String)}
    (h : Metered b.limit b.reserve b.dispatched l) (hb : Advanced b b' l.length)
    (h' : Metered b'.limit b'.reserve b'.dispatched l') :
    Metered b.limit b.reserve b.dispatched (l ++ l') := by
  rw [hb.1,hb.2.1,hb.2.2] at h'
  exact h.append h'

theorem metered_callSteps (calls : List (FunctionCall F × Option (Fields F))) (st : CallState F) :
    Metered st.loop.budget.limit st.loop.budget.reserve st.loop.budget.dispatched
      (dispatches (callSteps calls st).1) ∧
    ∀ st', (callSteps calls st).2 = some st' →
      Advanced st.loop.budget st'.loop.budget (dispatches (callSteps calls st).1).length := by
  induction calls generalizing st with
  | nil =>
    refine ⟨trivial,fun st' h => ?_⟩
    cases h
    exact ⟨rfl,rfl,rfl⟩
  | cons call calls ih =>
    have hstep := metered_callStep st call.1 call.2
    cases h : callStep st call.1 call.2 with
    | mk events next =>
      rw [h] at hstep
      cases next with
      | none =>
        simp only [callSteps,h]
        exact ⟨hstep.1,fun st' h => by cases h⟩
      | some next =>
        have hnext := hstep.2 next rfl
        obtain ⟨hrest,hlast⟩ := ih next
        simp only [callSteps,h,dispatches_append,List.length_append]
        exact ⟨hstep.1.advance hnext hrest,fun st' h => hnext.trans (hlast st' h)⟩

theorem metered_loopRound (ctx : LoopContext F) (st : LoopState F) (r : Round F) :
    Metered st.budget.limit st.budget.reserve st.budget.dispatched
      (dispatches (loopRound ctx st r).1) ∧
    ∀ st', (loopRound ctx st r).2 = some st' →
      Advanced st.budget st'.budget (dispatches (loopRound ctx st r).1).length := by
  rcases loopRound_cases ctx st r with hnone | ⟨groups,_,hcases⟩
  · rw [hnone]
    exact ⟨trivial,fun st' h => by cases h⟩
  have hcalls := metered_callSteps r.calls (startedRound ctx st r groups)
  have hsent : ∀ events : List (Event F),
      dispatches (sentRequest ctx st r groups :: events) = dispatches events := fun _ => rfl
  rcases hcases with hsingle | ⟨_,hraised⟩ | ⟨last,hlast,hfinished⟩
  · rw [hsingle]
    exact ⟨trivial,fun st' h => by cases h⟩
  · rw [hraised,hsent]
    exact ⟨hcalls.1,fun st' h => by cases h⟩
  · obtain ⟨hquiet,hbudget⟩ := dispatches_finishRound last r.output
    rw [hfinished,hsent,dispatches_append,hquiet,List.append_nil]
    refine ⟨hcalls.1,fun st' h => ?_⟩
    cases h
    rw [hbudget]
    exact hcalls.2 last hlast

theorem metered_loopRounds (ctx : LoopContext F) (n : ℕ) (rounds : List (Round F))
    (st : LoopState F) :
    Metered st.budget.limit st.budget.reserve st.budget.dispatched
      (dispatches (loopRounds ctx n rounds st)) := by
  induction n generalizing rounds st with
  | zero => trivial
  | succ n ih =>
    cases rounds with
    | nil => trivial
    | cons r rounds =>
      have hround := metered_loopRound ctx st r
      rw [loopRounds]
      cases hstep : loopRound ctx st r with
      | mk events next =>
        rw [hstep] at hround
        cases next with
        | none => exact hround.1
        | some next =>
          dsimp only
          rw [dispatches_append]
          exact hround.1.advance (hround.2 next rfl) (ih rounds next)

/-! A whole answer. -/

/-- The task is read anew only where tools may be called. -/
def LoopContext.reading (ctx : LoopContext F) (toolHandler : Bool) : LoopContext F :=
  {ctx with readsCheckpoint := ctx.readsCheckpoint && toolHandler}

theorem plainRequest_wellFormed {ctx : LoopContext F} {messages : List Message} {r : Round F}
    (rounds : List (Round F)) (hmono : CountMonotone ctx.count) :
    ∀ e ∈ plainRequest ctx messages r, e.WellFormed (ctx.reading false) messages rounds := by
  intro e he
  rw [plainRequest] at he
  cases hfit : fitLoopInput ctx.count ctx.settings.tokenBudget (messages.map messageItem)
      ([] : List (Group F)) (currentTools r.webCounted false) with
  | none =>
    rw [hfit] at he
    cases he
  | some groups =>
    rw [hfit] at he
    rw [List.mem_singleton.mp he]
    obtain ⟨hreduced,hcount⟩ := fitLoopInput_spec hfit
    cases hreduced
    have hreads : (ctx.reading false).readsCheckpoint = false := Bool.and_false _
    have hbase := (restores_start (F := F) false messages).current none
    refine ⟨paired_flatten (ids_texts hbase.1.texts) (by simp) List.nodup_nil,
      Nat.le_trans (hmono _ _ _ List.filter_sublist) hcount,List.nil_prefix,?_,.nil⟩
    rw [hreads]
    exact hbase.1.ends

theorem dispatches_plainRequest (ctx : LoopContext F) (messages : List Message) (r : Round F) :
    dispatches (plainRequest ctx messages r) = [] := by
  rw [plainRequest]
  split <;> rfl

/-- A loop before its first round. -/
def startState (ctx : LoopContext F) (messages : List Message) : LoopState F where
  base := messages.map messageItem
  budget := ⟨ctx.settings.callLimit,ctx.settings.reserve,0,[]⟩

theorem ready_start (ctx : LoopContext F) (messages : List Message) :
    (startState ctx messages).Ready ctx messages [] :=
  ⟨restores_start _ messages,whole_nil,.nil,fun _ _ hid => absurd hid List.not_mem_nil⟩

/-- In an answer whose redactions leave calls what they are, every request is well formed; the
dispatched calls are within the limit, and those of the reserve complete the task. -/
theorem tool_loop_requests (ctx : LoopContext F) (toolHandler : Bool) (messages : List Message)
    (rounds : List (Round F)) (hmono : CountMonotone ctx.count)
    (hdistinct : (rounds.flatMap callIds).Nodup)
    (hkept : ∀ e ∈ streamText ctx toolHandler messages rounds, e.Kept) :
    (∀ e ∈ streamText ctx toolHandler messages rounds,
      e.WellFormed (ctx.reading toolHandler) messages rounds) ∧
    (dispatches (streamText ctx toolHandler messages rounds)).length ≤ ctx.settings.callLimit ∧
    ∀ i (hi : i < (dispatches (streamText ctx toolHandler messages rounds)).length),
      ctx.settings.callLimit - ctx.settings.reserve ≤ i →
      (dispatches (streamText ctx toolHandler messages rounds))[i].1.completionStep
        (dispatches (streamText ctx toolHandler messages rounds))[i].2 = true := by
  have hmetered : Metered ctx.settings.callLimit ctx.settings.reserve 0
      (dispatches (streamText ctx toolHandler messages rounds)) := by
    cases toolHandler with
    | true => exact metered_loopRounds ctx _ rounds (startState ctx messages)
    | false =>
      have hnone : dispatches (streamText ctx false messages rounds) = [] := by
        cases rounds with
        | nil => rfl
        | cons r rounds =>
          have hplain := dispatches_plainRequest ctx messages r
          simpa [streamText] using hplain
      rw [hnone]
      trivial
  refine ⟨?_,hmetered.length,fun i hi hreserve => ?_⟩
  · cases toolHandler with
    | true =>
      have hsame : ctx.reading true = ctx := by simp [LoopContext.reading]
      rw [hsame]
      exact loopRounds_wellFormed hmono _ rounds [] _ (ready_start ctx messages) hdistinct hkept
    | false =>
      intro e he
      obtain ⟨r,_,hmem⟩ := List.mem_flatMap.mp he
      exact plainRequest_wellFormed rounds hmono e hmem
  · obtain ⟨hlimit,hkeep,hcount,hrefusal⟩ := hmetered.get i hi
    refine (refusal_none hrefusal).2 ?_
    omega

end

/-- A runtime to evaluate the model with, where no file is a text. -/
@[reducible] def plainProvider : ProviderRuntime Unit where
  toConversationRuntime := plainConversation
  decodeText _ := none

/-- A loop where items are counted. -/
def countedLoop : LoopContext Unit := ⟨{},fun items _ => items.length,true⟩

/-- A call that deletes a memory of the given content, and an answer without calls. -/
def deletionRounds (content : String) : List (Round Unit) := [
  {output := [.call {
      callId := "call_1"
      name := capabilityCall
      arguments := "\x7b\"operation_id\": \"memory.delete\"\x7d"
      extra_role := fun _ h => absurd h List.not_mem_nil}
    (some [("status",.str "succeeded"),("output",.obj [("_context_suppression",.obj [
      ("contents",.arr [.str content])])])])]},
  {}]

def forgetMessage : Message := ⟨.user,"Forget that I drink green tea"⟩

theorem countedLoop_monotone : CountMonotone countedLoop.count :=
  fun _ _ _ _ => Nat.le_refl _

/-- What is redacted among events: the wordings, and the calls of what is kept and redacted. -/
def redactions {F : Type} (events : List (Event F)) :
    List (List String × List String × List String) :=
  events.filterMap fun
    | .redact contents kept redacted => some (contents,ids callKind kept,ids callKind redacted)
    | _ => none

theorem kept_of_redactions {F : Type} [ProviderRuntime F] {events : List (Event F)}
    (h : ∀ p ∈ redactions events, KeepsKinds F p.1 ∧
      (p.2.1 ++ p.2.2.map (wordAt F p.1)).Nodup) : ∀ e ∈ events, e.Kept := by
  intro e he
  cases e with
  | redact contents kept redacted =>
    have hmem : (contents,ids callKind kept,ids callKind redacted) ∈ redactions events :=
      List.mem_filterMap.mpr ⟨.redact contents kept redacted,he,rfl⟩
    obtain ⟨hkinds,hdistinct⟩ := h _ hmem
    exact ⟨hkinds,hdistinct⟩
  | _ => trivial

theorem redactions_tea : letI := plainProvider
    redactions (streamText countedLoop true [forgetMessage] (deletionRounds "green tea")) =
      [(["green tea"],[],[]),(["green tea"],[],["call_1"])] := by
  decide +kernel

theorem tool_loop_requests_tea : letI := plainProvider
    (∀ e ∈ streamText countedLoop true [forgetMessage] (deletionRounds "green tea"),
      e.WellFormed (countedLoop.reading true) [forgetMessage] (deletionRounds "green tea")) ∧
    (dispatches (streamText countedLoop true [forgetMessage]
      (deletionRounds "green tea"))).length ≤ countedLoop.settings.callLimit := by
  let := plainProvider
  have hwords : letI := plainProvider
      ∀ p ∈ [(["green tea"],([] : List String),([] : List String)),
        (["green tea"],[],["call_1"])],
      KeepsKinds Unit p.1 ∧ (p.2.1 ++ p.2.2.map (wordAt Unit p.1)).Nodup := by
    clear this
    decide +kernel
  have h := tool_loop_requests countedLoop true [forgetMessage] (deletionRounds "green tea")
    countedLoop_monotone (by decide +kernel)
    (kept_of_redactions (by rw [redactions_tea]; exact hwords))
  exact ⟨h.1,h.2.1⟩

/-- The items of the requests among events. -/
def requests {F : Type} (events : List (Event F)) : List (List (Value F)) :=
  events.filterMap fun
    | .request _ base groups _ _ => some (flatten base groups)
    | _ => none

/-- A suppressed wording that is part of a name of the protocol leaves a call without its
output. -/
theorem output_renamed : letI := plainProvider
    CountMonotone countedLoop.count ∧
    ((deletionRounds "output").flatMap callIds).Nodup ∧
    ∃ items ∈ requests (streamText countedLoop true [forgetMessage] (deletionRounds "output")),
      ¬ Paired items := by
  let := plainProvider
  refine ⟨countedLoop_monotone,by decide +kernel,?_⟩
  have hunanswered : (requests (streamText countedLoop true [forgetMessage]
      (deletionRounds "output"))).any (fun items =>
        (ids callKind items).contains "call_1" && (ids outputKind items).isEmpty) = true := by
    decide +kernel
  obtain ⟨items,hitems,hids⟩ := List.any_eq_true.mp hunanswered
  obtain ⟨hcall,hnone⟩ := Bool.and_eq_true_iff.mp hids
  refine ⟨items,hitems,fun hpaired => ?_⟩
  have hanswered := hpaired.answered (List.contains_iff_mem.mp hcall)
  rw [List.isEmpty_iff.mp hnone] at hanswered
  exact absurd hanswered List.not_mem_nil

end ToolLoop
end Atlas
