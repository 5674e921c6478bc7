import Atlas.Memory.ReviewTokens

/-! Conflicts with a memory: at most one decision of the owner takes effect on each, on the state
the owner saw, and every other answer leaves the store as it is. -/
namespace Atlas
namespace Memory

open RowTable

/-- The operations that purge candidates. -/
def Op.purges : Op → Bool
  | .delete .. => true
  | _ => false

section

variable [PyRuntime] {w w' : State}

/-- What the transactions of an operation do to conflicts. -/
theorem Body.conflicts {loaded : Tables → Tables} {s s' : Tables} {op : Op}
    (h : Body loaded s op s') : (ConflictsFollow s.conflicts s'.conflicts ∧
      (op.purges = false → ConflictsStay s.conflicts s'.conflicts)) ∨
    ∃ arguments transcriptId operationId now changeType source r,
      op = .resolveObligation arguments transcriptId operationId now ∧
      s.resolveConflictMutate arguments changeType source now = .ok (s',r) := by
  have stay : ConflictsStay s.conflicts s'.conflicts → ConflictsFollow s.conflicts s'.conflicts ∧
      (op.purges = false → ConflictsStay s.conflicts s'.conflicts) := fun h => ⟨h.follow,fun _ => h⟩
  cases h with
  | resolveConflict h => exact Or.inr ⟨_,_,_,_,_,_,_,rfl,h⟩
  | delete h => exact Or.inl ⟨Tables.deleteMutate_conflicts h,nofun⟩
  | publish h => exact Or.inl (stay (Tables.publishAndSettle_conflicts h))
  | claimBatch => exact Or.inl (stay (s.claimBatch_conflicts _ _ _ _))
  | retire h => exact Or.inl (stay (.of_eq (Tables.retireMutate_conflicts h)))
  | restore h => exact Or.inl (stay (.of_eq (Tables.restoreMutate_conflicts h)))
  | deleteOwnerChat h =>
    exact Or.inl (stay (.of_eq (Tables.docket_conflicts (Tables.deleteOwnerChat_docket h))))
  | createOwnerChat => exact Or.inl (stay (.refl _))
  | activateOwnerChat h =>
    exact Or.inl (stay (.of_eq (Tables.docket_conflicts (Tables.activateOwnerChat_docket h))))
  | getOrCreateActive =>
    exact Or.inl (stay (.of_eq (Tables.docket_conflicts (s.getOrCreateActive_docket _))))
  | appendTurn h =>
    exact Or.inl (stay (.of_eq (Tables.docket_conflicts (Tables.appendTurn_docket h))))
  | enqueueMany =>
    exact Or.inl (stay (.of_eq (Tables.docket_conflicts (s.enqueueMany_docket _ _))))
  | intakeFailed => exact Or.inl (stay (.refl _))
  | remember h => exact Or.inl (stay (.of_eq (Tables.queueExplicitContentCommandIn_conflicts h)))
  | correct h => exact Or.inl (stay (.of_eq (Tables.queueExplicitContentCommandIn_conflicts h)))
  | persistReading h => exact Or.inl (stay (.of_eq (Tables.persistReading_conflicts h)))
  | persistComparison h => exact Or.inl (stay (.of_eq (Tables.persistComparison_conflicts h)))
  | persistReconciliation h =>
    exact Or.inl (stay (.of_eq (Tables.persistReconciliation_conflicts h)))
  | persistPolicy h => exact Or.inl (stay (.of_eq (Tables.persistPolicy_conflicts h)))
  | finishEpistemicRejection h => exact Or.inl (stay (.of_eq (Tables.finish_conflicts h)))
  | finishPolicyBlock h => exact Or.inl (stay (.of_eq (Tables.finish_conflicts h)))
  | requeueAfterVersionConflict =>
    exact Or.inl (stay (.of_eq (s.requeueAfterVersionConflict_conflicts ..)))
  | releaseAfterConflict => exact Or.inl (stay (.of_eq (s.releaseAfterConflict_conflicts ..)))
  | releaseFailed => exact Or.inl (stay (.of_eq (Tables.releaseFailed_conflicts ..)))
  | began => exact Or.inl (stay (.refl _))
  | failed _ h => exact Or.inl (stay (.of_eq (Tables.failCommand_conflicts h)))
  | resolveReview h => exact Or.inl (stay (.of_eq (Tables.resolveReviewMutate_conflicts h)))
  | resolveObligationIn h => exact Or.inl (stay (.of_eq (Tables.resolveObligationIn_conflicts h)))

/-- An answer that changes nothing: the rows are as they were and no memory revision is made. -/
structure Refused (w w' : State) : Prop where
  data : w'.data = w.data
  revision : memoryRevision w' = memoryRevision w
  operations : w.operations <+: w'.operations

omit [PyRuntime] in
theorem Refused.refl (w : State) : Refused w w := ⟨rfl,rfl,List.prefix_rfl⟩

/-- A shared write about the memory store is refused or mutates it. -/
theorem execute_refused {envelope : SharedWrites.Envelope OperationId}
    {mutation : Tables → ℕ → Except Failure (SharedWrites.Mutation Dict × Tables)}
    (hr : envelope.resource = memoryResource)
    (h : ∀ version outcome s, mutation w.data version = .ok (outcome,s) →
      outcome.mutated = false → s = w.data) :
    Refused w (SharedWrites.execute w envelope mutation).world ∨
      ∃ version outcome, outcome.mutated = true ∧ mutation w.data version =
        .ok (outcome,(SharedWrites.execute w envelope mutation).world.data) := by
  unfold SharedWrites.execute
  have hversion : ∀ (t : State), t.versions = Function.update w.versions envelope.resource
      (some (w.version envelope.resource)) → memoryRevision t = memoryRevision w := by
    intro t ht
    rw [memoryRevision,memoryRevision,SharedWrites.World.version,ht,hr,Function.update_self]
    rfl
  cases w.find envelope.operationId with
  | some row =>
    dsimp only
    split <;> exact Or.inl (.refl w)
  | none =>
    dsimp only
    split
    · exact Or.inl ⟨rfl,hversion _ rfl,List.prefix_append ..⟩
    · cases hm : mutation w.data (w.version envelope.resource) with
      | error e => exact Or.inl (.refl w)
      | ok r =>
        by_cases hmut : r.1.mutated = true
        · exact Or.inr ⟨_,r.1,hmut,hm⟩
        · rw [Bool.not_eq_true] at hmut
          refine Or.inl ⟨h _ r.1 r.2 hm hmut,hversion _ ?_,List.prefix_append ..⟩
          simp [hmut]

omit [PyRuntime] in
theorem decisionMutation_outcome {mutate : Tables → Except Failure (Tables × Bool × Resolution)}
    {s s' : Tables} {version : ℕ} {outcome : SharedWrites.Mutation Dict}
    (h : decisionMutation mutate s version = .ok (outcome,s')) :
    ∃ r, mutate s = .ok (s',outcome.mutated,r) := by
  obtain ⟨⟨s₁,r⟩,hc,h⟩ := map_ok h
  cases h
  obtain ⟨r',hm,hr⟩ := @bind_ok _ _ (mutate s) _ _ hc
  split at hr
  · cases hr
    exact ⟨_,hm⟩
  · cases hr

/-- The shared write of a conflict decision. -/
theorem execute_decision {arguments : ResolveArguments} {changeType : String} {source : OwnerSource}
    {now : Time} {envelope : SharedWrites.Envelope OperationId}
    (hr : envelope.resource = memoryResource) {w' : State}
    (hw : w' = (SharedWrites.execute w envelope (decisionMutation
      (Tables.resolveConflictMutate arguments changeType source now))).world) :
    Refused w w' ∨ ∃ c k k' target, Tables.Decision w.data w'.data arguments c k k' target := by
  subst hw
  have hmutate : ∀ version outcome s, decisionMutation
      (Tables.resolveConflictMutate arguments changeType source now) w.data version =
        .ok (outcome,s) → outcome.mutated = false ∧ s = w.data ∨ outcome.mutated = true ∧
          ∃ c k k' target, Tables.Decision w.data s arguments c k k' target :=
    fun version outcome s h =>
      let ⟨_,hm⟩ := decisionMutation_outcome h
      Tables.resolveConflictMutate_decision hm
  refine (execute_refused hr fun version outcome s h hmut => ?_).imp_right ?_
  · rcases hmutate version outcome s h with ⟨_,hs⟩ | ⟨htrue,_⟩
    · exact hs
    · rw [hmut] at htrue
      cases htrue
  · rintro ⟨version,outcome,htrue,h⟩
    rcases hmutate version outcome _ h with ⟨hfalse,_⟩ | ⟨_,hd⟩
    · rw [htrue] at hfalse
      cases hfalse
    · exact hd

/-- A decision of the owner that takes effect on a conflict. -/
def Decides (w : State) (op : Op) (c : ℕ) : Prop :=
  ∃ arguments transcriptId operationId now, op = .resolveObligation arguments transcriptId operationId
    now ∧ ∃ k k' target, Tables.Decision w.data (step w op).data arguments c k k' target

/-- The owner's answer to an obligation about a conflict is refused, or it decides the conflict. -/
theorem resolveObligation_refused {arguments : ResolveArguments} {transcriptId : Option ℕ}
    {operationId : OperationId} {now : Time} {obligation : ObligationRow}
    (ho : w.data.obligations[arguments.obligationId]? = some obligation)
    (hk : obligation.kind = .memoryConflict) :
    Refused w (step w (.resolveObligation arguments transcriptId operationId now)) ∨
      ∃ c, Decides w (.resolveObligation arguments transcriptId operationId now) c := by
  have hstep : Refused w (resolveObligation w arguments transcriptId operationId now).1 ∨
      ∃ c k k' target, Tables.Decision w.data
        (resolveObligation w arguments transcriptId operationId now).1.data arguments c k k' target := by
    unfold resolveObligation
    extract_lets source changeType r
    rw [ho]
    dsimp only
    rw [if_pos hk]
    split
    · exact Or.inl (.refl w)
    · split
      · exact Or.inl (.refl w)
      · exact execute_decision rfl rfl
  rcases hstep with hr | ⟨c,hd⟩
  · exact .inl hr
  · exact .inr ⟨c,_,_,_,_,rfl,hd⟩

/-- What one operation does to the conflicts. -/
theorem step_conflicts (w : State) (op : Op) :
    (ConflictsFollow w.data.conflicts (step w op).data.conflicts ∧
      (op.purges = false → ConflictsStay w.data.conflicts (step w op).data.conflicts)) ∨
    ∃ c, Decides w op c := by
  by_cases hop : ∃ arguments transcriptId operationId now,
      op = .resolveObligation arguments transcriptId operationId now
  · obtain ⟨arguments,transcriptId,operationId,now,rfl⟩ := hop
    have stay : ∀ s', ConflictsStay w.data.conflicts s' → ConflictsFollow w.data.conflicts s' ∧
        (Op.purges (.resolveObligation arguments transcriptId operationId now) = false →
          ConflictsStay w.data.conflicts s') := fun s' h => ⟨h.follow,fun _ => h⟩
    cases ho : w.data.obligations[arguments.obligationId]? with
    | none =>
      refine Or.inl (stay _ (.of_eq ?_))
      change (resolveObligation w arguments transcriptId operationId now).1.data.conflicts = _
      rw [resolveObligation,ho]
    | some obligation =>
      by_cases hk : obligation.kind = .memoryConflict
      · exact (resolveObligation_refused ho hk).imp_left fun hr =>
          stay _ (.of_eq (congrArg Tables.conflicts hr.data))
      · refine Or.inl (stay _ (.of_eq ?_))
        change (resolveObligation w arguments transcriptId operationId now).1.data.conflicts = _
        unfold resolveObligation
        extract_lets source changeType r
        rw [ho]
        dsimp only
        rw [if_neg hk]
        split
        · rfl
        · split
          · split
            · rfl
            · exact execute_rel (R := fun a b : Tables => b.conflicts = a.conflicts)
                (fun _ => rfl) fun version outcome s h => by
                  obtain ⟨_,_,hm⟩ := decisionMutation_ok h
                  exact Tables.resolveReviewMutate_conflicts hm
          · exact transact_rel (R := fun a b : Tables => b.conflicts = a.conflicts)
              (fun _ => rfl) fun s r h => Tables.resolveObligationIn_conflicts h
  · have hrun : ∀ s', Committed id op w.data s' → ConflictsFollow w.data.conflicts s'.conflicts ∧
        (op.purges = false → ConflictsStay w.data.conflicts s'.conflicts) := by
      intro s' hc
      induction hc with
      | refl => exact ⟨(ConflictsStay.refl _).follow,fun _ => .refl _⟩
      | tail _ hb ih =>
        rcases hb.1.conflicts with h | ⟨arguments,transcriptId,operationId,now,_,_,_,rfl,_⟩
        · exact ⟨ih.1.trans h.1,fun hp => (ih.2 hp).trans (h.2 hp)⟩
        · exact absurd ⟨_,_,_,_,rfl⟩ hop
    exact Or.inl (hrun _ (stepLoaded_committed id w op))

/-- A conflict keeps its target and its candidate, and what is decided stays decided. -/
def ConflictsEvolve (t t' : List ConflictRow) : Prop :=
  ∀ (i : ℕ) (k : ConflictRow), t[i]? = some k → ∃ k', t'[i]? = some k' ∧
    (k'.candidateId = k.candidateId ∧ k'.targetMemoryId = k.targetMemoryId) ∧
    (k.resolvable = false → k'.resolvable = false)

theorem step_evolves (w : State) (op : Op) :
    ConflictsEvolve w.data.conflicts (step w op).data.conflicts := by
  intro i k hk
  rcases step_conflicts w op with ⟨hf,_⟩ | ⟨c,_,_,_,_,_,k₀,k₀',target,hd⟩
  · obtain ⟨k',hk',hfollow⟩ := hf i k hk
    exact ⟨k',hk',hfollow.same,hfollow.not_resolvable⟩
  · by_cases hi : i = c
    · subst hi
      cases Option.some.inj (hk.symm.trans hd.change.before)
      exact ⟨k₀',hd.change.after,hd.decided.2,fun _ => hd.decided.1⟩
    · exact ⟨k,(hd.change.others i hi).trans hk,⟨rfl,rfl⟩,id⟩

abbrev LeadsTo (w w' : State) : Prop := Trace.Path step (fun w op => Legal w op ∧ True) w w'

theorem LeadsTo.evolves (h : LeadsTo w w') : ConflictsEvolve w.data.conflicts w'.data.conflicts := by
  induction h with
  | refl => exact fun i k hk => ⟨k,hk,⟨rfl,rfl⟩,id⟩
  | @tail t op _ _ ih =>
    intro i k hk
    obtain ⟨k',hk',hsame,hr⟩ := ih i k hk
    obtain ⟨k'',hk'',hsame',hr'⟩ := step_evolves t op i k' hk'
    exact ⟨k'',hk'',⟨hsame'.1.trans hsame.1,hsame'.2.trans hsame.2⟩,hr' ∘ hr⟩

omit [PyRuntime] in
theorem decidedConflictRow_row {s : Tables} {arguments : ResolveArguments} {c : ℕ} {k : ConflictRow}
    (h : s.decidedConflictRow arguments = some (c,k)) : s.conflicts[c]? = some k := by
  obtain ⟨obligation,_,h⟩ := Option.bind_eq_some_iff.mp h
  obtain ⟨id,_,h⟩ := Option.bind_eq_some_iff.mp h
  obtain ⟨k',hk',he⟩ := Option.map_eq_some_iff.mp h
  cases he
  exact hk'

theorem Tables.Decision.reviewable {s s' : Tables} {arguments : ResolveArguments} {c : ℕ}
    {k k' : ConflictRow} {m : DurableMemoryRow} (h : s.Decision s' arguments c k k' m) :
    ∃ version, arguments.reviewVersion = some version ∧ s.Reviewable c k m version := by
  obtain ⟨version,hv,hp⟩ := h.version
  exact ⟨version,hp,decidedConflictRow_row h.subject,h.resolvable,h.active.1,h.active.2,hv⟩

/-- A decided conflict is decided once. -/
theorem Decides.once {op op' : Op} {c : ℕ} (h : Decides w op c) (hl : LeadsTo (step w op) w') :
    ¬Decides w' op' c := by
  rintro ⟨_,_,_,_,_,k₀,_,_,hd'⟩
  obtain ⟨_,_,_,_,_,k,k',_,hd⟩ := h
  obtain ⟨k'',hk'',_,hr⟩ := hl.evolves c k' hd.change.after
  have hk₀ := decidedConflictRow_row hd'.subject
  cases Option.some.inj (hk''.symm.trans hk₀)
  have hopen := hd'.resolvable
  rw [hr hd.decided.1] at hopen
  cases hopen

/-- The current version of a conflict is accepted, after expiry as well. -/
theorem keepCurrent_accepted {s : Tables} {arguments : ResolveArguments} {obligation : ObligationRow}
    {c : ℕ} {k : ConflictRow} {m : DurableMemoryRow} {version text : String}
    (ho : s.obligations[arguments.obligationId]? = some obligation)
    (hkind : obligation.kind = .memoryConflict ∧ obligation.subjectType = .memoryConflict ∧
      obligation.subjectId = some c) (hd : arguments.decision = .keepCurrent)
    (hr : s.Reviewable c k m version) (hv : arguments.reviewVersion = some version)
    (hclean : cleanMemoryContent m.content "content" = .ok text) (changeType : String)
    (source : OwnerSource) (now : Time) :
    ∃ r, s.resolveConflictMutate arguments changeType source now =
      .ok (s.keepCurrent arguments.obligationId c k source now,true,r) := by
  have htarget : (s.memories[k.targetMemoryId]?).filter
      (fun m => m.status == .active && m.content.isSome) = some m := by
    rw [hr.target]
    simp [Option.filter,hr.active.1,hr.active.2]
  refine ⟨{result := "keep_current",memoryId := some k.targetMemoryId},?_⟩
  unfold Tables.resolveConflictMutate
  rw [ho]
  dsimp only
  rw [if_neg (by simp [hkind.1,hkind.2.1,hkind.2.2]),hkind.2.2,Option.bind_some,hr.conflict]
  dsimp only [Option.map_some]
  rw [if_neg (by simp [hr.resolvable]),htarget]
  dsimp only
  rw [hr.version]
  change (if _ then _ else _) = _
  rw [if_neg (not_not.mpr hv),hclean]
  change (if _ then _ else _) = _
  rw [if_pos hd]

/-- Owner decisions on conflicts. An answer is refused and changes nothing, or it decides the
conflict; no conflict is decided twice; a decision is made on the state the owner was shown with
the version it presents; and a conflict that expires can still be decided. -/
theorem conflict_resolution (hp : PlainTexts) (hw : ReachableFrom Shaped w) :
    (∀ arguments transcriptId operationId now obligation,
      w.data.obligations[arguments.obligationId]? = some obligation →
      obligation.kind = .memoryConflict →
      let op := Op.resolveObligation arguments transcriptId operationId now
      Refused w (step w op) ∨ ∃ c, Decides w op c) ∧
    (∀ op c w' op', Decides w op c → LeadsTo (step w op) w' → ¬Decides w' op' c) ∧
    (∀ u row p arguments transcriptId operationId now c k k' m, ReachableFrom Shaped u → LeadsTo u w →
      u.data.conflictProjection row = .ok (some p) → p.reviewVersion ≠ none →
      p.reviewVersion = arguments.reviewVersion →
      w.data.Decision (step w (.resolveObligation arguments transcriptId operationId now)).data
        arguments c k k' m →
      (∀ x y, u.data.reviewText p.conflictId = some x → w.data.reviewText c = some y →
        PyRuntime.sha256 x = PyRuntime.sha256 y → x = y) →
      p.conflictId = c ∧ (w.data.reviewed c).isSome ∧ u.data.reviewed c = w.data.reviewed c ∧
        ∃ k₀, u.data.conflicts[c]? = some k₀ ∧ k₀.candidateId = k.candidateId ∧
          k₀.targetMemoryId = k.targetMemoryId) ∧
    (∀ op c k, op.purges = false → w.data.conflicts[c]? = some k → k.resolvable = true →
      (∃ k', (step w op).data.conflicts[c]? = some k' ∧ k'.resolvable = true) ∨ Decides w op c) ∧
    (∀ arguments obligation c k m version text changeType source now,
      w.data.obligations[arguments.obligationId]? = some obligation →
      (obligation.kind = .memoryConflict ∧ obligation.subjectType = .memoryConflict ∧
        obligation.subjectId = some c) → arguments.decision = .keepCurrent →
      w.data.Reviewable c k m version → arguments.reviewVersion = some version →
      cleanMemoryContent m.content "content" = .ok text →
      ∃ r, w.data.resolveConflictMutate arguments changeType source now =
        .ok (w.data.keepCurrent arguments.obligationId c k source now,true,r)) := by
  refine ⟨fun arguments transcriptId operationId now obligation => resolveObligation_refused,
    fun op c w' op' hd hl => hd.once hl,?_,?_,fun _ _ _ _ _ _ _ changeType source now ho hk hd hr hv hc =>
      keepCurrent_accepted ho hk hd hr hv hc changeType source now⟩
  · intro u row p arguments transcriptId operationId now c k k' m hu hl hproj hsome hshown hd hfree
    obtain ⟨version,hv,hrev⟩ := hd.reviewable
    obtain ⟨k₀,m₀,hrev₀⟩ := Tables.conflictProjection_reviewable hproj (hshown.trans hv)
    obtain ⟨rfl,state,hstate₀,hstate⟩ := hrev₀.same hp
      (hu.records fun _ _ => Shaped.change) (hw.records fun _ _ => Shaped.change) hrev hfree
    refine ⟨rfl,by rw [hstate]; rfl,hstate₀.trans hstate.symm,k₀,hrev₀.conflict,?_⟩
    obtain ⟨k₁,hk₁,hsame,_⟩ := hl.evolves _ k₀ hrev₀.conflict
    cases Option.some.inj (hk₁.symm.trans hrev.conflict)
    exact ⟨hsame.1.symm,hsame.2.symm⟩
  · intro op c k hop hk hr
    rcases step_conflicts w op with ⟨_,hstay⟩ | ⟨c',hd⟩
    · obtain ⟨k',hk',_,hr'⟩ := hstay hop c k hk
      exact Or.inl ⟨k',hk',hr' hr⟩
    · by_cases hc : c = c'
      · exact Or.inr (hc ▸ hd)
      · obtain ⟨_,_,_,_,_,k₀,k₀',target,hdec⟩ := hd
        exact Or.inl ⟨k,(hdec.change.others c hc).trans hk,hr⟩

end

/-- The contradiction is not answered in time. -/
def unanswered : List Op := contradicted ++ [Op.claimBatch {} 1 {} (days 20)]

def keepDecision [PyRuntime] (s : Tables) : ResolveArguments :=
  { obligationId := 1
    decision := .keepCurrent
    reviewVersion := do
      let row ← s.obligations[1]?
      let p ← ((s.conflictProjection row).toOption).bind id
      p.reviewVersion }
/-- The projection the owner is shown. -/
def shownConflict [PyRuntime] (s : Tables) (obligationId : ℕ) : Option ConflictProjection :=
  (s.obligations[obligationId]?).bind fun row => (s.conflictProjection row).toOption.bind id

theorem shownConflict_row [PyRuntime] {s : Tables} {obligationId : ℕ} {p : ConflictProjection}
    (h : shownConflict s obligationId = some p) : ∃ row, s.obligations[obligationId]? = some row ∧
      s.conflictProjection row = .ok (some p) := by
  obtain ⟨row,hrow,h⟩ := Option.bind_eq_some_iff.mp h
  cases hp : s.conflictProjection row with
  | error e => rw [hp] at h; cases h
  | ok shown =>
    rw [hp] at h
    cases (show shown = some p from h)
    exact ⟨row,hrow,hp⟩

/-- The owner keeps the current memory on the version that is shown. -/
def keeping [PyRuntime] (s : Tables) : ResolveArguments :=
  { obligationId := 1
    decision := .keepCurrent
    reviewVersion := (shownConflict s 1).bind (·.reviewVersion) }

theorem conflict_resolution_expired :
    letI := digitRuntime
    let w := ran unanswered
    ∃ p, shownConflict w.data 1 = some p ∧ p.conflictStatus = "expired_unresolved" ∧
      (w.data.reviewed p.conflictId).isSome ∧
      Decides w (.resolveObligation (keeping w.data) none (.uuid 2) (days 21)) p.conflictId := by
  obtain ⟨hrun,⟨p,hp,hid,hstatus,hne,hversion⟩,hkind,hmoved,hlen⟩ : letI := digitRuntime
    let w := ran unanswered
    Trace.Allowed step (fun w op => Legal w op ∧ True) emptyStore unanswered ∧
      (∃ p, shownConflict w.data 1 = some p ∧
        (p.conflictId = 0 ∧ p.conflictStatus = "expired_unresolved" ∧ p.reviewVersion ≠ none ∧
          p.reviewVersion = (keeping w.data).reviewVersion)) ∧
      (∀ row, w.data.obligations[1]? = some row → row.kind = .memoryConflict) ∧
      (step w (.resolveObligation (keeping w.data) none (.uuid 2) (days 21))).data.conflicts ≠
        w.data.conflicts ∧ w.data.conflicts.length = 1 := by
    rw [digitRuntime_eq]
    decide +kernel
  have hw := @ran_reachableFrom digitRuntime _ (@shaped_nil digitRuntime) unanswered hrun
  have hmain := @conflict_resolution digitRuntime _ digitRuntime_plainTexts hw
  obtain ⟨row,hrow,hproj⟩ := @shownConflict_row digitRuntime _ _ _ hp
  rcases hmain.1 (@keeping digitRuntime (@ran digitRuntime unanswered).data) none (.uuid 2) (days 21)
    row hrow (hkind row hrow) with hr | ⟨c,arguments,transcriptId,operationId,now,hop,k,k',m,hd⟩
  · exact absurd (congrArg Tables.conflicts hr.data) hmoved
  · cases hop
    have hseen := hmain.2.2.1 _ row p _ none (.uuid 2) (days 21) c k k' m hw .refl hproj hne hversion
      hd fun x y hx hy _ => ?_
    · obtain ⟨rfl,hsome,_⟩ := hseen
      exact ⟨p,hp,hstatus,hsome,_,_,_,_,rfl,k,k',m,hd⟩
    · have hchange := @Tables.Decision.change digitRuntime _ _ _ _ _ _ _ hd
      have hc := (List.getElem?_eq_some_iff.mp hchange.before).1
      rw [show p.conflictId = c by omega] at hx
      exact Option.some.inj (hx.symm.trans hy)

end Memory
end Atlas
