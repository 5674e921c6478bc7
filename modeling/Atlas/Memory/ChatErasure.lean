import Atlas.Memory.DerivativeCommands
import Atlas.Memory.PublisherFrame
import Atlas.Memory.Transitions

/-! The deletion of a chat and the derivatives of its candidates: it touches none of them, and
those that a purge had tombstoned before stay blank in every later state. -/
namespace Atlas
namespace Memory

open RowTable Tables

section

variable {P : Policy} {c : ℕ} {s s' : Tables}

/-- A candidate at rest keeps its payload gone, and no attempt about it is opened. -/
theorem Resting.micro (hc : s.Resting c)
    (ha : ∀ a ∈ s.attempts, a.candidateId = c → a.completedAt ≠ none) (hm : Micro P s s') :
    s'.Resting c ∧ ∀ a ∈ s'.attempts, a.candidateId = c → a.completedAt ≠ none := by
  obtain ⟨row,hrow,hs,hn⟩ := hc
  have hrest : ∃ row', s'.candidates[c]? = some row' ∧ row'.status = .invalidated ∧
      row'.content = none := by
    have hkept : s'.candidates = s.candidates → ∃ row', s'.candidates[c]? = some row' ∧
        row'.status = .invalidated ∧ row'.content = none := fun he => ⟨row,he ▸ hrow,hs,hn⟩
    cases hm with
    | frame h => exact hkept h.candidates
    | write d r r' h =>
      by_cases hd : c = d
      · subst hd
        cases Option.some.inj (hrow.symm.trans h.change.before)
        exact ⟨r',h.change.after,(h.columns.payload hn hs).2,(h.columns.payload hn hs).1⟩
      · exact ⟨row,(h.change.others c hd).trans hrow,hs,hn⟩
    | confirm d r r' e h =>
      refine ⟨row,(h.change.others c ?_).trans hrow,hs,hn⟩
      rintro rfl
      cases Option.some.inj (hrow.symm.trans h.change.before)
      exact h.content hn
    | enqueue r rows h =>
      exact ⟨row,by rw [h.candidates,getElem?_insert_of_some hrow],hs,hn⟩
    | attach d h => exact hkept h.candidates
    | erase chatId now h =>
      refine ⟨_,by rw [h.candidates,List.getElem?_map,hrow]; rfl,?_⟩
      dsimp only
      split
      · exact ⟨rfl,rfl⟩
      · exact ⟨hs,hn⟩
  refine ⟨hrest,fun a' ha' hac ho => ?_⟩
  obtain ⟨row',hrow',hs',_⟩ := hrest
  obtain ⟨i,hi⟩ := List.mem_iff_getElem?.mp ha'
  have hclosed : ∀ (a : AttemptRow), s.attempts[i]? = some a → a.candidateId = c →
      a.completedAt ≠ none := fun a hi' => ha a (List.mem_of_getElem? hi')
  have hkept : AttemptsKept s.attempts s'.attempts → False := fun hk => by
    obtain ⟨a,hold,hid,_,hopen⟩ := hk.source hi
    exact hclosed a hold (hid ▸ hac) (hopen ho).1
  have hchange : ∀ {j : ℕ} {a b : AttemptRow}, Changes s.attempts s'.attempts j a b →
      a.candidateId = c → a.completedAt = none → False := fun hch hid hopen =>
    ha _ (List.mem_of_getElem? hch.before) hid hopen
  cases hm.standing hrow hrow' with
  | same _ h =>
    obtain ⟨a,hold,hid,hopen,_⟩ := h i a' hi hac ho
    exact hclosed a hold hid hopen
  | effect h =>
    cases h with
    | bump _ hk _ => exact hkept hk
    | still _ _ hk _ => exact hkept hk
    | work j a b hch hid _ _ hopen => exact hchange hch hid hopen
    | close j a b hch hid _ _ hopen => exact hchange hch hid hopen
    | lease a _ _ _ _ _ hl => rw [hs'] at hl; cases hl

end

section

variable [PyRuntime] {c : ℕ} {w : State}

theorem queueExplicitContentCommand_rel {R : Tables → Tables → Prop} (hrefl : ∀ s, R s s)
    {e : ExplicitCommand} {source : OwnerSource} {now : Time}
    (hqueue : ∀ s q, w.data.queueExplicitContentCommandIn e source now = .ok (s,q) → R w.data s)
    (hfail : ∀ reason, R w.data (w.data.recordExplicitIntakeFailure e.operation source reason now).1) :
    R w.data (queueExplicitContentCommand w e source now).1.data := by
  have hintake : ∀ reason, R w.data (intakeFailure w e.operation source reason now).1.data :=
    fun reason => transact_rel hrefl fun s a h => by
      cases h
      exact hfail reason
  unfold queueExplicitContentCommand
  split
  · exact hintake _
  · have hq : R w.data (transact w fun s => s.queueExplicitContentCommandIn e source now).1.data :=
      transact_rel hrefl hqueue
    split
    · next w' q h =>
      rw [h] at hq
      exact hq
    · exact hintake _

theorem remember_dormant (hc : w.data.Resting c) (arguments : RememberArguments)
    (transcriptId : Option ℕ) (now : Time) :
    Dormant c w.data (remember w arguments transcriptId now).1.data := by
  unfold remember
  extract_lets source
  split
  · exact .refl _
  · split
    · exact .refl _
    · exact queueExplicitContentCommand_rel .refl
        (fun s q h => queueExplicitContentCommandIn_dormant hc h)
        fun reason => recordExplicitIntakeFailure_dormant _ _ _ reason now

theorem correct_dormant (hc : w.data.Resting c) (arguments : CorrectArguments)
    (transcriptId : Option ℕ) (now : Time) :
    Dormant c w.data (correct w arguments transcriptId now).1.data := by
  unfold correct
  extract_lets source changeType
  split
  · exact .refl _
  · exact .refl _
  · split
    · exact .refl _
    · split
      · exact .refl _
      · split
        · exact transact_rel .refl fun s a h => by
            cases h
            exact recordExplicitIntakeFailure_dormant _ _ _ _ now
        · exact queueExplicitContentCommand_rel .refl
            (fun s q h => queueExplicitContentCommandIn_dormant hc h)
            fun reason => recordExplicitIntakeFailure_dormant _ _ _ reason now

theorem command_dormant {operation : String} {arguments : Dict} {source : OwnerSource}
    {hb : 1 ≤ operation.length ∧ operation.length ≤ 64} {now : Time}
    {mutate : ℕ → Tables → Except Failure (Tables × Applied)}
    (h : ∀ id s s' applied, mutate id s = .ok (s',applied) → Dormant c s s') :
    Dormant c w.data (runCommand w operation arguments source hb now mutate).1.data := by
  refine runCommand_rel .refl .trans ?_ (fun s' applied hm => h _ _ s' applied hm) failCommand_dormant
  exact .of_eq rfl

theorem resolveObligation_dormant (hc : w.data.Resting c) (arguments : ResolveArguments)
    (transcriptId : Option ℕ) (operationId : OperationId) (now : Time) :
    Dormant c w.data (resolveObligation w arguments transcriptId operationId now).1.data := by
  unfold resolveObligation
  extract_lets source changeType r
  split
  · exact .refl _
  · split
    · split
      · exact .refl _
      · split
        · exact .refl _
        · refine execute_rel .refl fun version outcome s h => ?_
          obtain ⟨_,r,h⟩ := decisionMutation_ok h
          exact resolveConflictMutate_dormant hc h
    · split
      · exact .refl _
      · split
        · split
          · exact .refl _
          · refine execute_rel .refl fun version outcome s h => ?_
            obtain ⟨_,r,h⟩ := decisionMutation_ok h
            exact resolveReviewMutate_dormant h
        · exact transact_rel .refl fun s r h => resolveObligationIn_dormant h

omit [PyRuntime] in
/-- A worker that still holds its claim works on another candidate. -/
theorem claimed_ne {s : Tables} (hc : s.Resting c) {claim : CandidateLease} {row : CandidateRow}
    {a : AttemptRow} (h : Fence s claim row a) : claim.candidateId ≠ c :=
  hc.ne_of_status h.candidate (by rw [h.status]; nofun)

theorem publish_dormant {config : PublisherConfig} {claim : CandidateLease}
    {snapshot : EvaluationSnapshot} {decision : ReconciliationDecision} {operationId : OperationId}
    {now : Time} (hs : Sound w.data) (hi : Issued w.data claim) (hc : w.data.Resting c) :
    Dormant c w.data (publish w config claim snapshot decision operationId now).world.data := by
  rcases publish_cases w config claim snapshot decision operationId now with he | ⟨pub,hp⟩
  · rw [he]
    exact .refl _
  · rcases publishAndSettle_ends hs hi hp with he | ⟨row,a,hf,_⟩
    · rw [he]
      exact .refl _
    · exact publishAndSettle_dormant (claimed_ne hc hf) hp

/-- No operation writes about a candidate at rest. -/
theorem step_dormant {op : Op} (hs : Sound w.data) (hl : Legal w op) (hc : w.data.Resting c) :
    Dormant c w.data (step w op).data := by
  cases op with
  | createOwnerChat title now =>
    exact transact_rel .refl fun s a h => by
      cases h
      exact .of_eq rfl
  | activateOwnerChat chatId now =>
    exact transact_rel .refl fun s a h => .of_eq (activateOwnerChat_docket h)
  | getOrCreateActive now =>
    exact transact_rel .refl fun s a h => by
      rw [show s = (w.data.getOrCreateActive now).1 from (congrArg Prod.fst (Except.ok.inj h)).symm]
      exact .of_eq (w.data.getOrCreateActive_docket now)
  | appendTurn transcriptId actor blocks now =>
    exact transact_rel .refl fun s a h => .of_eq (appendTurn_docket h)
  | deleteOwnerChat chatId now =>
    exact transact_rel .refl fun s a h => .of_eq (deleteOwnerChat_docket h)
  | enqueueMany proposals source =>
    exact transact_rel .refl fun s a h => by
      cases h
      exact .of_eq (w.data.enqueueMany_docket proposals source)
  | remember arguments transcriptId now => exact remember_dormant hc arguments transcriptId now
  | correct arguments transcriptId now => exact correct_dormant hc arguments transcriptId now
  | claimBatch config limit locks now =>
    refine transact_rel .refl fun s a h => ?_
    rw [show s = (w.data.claimBatch config limit locks now).1 from
      (congrArg Prod.fst (Except.ok.inj h)).symm]
    exact w.data.claimBatch_dormant config limit locks now
  | persistReading claim snapshot reading model now =>
    refine transact_rel .refl fun s a h => ?_
    obtain ⟨_,hlock,_⟩ := bind_ok h
    exact persistReading_dormant (claimed_ne hc (lockedLiveClaim_fence hlock)) h
  | persistComparison claim readingId comparison now =>
    refine transact_rel .refl fun s a h => ?_
    obtain ⟨_,hlock,_⟩ := bind_ok h
    exact persistComparison_dormant (claimed_ne hc (lockedLiveClaim_fence hlock)) h
  | persistReconciliation claim comparisonId snapshot relation now =>
    refine transact_rel .refl fun s a h => ?_
    obtain ⟨_,hlock,_⟩ := bind_ok h
    exact persistReconciliation_dormant (claimed_ne hc (lockedLiveClaim_fence hlock)) h
  | persistPolicy claim recordId policy reason now =>
    exact transact_rel .refl fun s a h => persistPolicy_dormant h
  | finishEpistemicRejection claim code now =>
    exact transact_rel .refl fun s a h => finish_dormant h
  | finishPolicyBlock claim code now =>
    exact transact_rel .refl fun s a h => finish_dormant h
  | requeueAfterVersionConflict claim snapshot now =>
    exact transact_rel .refl fun s a h => by
      cases h
      exact w.data.requeueAfterVersionConflict_dormant claim snapshot now
  | releaseAfterConflict maxAttempts claim code now =>
    exact transact_rel .refl fun s a h => by
      cases h
      exact w.data.releaseAfterConflict_dormant maxAttempts claim code now
  | releaseFailed maxAttempts claim code now =>
    exact transact_rel .refl fun s a h => by
      cases h
      exact releaseFailed_dormant _ w.data maxAttempts claim code now
  | publish config claim snapshot decision operationId now => exact publish_dormant hs (hl claim rfl) hc
  | retire arguments transcriptId now =>
    change Dormant c w.data (retire w id arguments transcriptId now).1.data
    unfold retire
    split
    · exact .refl _
    · split
      · exact .refl _
      · exact command_dormant fun id s s' applied h => retireMutate_dormant h
  | restore memoryId transcriptId now =>
    exact command_dormant fun id s s' applied h => restoreMutate_dormant h
  | delete arguments transcriptId now =>
    change Dormant c w.data (delete w id arguments transcriptId now).1.data
    unfold delete
    extract_lets scope
    split
    · exact .refl _
    · split
      · exact .refl _
      · split
        · exact .refl _
        · exact command_dormant fun id s s' applied h => deleteMutate_dormant h
  | resolveObligation arguments transcriptId operationId now =>
    exact resolveObligation_dormant hc arguments transcriptId operationId now

omit [PyRuntime] in
/-- The purge of a deletion leaves every derivative of the candidates it selected blank. -/
theorem tombstoneCandidateDerivatives_blanked {s : Tables} {operationId : OperationId}
    {candidateIds : List ℕ} {now : Time} (hc : c ∈ candidateIds) :
    (s.tombstoneCandidateDerivatives operationId candidateIds now).Blanked c where
  attempts a ha hac := by
    obtain ⟨a₀,_,rfl⟩ := List.mem_map.mp ha
    by_cases ho : a₀.completedAt = none
    · have hid : a₀.candidateId = c := by
        rw [← hac]
        split <;> rfl
      rw [if_pos ⟨by simpa [hid] using hc,ho⟩]
      exact Option.some_ne_none now
    · rw [if_neg fun h => ho h.2]
      exact ho
  readings r hr hrc := by
    obtain ⟨r₀,_,rfl⟩ := List.mem_map.mp hr
    have hid : r₀.candidateId = c := by
      rw [← hrc]
      split <;> rfl
    rw [if_pos (by simpa [hid] using hc)]
    exact ⟨⟨rfl,rfl,rfl,rfl,rfl,rfl⟩,Option.some_ne_none now⟩
  comparisons r hr hrc := by
    obtain ⟨r₀,_,rfl⟩ := List.mem_map.mp hr
    have hid : r₀.candidateId = c := by
      rw [← hrc]
      split <;> rfl
    rw [if_pos (by simpa [hid] using hc)]
    exact ⟨⟨rfl,rfl,rfl,rfl⟩,Option.some_ne_none now⟩
  records r hr hrc := by
    obtain ⟨r₀,_,rfl⟩ := List.mem_map.mp hr
    have hid : r₀.candidateId = c := by
      rw [← hrc]
      split <;> rfl
    rw [if_pos (by simpa [hid] using hc)]
    exact ⟨rfl,Option.some_ne_none now⟩
  conflicts k hk hkc := by
    obtain ⟨k₀,_,rfl⟩ := List.mem_map.mp hk
    have hid : k₀.candidateId = c := by
      rw [← hkc]
      split <;> rfl
    rw [if_pos (by simpa [hid] using hc)]
    exact ⟨rfl,rfl,Option.some_ne_none now⟩
  obligations o ho ha hp := by
    obtain ⟨o₀,_,he⟩ := List.mem_map.mp ho
    have hsub : o.subjectType = o₀.subjectType ∧ o.subjectId = o₀.subjectId := by
      rw [← he]
      split
      · split <;> exact ⟨rfl,rfl⟩
      · exact ⟨rfl,rfl⟩
    rw [About,hsub.1,hsub.2] at ha
    rw [← he,if_pos ?_] at hp
    · split at hp
      · cases hp
      · next hn => exact hn hp
    · rcases ha with ⟨ht,hi⟩ | ⟨ht,i,hi,k,hk,hkc⟩
      · simpa [ht,hi] using hc
      · obtain ⟨k₀,hk₀,hid,_⟩ := tombstonedConflict hk
        simp only [ht,hi]
        exact List.contains_iff_mem.mpr (mem_ids.mpr ⟨k₀,hk₀,by simpa [← hid,hkc] using hc⟩)

/-- Unlike the deletion of a chat, the purge of a deleted memory blanks what it selects. -/
theorem invalidateCandidates_blanked {loaded : Tables → Tables} {s : Tables}
    {operationId : OperationId} {turnIds candidateIds : List ℕ}
    {content redactContent : Option String} {now : Time}
    (hc : c ∈ (s.invalidateCandidates loaded operationId turnIds candidateIds content redactContent
      true now).2.1) :
    (s.invalidateCandidates loaded operationId turnIds candidateIds content redactContent true
      now).1.Blanked c :=
  tombstoneCandidateDerivatives_blanked hc

/-- Nothing can be read of a candidate or of what was derived from it, and none of it is open. -/
def Tables.Expunged (s : Tables) (c : ℕ) : Prop := s.Resting c ∧ s.Blanked c

theorem step_expunged {op : Op} (hs : Sound w.data) (hl : Legal w op) (h : w.data.Expunged c) :
    (step w op).data.Expunged c := by
  have hchain : Chain unrestricted w.data (step w op).data :=
    step_chain hs hl (fun _ _ _ => trivial) (answers_unrestricted w op) nofun nofun
  obtain ⟨hrest,hattempts⟩ := hchain.invariant (I := fun s => s.Resting c ∧
    ∀ a ∈ s.attempts, a.candidateId = c → a.completedAt ≠ none)
    (fun _ _ hi hm => Resting.micro hi.1 hi.2 hm) ⟨h.1,h.2.attempts⟩
  exact ⟨hrest,(step_dormant hs hl h.1).blanked h.2 hattempts⟩

omit [PyRuntime] in
theorem Tables.Blanked.congr {s s' : Tables} (h : s'.docket = s.docket)
    (ha : s'.attempts = s.attempts) (hb : s.Blanked c) : s'.Blanked c :=
  (Dormant.of_eq h).blanked hb fun a hmem => hb.attempts a (ha ▸ hmem)

omit [PyRuntime] in
/-- The candidates a chat sourced. -/
def Tables.SourcedBy (s : Tables) (chatId c : ℕ) : Prop :=
  ∃ row, s.candidates[c]? = some row ∧ row.sourceTranscriptId = chatId

omit [PyRuntime] in
/-- The deletion of a chat scrubs the rows of its candidates and no other table about them. -/
theorem deleteOwnerChat_rows {s s' : Tables} {chatId id : ℕ} {now : Time}
    (h : s.deleteOwnerChat chatId now = .ok (s',id)) : s'.attempts = s.attempts ∧
      s'.candidates = s.candidates.map fun row =>
        if row.sourceTranscriptId = chatId then invalidateWithChat now row else row := by
  unfold deleteOwnerChat at h
  split at h
  · cases h
  · extract_lets s₁ at h
    have hactive : (s₁.getOrCreateActive now).1.attempts = s₁.attempts ∧
        (s₁.getOrCreateActive now).1.candidates = s₁.candidates := by
      unfold getOrCreateActive
      split <;> exact ⟨rfl,rfl⟩
    split at h
    · rw [show s' = (s₁.getOrCreateActive now).1 from (congrArg Prod.fst (Except.ok.inj h)).symm]
      exact hactive
    · split at h
      · cases h
        exact ⟨rfl,rfl⟩
      · cases h
        exact ⟨rfl,rfl⟩

/-- The derivatives of a deleted chat's candidates are blank from then on if and only if they
were before. -/
theorem chat_erasure (h : Reachable (fun _ _ => True) w) {chatId id : ℕ} {now : Time}
    (hdel : (transact w fun s => s.deleteOwnerChat chatId now).2 = .ok id) :
    (∀ w', Trace.Path step (fun w op => Legal w op ∧ True) (step w (.deleteOwnerChat chatId now)) w' →
      ∀ c, w.data.SourcedBy chatId c → w'.data.Expunged c) ↔
    ∀ c, w.data.SourcedBy chatId c → w.data.Blanked c := by
  rcases transact_cases w fun s => s.deleteOwnerChat chatId now with ⟨e,he⟩ | ⟨s,a,hs,_,he⟩
  · rw [he] at hdel
    cases hdel
  · have hdata : (step w (.deleteOwnerChat chatId now)).data = s := congrArg (·.1.data) he
    have hdocket := deleteOwnerChat_docket hs
    obtain ⟨hattempts,hcandidates⟩ := deleteOwnerChat_rows hs
    constructor
    · intro hall c hc
      have hb := (hall _ .refl c hc).2
      rw [hdata] at hb
      exact hb.congr hdocket.symm hattempts.symm
    · intro hall w' hp c hc
      have hstart : (step w (.deleteOwnerChat chatId now)).data.Expunged c := by
        rw [hdata]
        refine ⟨?_,(hall c hc).congr hdocket hattempts⟩
        obtain ⟨row,hrow,ht⟩ := hc
        refine ⟨_,by rw [hcandidates,List.getElem?_map,hrow]; rfl,?_⟩
        dsimp only
        rw [if_pos ht]
        exact ⟨rfl,rfl⟩
      have hlegal : Legal w (.deleteOwnerChat chatId now) := fun claim hclaim => by cases hclaim
      exact hp.stable (I := fun t => t.data.Expunged c)
        (fun _ _ ht hi hok => step_expunged (reachable_sound ht) hok.1 hi)
        (h.next ⟨hlegal,trivial⟩) hstart

end

/-- A proposal that no worker has taken. -/
def proposedOnly : List Op :=
  [.getOrCreateActive 0,.appendTurn 0 .owner [textBlock "I like tea"] 1,proposed "likes tea" 0]

theorem blanked_of_empty {s : Tables} (h : (s.attempts = [] ∧ s.docket = (([],[],[],[]),[]))) (c : ℕ) :
    s.Blanked c := by
  obtain ⟨ha,h⟩ := h
  simp only [docket,shelf,Prod.mk.injEq] at h
  obtain ⟨⟨hr,hc,hd,hk⟩,ho⟩ := h
  exact ⟨by simp [ha],by simp [hr],by simp [hc],by simp [hd],by simp [hk],by simp [ho]⟩

theorem chat_erasure_proposed :
    letI := plainRuntime
    (step (step (ran proposedOnly) (.deleteOwnerChat 0 3)) (.claimBatch {} 1 {} 4)).data.Expunged 0 := by
  obtain ⟨hempty,hsource,hrun,hdel,hlegal⟩ : letI := plainRuntime
    let w := ran proposedOnly
    (w.data.attempts = [] ∧ w.data.docket = (([],[],[],[]),[])) ∧
      (∃ row : CandidateRow, w.data.candidates[0]? = some row ∧ row.sourceTranscriptId = 0) ∧
      Trace.Allowed step (fun w op => Legal w op ∧ True) emptyStore proposedOnly ∧
      (transact w fun s => s.deleteOwnerChat 0 3).2 = .ok 1 ∧
      Legal (step w (.deleteOwnerChat 0 3)) (.claimBatch {} 1 {} 4) := by
    rw [plainRuntime_eq]
    decide +kernel
  exact (@chat_erasure plainRuntime _ (@ran_reachable plainRuntime _ _ hrun) 0 1 3 hdel).mpr
    (fun c _ => blanked_of_empty hempty c) _ (.tail .refl ⟨hlegal,trivial⟩) 0 hsource

/-- A second chat contradicts a memory, and the contradiction is put before the owner. -/
def contradicted : List Op :=
  let claim : CandidateLease := ⟨1,1,1,1⟩
  let snapshot := {evaluated claim 1 1 1 [0] 1 {} with sourceTranscriptId := 1}
  remembered ++ [Op.createOwnerChat none 6,.appendTurn 1 .owner [textBlock "I hate tea"] 7,
    .enqueueMany [{
      kind := "fact"
      content := "hates tea"
      scope := "cross_chat"
      confidence := 1
      durability := "long_term"
      subject := none
      nameSpace := none
      evidenceRefs := [{turnId := some 1}]}] {sourceTranscriptId := 1, sourceTurnId := 1},
    .claimBatch {} 1 {} 8] ++
  evaluation claim snapshot 1 9 ++
  [Op.publish {} claim snapshot (conflictDecision 0) (.uuid 1) 10]

/-- The owner's acceptance of the competing claim of the first conflict, as it is on display. -/
def acceptance [PyRuntime] (s : Tables) (obligationId : ℕ) (now : Time) : Op :=
  .resolveObligation {
    obligationId := obligationId
    decision := .acceptCompeting
    reviewVersion := do
      let conflict ← s.conflicts[0]?
      let target ← s.memories[conflict.targetMemoryId]?
      (conflictReviewVersion 0 conflict target s.candidates[conflict.candidateId]?).toOption
    } none (.uuid 2) now

/-- The conflict keeps the wording of the deleted chat, and its acceptance brings it back. -/
theorem deleted_text_accepted :
    letI := plainRuntime
    let w := ran contradicted
    let w' := step w (.deleteOwnerChat 1 11)
    Reachable (fun _ _ => True) w ∧
      (transact w fun s => s.deleteOwnerChat 1 11).2 = .ok 0 ∧
      (∃ k, w'.data.conflicts[0]? = some k ∧ k.proposedContent = some "hates tea" ∧
        ∃ row, w.data.candidates[k.candidateId]? = some row ∧ row.sourceTranscriptId = 1) ∧
      ∃ row, (step w' (acceptance w'.data 1 12)).data.candidates[2]? = some row ∧
        row.status = .pending ∧ row.content = some "hates tea" := by
  refine And.imp_left (@ran_reachable plainRuntime _ _) ?_
  rw [plainRuntime_eq]
  decide +kernel

end Memory
end Atlas
