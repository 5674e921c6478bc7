import Atlas.Memory.Fencing

/-! Every operation of the memory store is a run of the candidate automaton, and every store
it leaves satisfies the constraints of the database. -/
namespace Atlas
namespace Memory

open RowTable

/-- The status changes an operation makes, apart from the answers to confirmations. -/
def Op.moves : Op → CandidateStatus → CandidateStatus → Bool
  | .deleteOwnerChat .., _, b | .retire .., _, b | .delete .., _, b => b == .invalidated
  | .claimBatch .., a, b =>
      (a == .awaitingOwner && b == .expired) || (a == .retainedShortTerm && b == .expired) ||
        ((a == .pending || a == .leased) && b == .failed) ||
        (a.queued && (b == .leased || b == .invalidated))
  | .finishEpistemicRejection .., a, b => a == .leased && b == .discarded
  | .finishPolicyBlock .., a, b => a == .leased && b == .blocked
  | .requeueAfterVersionConflict .., a, b => a == .leased && b == .pending
  | .releaseAfterConflict .., a, b | .releaseFailed .., a, b =>
      a == .leased && (b == .pending || b == .failed)
  | .publish .., a, b => (a == .leased && b.published) || b == .invalidated
  | .resolveObligation arguments .., a, b =>
      (arguments.decision == .retry && a == .failed && (b == .pending || b == .invalidated)) ||
        (a == .awaitingOwner && b == .rejected)
  | _, _, _ => false

variable [PyRuntime]

/-- The rows an operation read without a lock are the rows it writes. -/
def ReadsCurrent (loaded : Tables → Tables) (w : State) : Op → Prop
  | .releaseFailed _ claim _ _ =>
      (loaded w.data).candidates[claim.candidateId]? = w.data.candidates[claim.candidateId]? ∧
        (loaded w.data).attempts[claim.attemptId]? = w.data.attempts[claim.attemptId]?
  | op => ∀ p ∈ purgeReads loaded w op, w.data.candidates[p.1]? = some p.2

/-- No candidate gets a second pending explicit obligation or is erased with one. -/
def Bare (w : State) : Op → Prop
  | .deleteOwnerChat chatId _ => ∀ (c : ℕ) (row : CandidateRow), w.data.candidates[c]? = some row →
      row.sourceTranscriptId = chatId → w.data.explicitCount c = 0
  | .remember _ transcriptId _ | .correct _ transcriptId _ =>
      w.data.BareIntake (w.data.latestOwnerSource transcriptId)
  | .resolveObligation arguments transcriptId _ _ =>
      arguments.decision = .acceptCompeting ∨ arguments.decision = .restate →
        w.data.BareIntake (w.data.latestOwnerSource transcriptId)
  | _ => True

/-- No recorded owner assertion is overwritten while its turn is still cited. -/
def Home (w : State) : Op → Prop
  | .requeueAfterVersionConflict claim _ _ => ∀ row a, Fence w.data claim row a →
      w.data.Homely claim.candidateId row
  | .publish _ claim _ decision _ now => decision.decision = .retainShortTerm → ∀ row a,
      w.data.lockedLiveClaim claim now = .ok (row,a) → w.data.Homely claim.candidateId row
  | .resolveObligation arguments _ _ now => ∀ p, w.data.confirmedCandidate arguments now = some p ∨
      w.data.retriedCandidate arguments = some p → w.data.Homely p.1 p.2
  | _ => True

instance (s : Tables) (source : OwnerSource) : Decidable (s.BareIntake source) :=
  inferInstanceAs (Decidable (∀ turnId, source.2 = some turnId → ∀ c,
    s.reconcilableByHash (evidenceSetHash [(turnId,"")]) = some c → s.explicitCount c = 0))

instance (w : State) (op : Op) : Decidable (Bare w op) := by
  apply @Op.casesOn (fun op => Decidable (Bare w op)) op <;> intros <;> dsimp only [Bare] <;>
    infer_instance

instance (s : Tables) (c : ℕ) (row : CandidateRow) : Decidable (s.Homely c row) := by
  unfold Tables.Homely
  infer_instance

omit [PyRuntime] in
theorem fence_iff (s : Tables) (claim : CandidateLease) (row : CandidateRow) (a : AttemptRow) :
    Fence s claim row a ↔ s.candidates[claim.candidateId]? = some row ∧
      s.attempts[claim.attemptId]? = some a ∧ Tables.holdsClaim claim row a = true :=
  ⟨fun h => ⟨h.candidate,h.attempt,by
    simp [Tables.holdsClaim,h.opened,h.status,h.token,h.version]⟩,
    fun h => Tables.holdsClaim_fence h.1 h.2.1 h.2.2⟩

instance (s : Tables) (claim : CandidateLease) (p : CandidateRow → AttemptRow → Prop)
    [∀ row a, Decidable (p row a)] : Decidable (∀ row a, Fence s claim row a → p row a) :=
  decidable_of_iff (∀ row, s.candidates[claim.candidateId]? = some row → ∀ a,
      s.attempts[claim.attemptId]? = some a → Tables.holdsClaim claim row a = true → p row a)
    ⟨fun h row a hf => h row hf.candidate a hf.attempt ((fence_iff s claim row a).mp hf).2.2,
      fun h row hc a ha hh => h row a ((fence_iff s claim row a).mpr ⟨hc,ha,hh⟩)⟩

instance decidableForallPair {ε α β : Type*} (x : Except ε (α × β)) (p : α → β → Prop)
    [∀ a b, Decidable (p a b)] :
    Decidable (∀ a b, x = .ok (a,b) → p a b) :=
  match x with
  | .error _ => .isTrue nofun
  | .ok (a,b) => decidable_of_iff (p a b) ⟨fun h _ _ he => by cases he; exact h,fun h => h a b rfl⟩

instance decidableForallEither {α : Type*} (o o' : Option α) (p : α → Prop) [DecidablePred p] :
    Decidable (∀ a, o = some a ∨ o' = some a → p a) :=
  decidable_of_iff ((∀ a, o = some a → p a) ∧ ∀ a, o' = some a → p a)
    ⟨fun h a ha => ha.elim (h.1 a) (h.2 a),fun h => ⟨fun a ha => h a (Or.inl ha),
      fun a ha => h a (Or.inr ha)⟩⟩

instance (w : State) (op : Op) : Decidable (Home w op) := by
  apply @Op.casesOn (fun op => Decidable (Home w op)) op <;> intros <;> dsimp only [Home] <;>
    infer_instance

/-- A confirmation is answered only while its candidate awaits the owner. -/
def Answered (w : State) : Op → Prop
  | .resolveObligation arguments _ _ _ => ∀ p, w.data.decidedCandidate arguments = some p →
      p.2.status = .awaitingOwner
  | _ => True

instance (w : State) (op : Op) : Decidable (Answered w op) := by
  apply @Op.casesOn (fun op => Decidable (Answered w op)) op <;> intros <;> dsimp only [Answered] <;>
    infer_instance

/-- The status changes that answers to confirmations make are allowed. -/
def Answers (P : Policy) (w : State) : Op → Prop
  | .resolveObligation arguments _ _ _ => ∀ p, w.data.decidedCandidate arguments = some p →
      ∀ b, b = .pending ∨ b = .rejected ∨ b = .expired → P.moves p.2.status b
  | _ => True

theorem publish_chain {P : Policy} {w : State} {config : PublisherConfig}
    {claim : CandidateLease} {snapshot : EvaluationSnapshot} {decision : ReconciliationDecision}
    {operationId : OperationId} {now : Time} (hi : Issued w.data claim)
    (hm : ∀ b, b.published = true → P.moves .leased b) (hx : ∀ a, P.moves a .invalidated)
    (hh : decision.decision = .retainShortTerm → P.home → ∀ row a,
      w.data.lockedLiveClaim claim now = .ok (row,a) → w.data.Homely claim.candidateId row) :
    Chain P w.data (publish w config claim snapshot decision operationId now).world.data := by
  refine execute_chain _ fun version outcome s h => ?_
  obtain ⟨⟨s₁,pub⟩,hc,h⟩ := map_ok h
  cases h
  obtain ⟨⟨s₂,pub₂⟩,hp,hr⟩ := bind_ok hc
  split at hr
  · cases hr
    exact Tables.publishAndSettle_chain hi hp hm hx hh
  · cases hr

/-- Every operation is a run of elementary changes. -/
theorem stepLoaded_chain {P : Policy} {loaded : Tables → Tables} {w : State} {op : Op}
    (hl : Legal w op) (hr : ReadsCurrent loaded w op)
    (hfresh : w.data.explicitCount w.data.candidates.length = 0)
    (hm : ∀ a b, op.moves a b = true → P.moves a b) (ha : Answers P w op)
    (hb : P.bare → Bare w op) (hh : P.home → Home w op) :
    Chain P w.data (stepLoaded loaded w op).data := by
  cases op with
  | createOwnerChat title now =>
    exact transact_chain fun s a h => by
      cases h
      exact (Tables.createOwnerChat_frame _ _ _).chain
  | activateOwnerChat chatId now =>
    exact transact_chain fun s a h => (Tables.activateOwnerChat_frame h).chain
  | getOrCreateActive now =>
    exact transact_chain fun s a h => by
      rw [show s = (w.data.getOrCreateActive now).1 from (congrArg Prod.fst (Except.ok.inj h)).symm]
      exact (Tables.getOrCreateActive_frame _ _).chain
  | appendTurn transcriptId actor blocks now =>
    exact transact_chain fun s a h => (Tables.appendTurn_frame h).chain
  | deleteOwnerChat chatId now =>
    exact transact_chain fun s a h =>
      Tables.deleteOwnerChat_chain h (fun a => Or.inr (hm a _ rfl)) hb
  | enqueueMany proposals source =>
    exact transact_chain fun s a h => by
      cases h
      exact Tables.enqueueMany_chain _ _ _
  | remember arguments transcriptId now => exact remember_chain arguments transcriptId now hfresh hb
  | correct arguments transcriptId now => exact correct_chain arguments transcriptId now hfresh hb
  | claimBatch config limit locks now =>
    refine transact_chain fun s a h => ?_
    rw [show s = (w.data.claimBatch config limit locks now).1 from
      (congrArg Prod.fst (Except.ok.inj h)).symm]
    refine Tables.claimBatch_chain (hm _ _ rfl) (hm _ _ rfl) (fun a ha => hm _ _ ?_)
      (fun a ha => hm _ _ ?_) (fun a ha => hm _ _ ?_) _ _ _ _ _
    · rcases ha with rfl | rfl <;> rfl
    · simp [Op.moves,ha]
    · simp [Op.moves,ha]
  | persistReading claim snapshot reading model now =>
    exact transact_chain fun s a h => Tables.persistReading_chain (hl claim rfl) h
  | persistComparison claim readingId comparison now =>
    exact transact_chain fun s a h => Tables.persistComparison_chain (hl claim rfl) h
  | persistReconciliation claim comparisonId snapshot relation now =>
    exact transact_chain fun s a h => Tables.persistReconciliation_chain (hl claim rfl) h
  | persistPolicy claim recordId policy reason now =>
    exact transact_chain fun s a h => Tables.persistPolicy_chain (hl claim rfl) h
  | finishEpistemicRejection claim code now =>
    exact transact_chain fun s a h => Tables.finish_chain (hl claim rfl) h (hm _ _ rfl) rfl
  | finishPolicyBlock claim code now =>
    exact transact_chain fun s a h => Tables.finish_chain (hl claim rfl) h (hm _ _ rfl) rfl
  | requeueAfterVersionConflict claim snapshot now =>
    exact transact_chain fun s a h => by
      cases h
      exact Tables.requeueAfterVersionConflict_chain (hl claim rfl) (hm _ _ rfl) hh
  | releaseAfterConflict maxAttempts claim code now =>
    exact transact_chain fun s a h => by
      cases h
      exact Tables.releaseAfterConflict_chain (hl claim rfl) (hm _ _ rfl) (hm _ _ rfl)
  | releaseFailed maxAttempts claim code now =>
    exact transact_chain fun s a h => by
      cases h
      rw [Tables.releaseFailed_congr hr.1 hr.2]
      exact Tables.releaseFailed_chain (hl claim rfl) (hm _ _ rfl) (hm _ _ rfl)
  | publish config claim snapshot decision operationId now =>
    refine publish_chain (hl claim rfl) (fun b hb => hm _ _ ?_) (fun a => hm _ _ ?_)
      (fun hd hhome => hh hhome hd)
    · simp [Op.moves,hb]
    · simp [Op.moves]
  | retire arguments transcriptId now => exact retire_chain hr fun a => hm a _ rfl
  | restore memoryId transcriptId now => exact restore_chain memoryId transcriptId now
  | delete arguments transcriptId now => exact delete_chain hr fun a => hm a _ rfl
  | resolveObligation arguments transcriptId operationId now =>
    refine resolveObligation_chain (fun hd => ⟨hm _ _ ?_,hm _ _ ?_⟩) (hm _ _ ?_) ha hh hfresh hb
    · simp [Op.moves,hd]
    · simp [Op.moves,hd]
    · simp [Op.moves]

omit [PyRuntime] in
theorem transact_consistent {α : Type*} {w : State} (tx : Tables → Except Failure (Tables × α))
    (h : w.data.consistent = true) : (transact w tx).1.data.consistent = true := by
  rcases transact_cases w tx with ⟨e,he⟩ | ⟨s,a,_,hs,he⟩
  · rw [he]
    exact h
  · rw [he]
    exact hs

theorem execute_consistent {w : State} (envelope : SharedWrites.Envelope OperationId)
    {mutation : Tables → ℕ → Except Failure (SharedWrites.Mutation Dict × Tables)}
    (hm : ∀ s version outcome s', mutation s version = .ok (outcome,s') → s'.consistent = true)
    (h : w.data.consistent = true) :
    (SharedWrites.execute w envelope mutation).world.data.consistent = true := by
  rcases execute_data w envelope mutation with he | ⟨outcome,he⟩
  · rw [he]
    exact h
  · exact hm _ _ _ _ he

theorem runCommand_consistent {w : State} (operation : String) (arguments : Dict)
    (source : OwnerSource) (hb : 1 ≤ operation.length ∧ operation.length ≤ 64) (now : Time)
    (mutate : ℕ → Tables → Except Failure (Tables × Applied)) (h : w.data.consistent = true) :
    (runCommand w operation arguments source hb now mutate).1.data.consistent = true := by
  unfold runCommand
  rcases transact_cases w fun s => .ok (s.beginCommand operation arguments source) with
    ⟨e,he⟩ | ⟨s,commandId,_,hs,he⟩
  · rw [he]
    exact h
  · rw [he]
    have hrun : (SharedWrites.execute {w with data := s}
        (lifecycleEnvelope commandId operation source hb)
        (memoryMutation (mutate commandId))).world.data.consistent = true :=
      execute_consistent _ (fun _ _ _ _ hm => (memoryMutation_ok hm).1) hs
    dsimp only
    split
    · exact hrun
    · exact transact_consistent _ hrun

/-- The store after an operation satisfies the constraints. -/
theorem stepLoaded_consistent (loaded : Tables → Tables) {w : State} (op : Op)
    (h : w.data.consistent = true) : (stepLoaded loaded w op).data.consistent = true := by
  have hfail : ∀ (operation : String) (source : OwnerSource) (reason : String) (now : Time),
      (intakeFailure w operation source reason now).1.data.consistent = true :=
    fun _ _ _ _ => transact_consistent _ h
  have hqueue : ∀ (c : ExplicitCommand) (source : OwnerSource) (now : Time),
      (queueExplicitContentCommand w c source now).1.data.consistent = true := by
    intro c source now
    unfold queueExplicitContentCommand
    split
    · exact hfail ..
    · have hq := transact_consistent (fun s => s.queueExplicitContentCommandIn c source now) h
      split
      · next hw =>
        rw [hw] at hq
        exact hq
      · exact hfail ..
  cases op with
  | remember arguments transcriptId now =>
    change (remember w arguments transcriptId now).1.data.consistent = true
    unfold remember
    extract_lets source
    split
    · exact h
    · split
      · exact h
      · exact hqueue ..
  | correct arguments transcriptId now =>
    change (correct w arguments transcriptId now).1.data.consistent = true
    unfold correct
    extract_lets source changeType
    split
    · exact h
    · exact h
    · split
      · exact h
      · split
        · exact h
        · split
          · exact hfail ..
          · exact hqueue ..
  | publish config claim snapshot decision operationId now =>
    refine execute_consistent _ (fun s version outcome s' hs => ?_) h
    obtain ⟨⟨s₁,pub⟩,hc,hs⟩ := map_ok hs
    cases hs
    obtain ⟨⟨s₂,pub₂⟩,_,hr⟩ := bind_ok hc
    split at hr
    · next hcons =>
      cases hr
      exact hcons
    · cases hr
  | retire arguments transcriptId now =>
    change (retire w loaded arguments transcriptId now).1.data.consistent = true
    unfold retire
    split
    · exact h
    · split
      · exact h
      · exact runCommand_consistent _ _ _ _ _ _ h
  | restore memoryId transcriptId now => exact runCommand_consistent _ _ _ _ _ _ h
  | delete arguments transcriptId now =>
    change (delete w loaded arguments transcriptId now).1.data.consistent = true
    unfold delete
    extract_lets scope
    split
    · exact h
    · split
      · exact h
      · split
        · exact h
        · exact runCommand_consistent _ _ _ _ _ _ h
  | resolveObligation arguments transcriptId operationId now =>
    change (resolveObligation w arguments transcriptId operationId now).1.data.consistent = true
    unfold resolveObligation
    extract_lets source changeType r
    split
    · exact h
    · split
      · split
        · exact h
        · split
          · exact h
          · exact execute_consistent _ (fun _ _ _ _ hs => (decisionMutation_ok hs).1) h
      · split
        · exact h
        · split
          · split
            · exact h
            · exact execute_consistent _ (fun _ _ _ _ hs => (decisionMutation_ok hs).1) h
          · exact transact_consistent _ h
  | _ => exact transact_consistent _ h

/-- The policy that permits everything and promises nothing. -/
def unrestricted : Policy := ⟨fun _ _ => True,False,False⟩

theorem readsCurrent_id (w : State) (op : Op) : ReadsCurrent id w op := by
  cases op with
  | releaseFailed => exact ⟨rfl,rfl⟩
  | _ => exact purgeReads_id w _

theorem answers_unrestricted (w : State) (op : Op) : Answers unrestricted w op := by
  cases op with
  | resolveObligation => exact fun _ _ _ _ => trivial
  | _ => trivial

/-- Every operation that read current rows is a run of elementary changes. -/
theorem stepLoaded_unrestricted {loaded : Tables → Tables} {w : State} {op : Op} (hl : Legal w op)
    (hr : ReadsCurrent loaded w op) (hw : Wellformed w.data) :
    Chain unrestricted w.data (stepLoaded loaded w op).data :=
  stepLoaded_chain hl hr hw.fresh (fun _ _ _ => trivial) (answers_unrestricted w op) nofun nofun

/-- What holds of every store, whatever decisions the owner takes. -/
structure Sound (s : Tables) : Prop where
  consistent : s.consistent = true
  wellformed : Wellformed s
  versioned : Versioned s

theorem Sound.stepLoaded {loaded : Tables → Tables} {w : State} {op : Op} (h : Sound w.data)
    (hl : Legal w op) (hr : ReadsCurrent loaded w op) : Sound (stepLoaded loaded w op).data where
  consistent := stepLoaded_consistent loaded op h.consistent
  wellformed := (stepLoaded_unrestricted hl hr h.wellformed).invariant
    (fun _ _ => Wellformed.micro) h.wellformed
  versioned := (stepLoaded_unrestricted hl hr h.wellformed).invariant
    (fun _ _ => Versioned.micro) h.versioned

omit [PyRuntime] in
theorem Initial.no_candidate {w : State} (h : Initial w) (c : ℕ) : w.data.candidates[c]? = none := by
  rw [h.candidates]
  rfl

omit [PyRuntime] in
theorem Initial.named {w : State} (h : Initial w) (c : ℕ) : w.data.namedCount c = 0 := by
  rw [Tables.namedCount,List.countP_eq_zero]
  intro o ho
  simp [ObligationRow.explicitAbout,(h.reviews o ho).2]

omit [PyRuntime] in
theorem Initial.count {w : State} (h : Initial w) (c : ℕ) : w.data.explicitCount c = 0 :=
  Nat.le_zero.mp (h.named c ▸ w.data.explicitCount_le_named c)

omit [PyRuntime] in
theorem Initial.sound {w : State} (h : Initial w) : Sound w.data where
  consistent := h.consistent
  wellformed :=
    { cited := fun e he => by
        rw [h.evidence] at he
        cases he
      citing := fun c hc => by
        rw [h.no_candidate] at hc
        cases hc
      hash := fun c row hrow => by
        rw [h.no_candidate] at hrow
        cases hrow
      named := fun c hc => absurd (h.named c) hc }
  versioned := by
    constructor <;> intros <;> simp_all [h.attempts,h.candidates]

theorem reachable_sound {ok : State → Op → Prop} {w : State} (h : Reachable ok w) : Sound w.data :=
  h.invariant (fun _ => Initial.sound) fun w op hs hok => hs.stepLoaded hok.1 (readsCurrent_id w op)

/-- A step of a run as a run of elementary changes under the conditions it was taken. -/
theorem step_chain {P : Policy} {w : State} {op : Op} (hs : Sound w.data) (hl : Legal w op)
    (hm : ∀ a b, op.moves a b = true → P.moves a b) (ha : Answers P w op)
    (hb : P.bare → Bare w op) (hh : P.home → Home w op) : Chain P w.data (step w op).data :=
  stepLoaded_chain hl (readsCurrent_id w op) hs.wellformed.fresh hm ha hb hh

/-- An invariant of the stores of a run may rely on what holds of every store. -/
theorem reachable_invariant {ok : State → Op → Prop} {I : Tables → Prop}
    (hinit : ∀ w, Initial w → I w.data)
    (hstep : ∀ w op, Sound w.data → Legal w op → ok w op → I w.data → I (step w op).data)
    {w : State} (h : Reachable ok w) : I w.data := by
  induction h with
  | start hi => exact hinit _ hi
  | next hr hok ih => exact hstep _ _ (reachable_sound hr) hok.1 hok.2 ih

end Memory
end Atlas
