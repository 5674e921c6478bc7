import Atlas.Memory.Runs

/-! The transactions an operation is made of. Every operation runs one body, a lifecycle command
begins with a row of its own and fails with another, and only a consistent result is kept. -/
namespace Atlas
namespace Memory

/-- The operations that record a command row before they run. -/
def Op.command : Op → Bool
  | .retire .. | .restore .. | .delete .. => true
  | _ => false

/-- The operations whose intake can fail visibly. -/
def Op.intake : Op → Bool
  | .remember .. | .correct .. => true
  | _ => false

variable [PyRuntime]

/-- What a transaction of an operation makes of the tables, before they are checked. -/
inductive Body (loaded : Tables → Tables) (s : Tables) : Op → Tables → Prop
  | createOwnerChat {title now} :
      Body loaded s (.createOwnerChat title now) (s.createOwnerChat title now).1
  | activateOwnerChat {chatId now s' id} : s.activateOwnerChat chatId now = .ok (s',id) →
      Body loaded s (.activateOwnerChat chatId now) s'
  | getOrCreateActive {now} : Body loaded s (.getOrCreateActive now) (s.getOrCreateActive now).1
  | appendTurn {transcriptId actor blocks now s' id} :
      s.appendTurn transcriptId actor blocks now = .ok (s',id) →
      Body loaded s (.appendTurn transcriptId actor blocks now) s'
  | deleteOwnerChat {chatId now s' id} : s.deleteOwnerChat chatId now = .ok (s',id) →
      Body loaded s (.deleteOwnerChat chatId now) s'
  | enqueueMany {proposals source} :
      Body loaded s (.enqueueMany proposals source) (s.enqueueMany proposals source)
  | intakeFailed {op operation source reason now} : op.intake = true →
      Body loaded s op (s.recordExplicitIntakeFailure operation source reason now).1
  | remember {arguments transcriptId now c source s' q} :
      s.queueExplicitContentCommandIn c source now = .ok (s',q) →
      Body loaded s (.remember arguments transcriptId now) s'
  | correct {arguments transcriptId now c source s' q} :
      s.queueExplicitContentCommandIn c source now = .ok (s',q) →
      Body loaded s (.correct arguments transcriptId now) s'
  | claimBatch {config limit locks now} :
      Body loaded s (.claimBatch config limit locks now) (s.claimBatch config limit locks now).1
  | persistReading {claim snapshot reading model now s' id} :
      s.persistReading claim snapshot reading model now = .ok (s',id) →
      Body loaded s (.persistReading claim snapshot reading model now) s'
  | persistComparison {claim readingId comparison now s' id} :
      s.persistComparison claim readingId comparison now = .ok (s',id) →
      Body loaded s (.persistComparison claim readingId comparison now) s'
  | persistReconciliation {claim comparisonId snapshot relation now s' id} :
      s.persistReconciliation claim comparisonId snapshot relation now = .ok (s',id) →
      Body loaded s (.persistReconciliation claim comparisonId snapshot relation now) s'
  | persistPolicy {claim recordId policy reason now s' id} :
      s.persistPolicy claim recordId policy reason now = .ok (s',id) →
      Body loaded s (.persistPolicy claim recordId policy reason now) s'
  | finishEpistemicRejection {claim code now s' u} :
      s.finishEpistemicRejection claim code now = .ok (s',u) →
      Body loaded s (.finishEpistemicRejection claim code now) s'
  | finishPolicyBlock {claim code now s' u} : s.finishPolicyBlock claim code now = .ok (s',u) →
      Body loaded s (.finishPolicyBlock claim code now) s'
  | requeueAfterVersionConflict {claim snapshot now} :
      Body loaded s (.requeueAfterVersionConflict claim snapshot now)
        (s.requeueAfterVersionConflict claim snapshot now)
  | releaseAfterConflict {maxAttempts claim code now} :
      Body loaded s (.releaseAfterConflict maxAttempts claim code now)
        (s.releaseAfterConflict maxAttempts claim code now)
  | releaseFailed {maxAttempts claim code now} :
      Body loaded s (.releaseFailed maxAttempts claim code now)
        (Tables.releaseFailed (loaded s) s maxAttempts claim code now)
  | publish {config claim snapshot decision operationId now s' pub} :
      s.publishAndSettle config.clamped claim snapshot decision operationId now = .ok (s',pub) →
      Body loaded s (.publish config claim snapshot decision operationId now) s'
  | began {op operation arguments source} : op.command = true →
      Body loaded s op (s.beginCommand operation arguments source).1
  | failed {op commandId e now s'} : op.command = true → s.failCommand commandId e now = .ok s' →
      Body loaded s op s'
  | retire {arguments transcriptId now content source commandId s' applied} :
      s.retireMutate loaded arguments.memoryId content source now commandId = .ok (s',applied) →
      Body loaded s (.retire arguments transcriptId now) s'
  | restore {memoryId transcriptId now commandId s' applied} :
      s.restoreMutate memoryId now commandId = .ok (s',applied) →
      Body loaded s (.restore memoryId transcriptId now) s'
  | delete {arguments transcriptId now content source commandId s' applied} :
      s.deleteMutate loaded arguments.memoryId content arguments.effectiveScope source now commandId =
        .ok (s',applied) →
      Body loaded s (.delete arguments transcriptId now) s'
  | resolveConflict {arguments transcriptId operationId now changeType source s' r} :
      s.resolveConflictMutate arguments changeType source now = .ok (s',r) →
      Body loaded s (.resolveObligation arguments transcriptId operationId now) s'
  | resolveReview {arguments transcriptId operationId now s' r} :
      s.resolveReviewMutate arguments now = .ok (s',r) →
      Body loaded s (.resolveObligation arguments transcriptId operationId now) s'
  | resolveObligationIn {arguments transcriptId operationId now source s' r} :
      s.resolveObligationIn arguments source now = .ok (s',r) →
      Body loaded s (.resolveObligation arguments transcriptId operationId now) s'

/-- A committed transaction of an operation. -/
def Commits (loaded : Tables → Tables) (op : Op) (s s' : Tables) : Prop :=
  Body loaded s op s' ∧ s'.consistent = true

/-- The committed transactions of an operation, one after another. -/
abbrev Committed (loaded : Tables → Tables) (op : Op) : Tables → Tables → Prop :=
  Relation.ReflTransGen (Commits loaded op)

section

variable {loaded : Tables → Tables} {op : Op} {w : State}

theorem transact_committed {α : Type*} {tx : Tables → Except Failure (Tables × α)}
    (h : ∀ s a, tx w.data = .ok (s,a) → Body loaded w.data op s) :
    Committed loaded op w.data (transact w tx).1.data := by
  rcases transact_cases w tx with ⟨e,he⟩ | ⟨s,a,hs,hc,he⟩
  · rw [he]
  · rw [he]
    exact .single ⟨h s a hs,hc⟩

theorem execute_committed {envelope : SharedWrites.Envelope OperationId}
    {mutation : Tables → ℕ → Except Failure (SharedWrites.Mutation Dict × Tables)}
    (h : ∀ version outcome s, mutation w.data version = .ok (outcome,s) →
      Commits loaded op w.data s) :
    Committed loaded op w.data (SharedWrites.execute w envelope mutation).world.data := by
  rcases execute_data w envelope mutation with he | ⟨outcome,he⟩
  · rw [he]
  · exact .single (h _ _ _ he)

theorem runCommand_committed {operation : String} {arguments : Dict} {source : OwnerSource}
    {hb : 1 ≤ operation.length ∧ operation.length ≤ 64} {now : Time}
    {mutate : ℕ → Tables → Except Failure (Tables × Applied)} (hop : op.command = true)
    (h : ∀ s commandId s' applied, mutate commandId s = .ok (s',applied) → Body loaded s op s') :
    Committed loaded op w.data (runCommand w operation arguments source hb now mutate).1.data := by
  unfold runCommand
  rcases transact_cases w fun s => .ok (s.beginCommand operation arguments source) with
    ⟨e,he⟩ | ⟨s,commandId,hs,hc,he⟩
  · rw [he]
  · rw [he]
    cases hs
    dsimp only
    have hrun := Relation.ReflTransGen.trans (Relation.ReflTransGen.single ⟨.began hop,hc⟩)
      (@execute_committed _ loaded op {w with data := (w.data.beginCommand operation arguments source).1}
        (lifecycleEnvelope w.data.commands.length operation source hb)
        (memoryMutation (mutate w.data.commands.length)) fun version outcome s hs => by
          obtain ⟨hc,applied,hm⟩ := memoryMutation_ok hs
          exact ⟨h _ _ _ _ hm,hc⟩)
    split
    · exact hrun
    · refine hrun.trans (transact_committed fun s u hs => ?_)
      obtain ⟨s₁,hf,hs⟩ := map_ok hs
      cases hs
      exact .failed hop hf

theorem intakeFailure_committed (hop : op.intake = true) (operation : String) (source : OwnerSource)
    (reason : String) (now : Time) :
    Committed loaded op w.data (intakeFailure w operation source reason now).1.data :=
  transact_committed fun s a h => by
    cases h
    exact .intakeFailed hop

theorem queueExplicitContentCommand_committed (hop : op.intake = true) {c : ExplicitCommand}
    {source : OwnerSource} {now : Time}
    (h : ∀ s q, w.data.queueExplicitContentCommandIn c source now = .ok (s,q) →
      Body loaded w.data op s) :
    Committed loaded op w.data (queueExplicitContentCommand w c source now).1.data := by
  unfold queueExplicitContentCommand
  split
  · exact intakeFailure_committed hop _ _ _ _
  · have hq : Committed loaded op w.data
        (transact w fun s => s.queueExplicitContentCommandIn c source now).1.data :=
      transact_committed h
    split
    · next w' q hw =>
      rw [hw] at hq
      exact hq
    · exact intakeFailure_committed hop _ _ _ _

end

/-- Every operation is a run of its own committed transactions. -/
theorem stepLoaded_committed (loaded : Tables → Tables) (w : State) (op : Op) :
    Committed loaded op w.data (stepLoaded loaded w op).data := by
  cases op with
  | createOwnerChat title now => exact transact_committed fun s a h => by cases h; exact .createOwnerChat
  | activateOwnerChat chatId now => exact transact_committed fun s a h => .activateOwnerChat h
  | getOrCreateActive now =>
    exact transact_committed fun s a h => by
      rw [show s = (w.data.getOrCreateActive now).1 from (congrArg Prod.fst (Except.ok.inj h)).symm]
      exact .getOrCreateActive
  | appendTurn transcriptId actor blocks now => exact transact_committed fun s a h => .appendTurn h
  | deleteOwnerChat chatId now => exact transact_committed fun s a h => .deleteOwnerChat h
  | enqueueMany proposals source => exact transact_committed fun s a h => by cases h; exact .enqueueMany
  | remember arguments transcriptId now =>
    change Committed loaded _ w.data (remember w arguments transcriptId now).1.data
    unfold remember
    extract_lets source
    split
    · exact .refl
    · split
      · exact .refl
      · exact queueExplicitContentCommand_committed rfl fun s q h => .remember h
  | correct arguments transcriptId now =>
    change Committed loaded _ w.data (correct w arguments transcriptId now).1.data
    unfold correct
    extract_lets source changeType
    split
    · exact .refl
    · exact .refl
    · split
      · exact .refl
      · split
        · exact .refl
        · split
          · exact intakeFailure_committed rfl _ _ _ _
          · exact queueExplicitContentCommand_committed rfl fun s q h => .correct h
  | claimBatch config limit locks now =>
    refine transact_committed fun s a h => ?_
    rw [show s = (w.data.claimBatch config limit locks now).1 from
      (congrArg Prod.fst (Except.ok.inj h)).symm]
    exact .claimBatch
  | persistReading claim snapshot reading model now =>
    exact transact_committed fun s a h => .persistReading h
  | persistComparison claim readingId comparison now =>
    exact transact_committed fun s a h => .persistComparison h
  | persistReconciliation claim comparisonId snapshot relation now =>
    exact transact_committed fun s a h => .persistReconciliation h
  | persistPolicy claim recordId policy reason now =>
    exact transact_committed fun s a h => .persistPolicy h
  | finishEpistemicRejection claim code now =>
    exact transact_committed fun s a h => .finishEpistemicRejection h
  | finishPolicyBlock claim code now => exact transact_committed fun s a h => .finishPolicyBlock h
  | requeueAfterVersionConflict claim snapshot now =>
    exact transact_committed fun s a h => by cases h; exact .requeueAfterVersionConflict
  | releaseAfterConflict maxAttempts claim code now =>
    exact transact_committed fun s a h => by cases h; exact .releaseAfterConflict
  | releaseFailed maxAttempts claim code now =>
    exact transact_committed fun s a h => by cases h; exact .releaseFailed
  | publish config claim snapshot decision operationId now =>
    refine execute_committed fun version outcome s h => ?_
    obtain ⟨⟨s₁,pub⟩,hc,h⟩ := map_ok h
    cases h
    obtain ⟨⟨s₂,pub₂⟩,hp,hr⟩ := bind_ok hc
    split at hr
    · next hcons =>
      cases hr
      exact ⟨.publish hp,hcons⟩
    · cases hr
  | retire arguments transcriptId now =>
    change Committed loaded _ w.data (retire w loaded arguments transcriptId now).1.data
    unfold retire
    split
    · exact .refl
    · split
      · exact .refl
      · exact runCommand_committed rfl fun s commandId s' applied h => .retire h
  | restore memoryId transcriptId now =>
    exact runCommand_committed rfl fun s commandId s' applied h => .restore h
  | delete arguments transcriptId now =>
    change Committed loaded _ w.data (delete w loaded arguments transcriptId now).1.data
    unfold delete
    extract_lets scope
    split
    · exact .refl
    · split
      · exact .refl
      · split
        · exact .refl
        · exact runCommand_committed rfl fun s commandId s' applied h => .delete h
  | resolveObligation arguments transcriptId operationId now =>
    change Committed loaded _ w.data (resolveObligation w arguments transcriptId operationId now).1.data
    unfold resolveObligation
    extract_lets source changeType r
    split
    · exact .refl
    · split
      · split
        · exact .refl
        · split
          · exact .refl
          · refine execute_committed fun version outcome s h => ?_
            obtain ⟨hc,r,h⟩ := decisionMutation_ok h
            exact ⟨.resolveConflict h,hc⟩
      · split
        · exact .refl
        · split
          · split
            · exact .refl
            · refine execute_committed fun version outcome s h => ?_
              obtain ⟨hc,r,h⟩ := decisionMutation_ok h
              exact ⟨.resolveReview h,hc⟩
          · exact transact_committed fun s r h => .resolveObligationIn h

end Memory
end Atlas
