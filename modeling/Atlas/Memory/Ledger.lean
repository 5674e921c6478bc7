import Atlas.Memory.LedgerCommands
import Atlas.Memory.Transitions

/-! The attempt ledger and the version column over runs: when every candidate's open attempt
follows its lease, and when every status change comes under a new version. -/
namespace Atlas
namespace Memory

open RowTable

section

variable [PyRuntime] {B : Books} {w : State}

/-- No candidate is ended from outside while a worker holds it, and no expired lease publishes. -/
def Settles (w : State) : Op → Prop
  | .deleteOwnerChat chatId _ => ∀ row ∈ w.data.candidates, row.sourceTranscriptId = chatId →
      row.status ≠ .leased
  | .publish _ claim _ _ _ now => ∀ row a, Fence w.data claim row a →
      row.leasedUntil.any (now < ·) = true
  | .retire arguments transcriptId now =>
      ∀ p ∈ purgeReads id w (.retire arguments transcriptId now), p.2.status ≠ .leased
  | .resolveObligation arguments _ _ _ => ∀ p, w.data.decidedCandidate arguments = some p →
      p.2.status ≠ .leased
  | _ => True

/-- No candidate is invalidated under its old version. -/
def Bumps (w : State) : Op → Prop
  | .publish _ claim _ _ _ now => ∀ row a, Fence w.data claim row a →
      row.leasedUntil.any (now < ·) = true → w.data.evidenceLive claim.candidateId row = true
  | .retire arguments transcriptId now =>
      ∀ p ∈ purgeReads id w (.retire arguments transcriptId now),
        p.2.invalidatedAt ≠ none → p.2.status = .invalidated
  | .delete arguments transcriptId now =>
      ∀ p ∈ purgeReads id w (.delete arguments transcriptId now),
        p.2.invalidatedAt ≠ none → p.2.status = .invalidated
  | _ => True

instance (w : State) (op : Op) : Decidable (Settles w op) := by
  apply @Op.casesOn (fun op => Decidable (Settles w op)) op <;> intros <;> dsimp only [Settles] <;>
    infer_instance

instance (w : State) (op : Op) : Decidable (Bumps w op) := by
  apply @Op.casesOn (fun op => Decidable (Bumps w op)) op <;> intros <;> dsimp only [Bumps] <;>
    infer_instance

/-- The transactions of an intake post. -/
theorem Committed.posts {loaded : Tables → Tables} {op : Op} {s s' : Tables}
    (h : Committed loaded op s s') (hb : ∀ t t', Body loaded t op t' → Posts B t t') :
    Posts B s s' := by
  induction h with
  | refl => exact .refl s
  | tail _ hc ih => exact ih.trans (hb _ _ hc.1)

omit [PyRuntime] in
theorem recordExplicitIntakeFailure_posts (s : Tables) (operation : String) (source : OwnerSource)
    (reason : String) (now : Time) :
    Posts B s (s.recordExplicitIntakeFailure operation source reason now).1 := .of_eq rfl rfl

theorem retire_posts {arguments : RetireArguments} {transcriptId : Option ℕ} {now : Time}
    (hp : Tables.Purgeable B false (purgeReads id w (.retire arguments transcriptId now))) :
    Posts B w.data (retire w id arguments transcriptId now).1.data := by
  have hread := purgeReads_id w (.retire arguments transcriptId now)
  unfold purgeReads at hread hp
  unfold retire
  split
  · exact .refl _
  · next content hc =>
    simp only [hc] at hread hp
    split
    · exact .refl _
    · refine runCommand_rel .refl .trans ?_ (fun s' applied h => Tables.retireMutate_posts h hread hp)
        Tables.failCommand_posts
      exact .of_eq rfl rfl

theorem delete_posts {arguments : DeleteArguments} {transcriptId : Option ℕ} {now : Time}
    (hp : Tables.Purgeable B true (purgeReads id w (.delete arguments transcriptId now))) :
    Posts B w.data (delete w id arguments transcriptId now).1.data := by
  have hread := purgeReads_id w (.delete arguments transcriptId now)
  unfold purgeReads at hread hp
  unfold delete
  extract_lets scope
  split
  · exact .refl _
  · next content hc =>
    simp only [hc] at hread hp
    split
    · exact .refl _
    · split
      · exact .refl _
      · refine runCommand_rel .refl .trans ?_
          (fun s' applied h => Tables.deleteMutate_posts h hread hp) Tables.failCommand_posts
        exact .of_eq rfl rfl

theorem resolveObligation_posts {arguments : ResolveArguments} {transcriptId : Option ℕ}
    {operationId : OperationId} {now : Time}
    (hl : B.ledger → ∀ p, w.data.decidedCandidate arguments = some p → p.2.status ≠ .leased) :
    Posts B w.data (resolveObligation w arguments transcriptId operationId now).1.data := by
  unfold resolveObligation
  extract_lets source changeType r
  split
  · exact .refl _
  · split
    · split
      · exact .refl _
      · split
        · exact .refl _
        · refine execute_rel .refl fun version outcome s h => ?_
          obtain ⟨_,r,h⟩ := decisionMutation_ok h
          exact Tables.resolveConflictMutate_posts h
    · split
      · exact .refl _
      · next hcon =>
        split
        · split
          · exact .refl _
          · refine execute_rel .refl fun version outcome s h => ?_
            obtain ⟨_,r,h⟩ := decisionMutation_ok h
            exact Tables.resolveReviewMutate_posts h
        · exact transact_rel .refl fun s r h =>
            Tables.resolveObligationIn_posts hl (by simpa using hcon) h

theorem publish_posts {config : PublisherConfig} {claim : CandidateLease}
    {snapshot : EvaluationSnapshot} {decision : ReconciliationDecision} {operationId : OperationId}
    {now : Time} (hs : Sound w.data) (hi : Issued w.data claim)
    (hl : B.ledger → Settles w (.publish config claim snapshot decision operationId now))
    (hv : B.versions → Bumps w (.publish config claim snapshot decision operationId now)) :
    Posts B w.data (publish w config claim snapshot decision operationId now).world.data := by
  rcases publish_cases w config claim snapshot decision operationId now with he | ⟨pub,hp⟩
  · rw [he]
    exact .refl _
  · exact Tables.publishAndSettle_posts hs hi hp hl hv

/-- Every operation posts what is asked of it where its conditions hold. -/
theorem step_posts {op : Op} (hs : Sound w.data) (hl : Legal w op) (hledger : B.ledger → Settles w op)
    (hversions : B.versions → Bumps w op) : Posts B w.data (step w op).data := by
  cases op with
  | createOwnerChat title now =>
    exact transact_rel .refl fun s a h => by
      cases h
      exact .of_eq rfl rfl
  | activateOwnerChat chatId now =>
    exact transact_rel .refl fun s a h => Tables.activateOwnerChat_posts h
  | getOrCreateActive now =>
    exact transact_rel .refl fun s a h => by
      rw [show s = (w.data.getOrCreateActive now).1 from (congrArg Prod.fst (Except.ok.inj h)).symm]
      exact Tables.getOrCreateActive_posts _ now
  | appendTurn transcriptId actor blocks now =>
    exact transact_rel .refl fun s a h => Tables.appendTurn_posts h
  | deleteOwnerChat chatId now =>
    exact transact_rel .refl fun s a h => Tables.deleteOwnerChat_posts h hledger
  | enqueueMany proposals source =>
    exact transact_rel .refl fun s a h => by
      cases h
      exact Tables.enqueueMany_posts _ proposals source
  | remember arguments transcriptId now =>
    refine (stepLoaded_committed id w (.remember arguments transcriptId now)).posts fun t t' h => ?_
    cases h with
    | intakeFailed => exact recordExplicitIntakeFailure_posts ..
    | remember h => exact Tables.queueExplicitContentCommandIn_posts h
    | began hc => cases hc
    | failed hc => cases hc
  | correct arguments transcriptId now =>
    refine (stepLoaded_committed id w (.correct arguments transcriptId now)).posts fun t t' h => ?_
    cases h with
    | intakeFailed => exact recordExplicitIntakeFailure_posts ..
    | correct h => exact Tables.queueExplicitContentCommandIn_posts h
    | began hc => cases hc
    | failed hc => cases hc
  | claimBatch config limit locks now =>
    refine transact_rel .refl fun s a h => ?_
    rw [show s = (w.data.claimBatch config limit locks now).1 from
      (congrArg Prod.fst (Except.ok.inj h)).symm]
    exact Tables.claimBatch_posts ..
  | persistReading claim snapshot reading model now =>
    exact transact_rel .refl fun s a h => Tables.persistReading_posts (hl claim rfl) h
  | persistComparison claim readingId comparison now =>
    exact transact_rel .refl fun s a h => Tables.persistComparison_posts (hl claim rfl) h
  | persistReconciliation claim comparisonId snapshot relation now =>
    exact transact_rel .refl fun s a h => Tables.persistReconciliation_posts (hl claim rfl) h
  | persistPolicy claim recordId policy reason now =>
    exact transact_rel .refl fun s a h => Tables.persistPolicy_posts (hl claim rfl) h
  | finishEpistemicRejection claim code now =>
    exact transact_rel .refl fun s a h => Tables.finish_posts (hl claim rfl) h nofun
  | finishPolicyBlock claim code now =>
    exact transact_rel .refl fun s a h => Tables.finish_posts (hl claim rfl) h nofun
  | requeueAfterVersionConflict claim snapshot now =>
    exact transact_rel .refl fun s a h => by
      cases h
      exact Tables.requeueAfterVersionConflict_posts snapshot now (hl claim rfl)
  | releaseAfterConflict maxAttempts claim code now =>
    exact transact_rel .refl fun s a h => by
      cases h
      exact Tables.releaseAfterConflict_posts maxAttempts code now (hl claim rfl)
  | releaseFailed maxAttempts claim code now =>
    exact transact_rel .refl fun s a h => by
      cases h
      exact Tables.releaseFailed_posts maxAttempts code now (hl claim rfl)
  | publish config claim snapshot decision operationId now =>
    exact publish_posts hs (hl claim rfl) hledger hversions
  | retire arguments transcriptId now =>
    exact retire_posts ⟨hversions,fun hB _ => hledger hB⟩
  | restore memoryId transcriptId now =>
    refine (stepLoaded_committed id w (.restore memoryId transcriptId now)).posts fun t t' h => ?_
    cases h with
    | intakeFailed hi => cases hi
    | began => exact .of_eq rfl rfl
    | failed _ h => exact Tables.failCommand_posts h
    | restore h => exact Tables.restoreMutate_posts h
  | delete arguments transcriptId now => exact delete_posts ⟨hversions,fun _ h => nomatch h⟩
  | resolveObligation arguments transcriptId operationId now => exact resolveObligation_posts hledger

omit [PyRuntime] in
theorem Initial.ledgered (h : Initial w) : Ledgered w.data where
  owned i a hi := by
    rw [h.attempts] at hi
    cases hi
  balanced c row hrow := by
    rw [h.no_candidate] at hrow
    cases hrow

theorem reachable_ledgered (h : Reachable Settles w) : Ledgered w.data :=
  reachable_invariant (fun _ => Initial.ledgered) (fun _ _ hs hl hok hi =>
    (step_posts (B := ⟨False,True⟩) hs hl (fun _ => hok) nofun).ledger trivial hi) h

/-- A candidate has one open attempt while it is leased and none otherwise, and that attempt has
the candidate's token and version. -/
theorem attempt_ledger (h : Reachable Settles w) (c : ℕ) (row : CandidateRow)
    (hrow : w.data.candidates[c]? = some row) : Balanced w.data c row :=
  (reachable_ledgered h).balanced c row hrow

theorem step_advanced {op : Op} (hs : Sound w.data) (hl : Legal w op) (hok : Bumps w op) :
    Advanced w.data (step w op).data :=
  (step_posts (B := ⟨True,False⟩) hs hl nofun fun _ => hok).versions trivial

theorem path_advanced {w' : State} (h : Reachable Bumps w)
    (hp : Trace.Path step (fun w op => Legal w op ∧ Bumps w op) w w') : Advanced w.data w'.data :=
  hp.stable (I := fun t => Advanced w.data t.data)
    (fun _ _ ht hi hok => hi.trans (step_advanced (reachable_sound ht) hok.1 hok.2)) h (.refl _)

/-- A status change comes under a greater version, so that within a run two observations of a
candidate under one version show one status. -/
theorem state_version_faithful (h : Reachable Bumps w) :
    (∀ op, Legal w op → Bumps w op → ∀ (c : ℕ) (row row' : CandidateRow),
      w.data.candidates[c]? = some row → (step w op).data.candidates[c]? = some row' →
        row'.status ≠ row.status → row.stateVersion < row'.stateVersion) ∧
    ∀ w', Trace.Path step (fun w op => Legal w op ∧ Bumps w op) w w' →
      ∀ (c : ℕ) (row row' : CandidateRow), w.data.candidates[c]? = some row →
        w'.data.candidates[c]? = some row' → row'.stateVersion = row.stateVersion →
          row'.status = row.status := by
  refine ⟨fun op hl hok c row row' hrow hrow' hne => ?_,fun w' hp c row row' hrow hrow' hv => ?_⟩
  · obtain ⟨r,hr,ha⟩ := step_advanced (reachable_sound h) hl hok c row hrow
    cases Option.some.inj (hrow'.symm.trans hr)
    exact ha.resolve_right fun hs => hne hs.2
  · obtain ⟨r,hr,ha⟩ := path_advanced h hp c row hrow
    cases Option.some.inj (hrow'.symm.trans hr)
    rcases ha with ha | ⟨_,hs⟩
    · omega
    · exact hs

end

/-- An explicit command in the hands of a worker. -/
def leasedCommand : List Op :=
  [.getOrCreateActive 0,.appendTurn 0 .owner [textBlock "I like tea"] 1,
    .remember {content := some "likes tea"} none 2,.claimBatch {} 1 {} 3]

theorem attempt_ledger_leased :
    letI := plainRuntime
    ∃ row, (ran leasedCommand).data.candidates[0]? = some row ∧ row.status = .leased ∧
      Balanced (ran leasedCommand).data 0 row := by
  obtain ⟨hrun,row,hrow,hs⟩ : letI := plainRuntime
      Trace.Allowed step (fun w op => Legal w op ∧ Settles w op) emptyStore leasedCommand ∧
        ∃ row, (ran leasedCommand).data.candidates[0]? = some row ∧ row.status = .leased := by
    rw [plainRuntime_eq]
    decide +kernel
  exact ⟨row,hrow,hs,@attempt_ledger plainRuntime _ (@ran_reachable plainRuntime _ _ hrun) 0 row
    hrow⟩

/-- An open attempt about a candidate that nobody holds. -/
theorem unbalanced_of_open {s : Tables} {c i : ℕ} (h : ∃ row, s.candidates[c]? = some row ∧
    row.status ≠ .leased ∧ ∃ a, s.attempts[i]? = some a ∧ a.candidateId = c ∧ a.completedAt = none) :
    ∃ row, s.candidates[c]? = some row ∧ ¬Balanced s c row := by
  obtain ⟨row,hrow,hs,a,ha⟩ := h
  exact ⟨row,hrow,fun hb => hb.none_open hs i a ha⟩

/-- The wording is retired while a worker holds its candidate. -/
def retiredLeased : List Op := leasedCommand ++
  [Op.retire {content := some "likes tea"} none 4]

/-- Retirement ends a leased candidate and leaves its attempt open. -/
theorem attempt_left_open :
    letI := plainRuntime
    Reachable (fun _ _ => True) (ran retiredLeased) ∧
      ∃ row, (ran retiredLeased).data.candidates[0]? = some row ∧
        ¬Balanced (ran retiredLeased).data 0 row := by
  refine And.imp (@ran_reachable plainRuntime _ _) (unbalanced_of_open (i := 0)) ?_
  rw [plainRuntime_eq]
  decide +kernel

theorem state_version_faithful_confirmed :
    letI := plainRuntime
    let op := confirmation awaitingCommand 1 (.uuid 1) 5
    ∀ (c : ℕ) (row row' : CandidateRow), (ran awaitingCommand).data.candidates[c]? = some row →
      (step (ran awaitingCommand) op).data.candidates[c]? = some row' → row'.status ≠ row.status →
        row.stateVersion < row'.stateVersion := by
  obtain ⟨hrun,hl,hb⟩ : letI := plainRuntime
      Trace.Allowed step (fun w op => Legal w op ∧ Bumps w op) emptyStore awaitingCommand ∧
        Legal (ran awaitingCommand) (confirmation awaitingCommand 1 (.uuid 1) 5) ∧
        Bumps (ran awaitingCommand) (confirmation awaitingCommand 1 (.uuid 1) 5) := by
    rw [plainRuntime_eq]
    decide +kernel
  exact (@state_version_faithful plainRuntime _ (@ran_reachable plainRuntime _ _ hrun)).1 _ hl hb

/-- A retired wording whose open confirmation the owner then gives. -/
def retiredConfirmed [PyRuntime] : List Op :=
  retiredAwaiting ++ [confirmation retiredAwaiting 1 (.uuid 1) 6]

/-- A second retirement invalidates the confirmed candidate under the version it had. -/
theorem status_changed_in_place :
    letI := plainRuntime
    let op := Op.retire {content := some "likes tea"} none 7
    Reachable (fun _ _ => True) (ran retiredConfirmed) ∧ Legal (ran retiredConfirmed) op ∧
      ∃ row, (ran retiredConfirmed).data.candidates[0]? = some row ∧ row.status = .pending ∧
        ∃ row', (step (ran retiredConfirmed) op).data.candidates[0]? = some row' ∧
          row'.status = .invalidated ∧ row'.stateVersion = row.stateVersion := by
  refine And.imp_left (@ran_reachable plainRuntime _ _) ?_
  rw [plainRuntime_eq]
  decide +kernel

end Memory
end Atlas
