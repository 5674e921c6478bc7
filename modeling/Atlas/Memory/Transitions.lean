import Atlas.Memory.Settlement

/-! The life of a candidate against its declared transition table: as long as confirmations
are answered only for candidates that await the owner, no run leaves the table, and an
invalidated candidate stays invalidated. -/
namespace Atlas
namespace Memory

open RowTable

/-- The declared transition table of candidate statuses. -/
def CandidateStatus.allowed : CandidateStatus → CandidateStatus → Bool
  | .pending, b => b == .leased || b == .failed || b == .invalidated
  | .leased, b => b != .expired && b != .rejected
  | .retainedShortTerm, b => b == .leased || b == .expired || b == .invalidated
  | .awaitingOwner, b => b == .pending || b == .rejected || b == .expired || b == .invalidated
  | .failed, b => b == .pending || b == .invalidated
  | _, b => b == .invalidated

/-- An owner's retry of a failed explicit command. -/
def Op.ownerRetry : Op → Bool
  | .resolveObligation arguments .. => arguments.decision == .retry
  | _ => false

/-- A status change that an operation is allowed to make. -/
def Follows (op : Op) (a b : CandidateStatus) : Prop :=
  b = a ∨ a.allowed b = true ∧ (a = .failed → b = .pending → op.ownerRetry = true)

/-- The answers an owner gives to a candidate that awaits them. -/
def Op.answers : Op → CandidateStatus → CandidateStatus → Bool
  | .resolveObligation .., a, b =>
      a == .awaitingOwner && (b == .pending || b == .rejected || b == .expired)
  | _, _, _ => false

/-- A run of changes moves a status by a transitive relation. -/
theorem Chain.row {P : Policy} (hP : ∀ a b c, P.moves a b → P.moves b c → P.moves a c)
    {s s' : Tables} (h : Chain P s s') {c : ℕ} {row : CandidateRow}
    (hrow : s.candidates[c]? = some row) : ∃ row', s'.candidates[c]? = some row' ∧
      (row'.status = row.status ∨ P.moves row.status row'.status) ∧
      (row.invalidatedAt ≠ none → row'.invalidatedAt ≠ none) := by
  induction h with
  | refl => exact ⟨row,hrow,Or.inl rfl,id⟩
  | tail _ hm ih =>
    obtain ⟨row₁,hrow₁,hs₁,hi₁⟩ := ih
    obtain ⟨row₂,hrow₂,hs₂,hi₂⟩ := hm.row hrow₁
    refine ⟨row₂,hrow₂,?_,fun h => hi₂ (hi₁ h)⟩
    rcases hs₁ with hs₁ | hs₁ <;> rcases hs₂ with hs₂ | hs₂
    · exact Or.inl (hs₂.trans hs₁)
    · exact Or.inr (hs₁ ▸ hs₂)
    · exact Or.inr (hs₂ ▸ hs₁)
    · exact Or.inr (hP _ _ _ hs₁ hs₂)

/-- What one operation does to statuses, as a policy. -/
def Op.policy (op : Op) : Policy := ⟨fun a b => op.moves a b = true ∨ op.answers a b = true,False,False⟩

/-- Apart from `claim_batch`, whose phases follow each other, the changes of one operation
compose to one of them. -/
theorem Op.moves_trans {op : Op} (h : ∀ config limit locks now, op ≠ .claimBatch config limit locks now)
    (a b c : CandidateStatus) (hab : op.policy.moves a b) (hbc : op.policy.moves b c) :
    op.policy.moves a c := by
  cases op with
  | claimBatch config limit locks now => exact absurd rfl (h config limit locks now)
  | _ =>
    simp only [policy,moves,answers,CandidateStatus.published,Bool.or_eq_true,Bool.and_eq_true,
      beq_iff_eq,Bool.false_eq_true] at hab hbc ⊢
    grind

theorem Follows.invalidated (op : Op) (a : CandidateStatus) : Follows op a .invalidated := by
  cases a <;> simp [Follows,CandidateStatus.allowed]

theorem Follows.leased (op : Op) {b : CandidateStatus} (h : b ≠ .expired ∧ b ≠ .rejected) :
    Follows op .leased b := by
  simp [Follows,CandidateStatus.allowed,h]

theorem Op.moves_follow {op : Op} (h : ∀ config limit locks now, op ≠ .claimBatch config limit locks now)
    {a b : CandidateStatus} (hab : op.policy.moves a b) : Follows op a b := by
  simp only [policy,moves,answers] at hab
  cases op with
  | claimBatch config limit locks now => exact absurd rfl (h config limit locks now)
  | deleteOwnerChat | retire | delete =>
    obtain rfl : b = .invalidated := by simpa using hab
    exact .invalidated _ a
  | finishEpistemicRejection | finishPolicyBlock | requeueAfterVersionConflict =>
    obtain ⟨rfl,rfl⟩ : a = .leased ∧ _ := by simpa using hab
    exact .leased _ (by simp)
  | releaseAfterConflict | releaseFailed =>
    obtain ⟨rfl,rfl | rfl⟩ : a = .leased ∧ (b = .pending ∨ b = .failed) := by simpa using hab
    · exact .leased _ (by simp)
    · exact .leased _ (by simp)
  | publish =>
    obtain ⟨rfl,hb⟩ | rfl : a = .leased ∧ b.published = true ∨ b = .invalidated := by
      simpa using hab
    · exact .leased _ (by constructor <;> rintro rfl <;> cases hb)
    · exact .invalidated _ a
  | resolveObligation arguments =>
    simp only [Bool.or_eq_true,Bool.and_eq_true,beq_iff_eq] at hab
    rcases hab with (⟨⟨hd,rfl⟩,rfl | rfl⟩ | ⟨rfl,rfl⟩) | ⟨rfl,(rfl | rfl) | rfl⟩ <;>
      simp_all [Follows,CandidateStatus.allowed,ownerRetry]
  | _ => simp at hab

namespace Tables

/-- The changes of one phase of `claim_batch`. -/
def phase (a : List CandidateStatus) (b : List CandidateStatus) : Policy :=
  ⟨fun x y => x ∈ a ∧ y ∈ b,True,True⟩

theorem phase_trans {a b : List CandidateStatus} (x y z : CandidateStatus)
    (hxy : (phase a b).moves x y) (hyz : (phase a b).moves y z) : (phase a b).moves x z :=
  ⟨hxy.1,hyz.2⟩

/-- The four phases in order make one arrow of the table at most. -/
theorem phases_allowed {a₀ a₁ a₂ a₃ a₄ : CandidateStatus}
    (h₁ : a₁ = a₀ ∨ a₀ = .awaitingOwner ∧ a₁ = .expired)
    (h₂ : a₂ = a₁ ∨ a₁ = .retainedShortTerm ∧ a₂ = .expired)
    (h₃ : a₃ = a₂ ∨ (a₂ = .pending ∨ a₂ = .leased) ∧ a₃ = .failed)
    (h₄ : a₄ = a₃ ∨ (a₃ = .pending ∨ a₃ = .leased ∨ a₃ = .retainedShortTerm) ∧
      (a₄ = .leased ∨ a₄ = .invalidated)) :
    a₄ = a₀ ∨ a₀ ≠ .failed ∧ a₀.allowed a₄ = true := by
  rcases h₁ with rfl | ⟨rfl,rfl⟩
  · rcases h₂ with rfl | ⟨rfl,rfl⟩
    · rcases h₃ with rfl | ⟨ha,rfl⟩
      · rcases h₄ with rfl | ⟨ha,hb⟩
        · exact Or.inl rfl
        · rcases ha with rfl | rfl | rfl <;> rcases hb with rfl | rfl <;>
            simp [CandidateStatus.allowed]
      · rcases ha with rfl | rfl <;> simp_all [CandidateStatus.allowed]
    · simp_all [CandidateStatus.allowed]
  · simp_all [CandidateStatus.allowed]

/-- `claim_batch` takes a candidate along one arrow of the table. -/
theorem claimBatch_row (s : Tables) (config : LeaseConfig) (limit : ℕ) (locks : RowLocks) (now : Time)
    {c : ℕ} {row : CandidateRow} (hrow : s.candidates[c]? = some row) :
    ∃ row', (s.claimBatch config limit locks now).1.candidates[c]? = some row' ∧
      (row'.status = row.status ∨ row.status ≠ .failed ∧ row.status.allowed row'.status = true) := by
  have h₁ : Chain (phase [.awaitingOwner] [.expired]) s (s.expiredObligations locks now) :=
    expireDueObligations_chain (P := phase [.awaitingOwner] [.expired]) ⟨by simp,by simp⟩ s now locks
  have h₂ : Chain (phase [.retainedShortTerm] [.expired]) (s.expiredObligations locks now)
      (s.expiredRetention locks now) :=
    expireRetained_phase (P := phase [.retainedShortTerm] [.expired]) ⟨by simp,by simp⟩ _ now locks
  have h₃ : Chain (phase [.pending,.leased] [.failed]) (s.expiredRetention locks now)
      (s.exhausted config locks now) :=
    failExhausted_phase (P := phase [.pending,.leased] [.failed])
      (fun a ha => ⟨by simpa using ha,by simp⟩) _ config.clamped now locks
  have h₄ : Chain (phase [.pending,.leased,.retainedShortTerm] [.leased,.invalidated])
      (s.exhausted config locks now) (s.claimBatch config limit locks now).1 := by
    rw [claimBatch_fst]
    have hq : ∀ a : CandidateStatus, a.queued = true →
        a ∈ [CandidateStatus.pending,.leased,.retainedShortTerm] := by
      rintro (_ | _) <;> simp [CandidateStatus.queued]
    exact claimRows_phase (P := phase [.pending,.leased,.retainedShortTerm] [.leased,.invalidated])
      (fun a ha => ⟨hq a ha,by simp⟩) (fun a ha => ⟨hq a ha,by simp⟩) _ _ _ _ _
  obtain ⟨row₁,hrow₁,hs₁,_⟩ := h₁.row phase_trans hrow
  obtain ⟨row₂,hrow₂,hs₂,_⟩ := h₂.row phase_trans hrow₁
  obtain ⟨row₃,hrow₃,hs₃,_⟩ := h₃.row phase_trans hrow₂
  obtain ⟨row₄,hrow₄,hs₄,_⟩ := h₄.row phase_trans hrow₃
  refine ⟨row₄,hrow₄,?_⟩
  simp only [phase,List.mem_cons,List.not_mem_nil,or_false] at hs₁ hs₂ hs₃ hs₄
  exact phases_allowed hs₁ hs₂ hs₃ hs₄

end Tables

section

variable [PyRuntime]

theorem answers_policy {w : State} {op : Op} (h : Answered w op) : Answers op.policy w op := by
  cases op with
  | resolveObligation arguments transcriptId operationId now =>
    intro p hp b hb
    have hs := h p hp
    rw [hs]
    refine Or.inr ?_
    rcases hb with rfl | rfl | rfl <;> rfl
  | _ => trivial

theorem stamped_step {w : State} {op : Op} (hs : Sound w.data) (hl : Legal w op)
    (ha : Answered w op) (h : Stamped w.data) : Stamped (step w op).data := by
  have hc : Chain op.policy w.data (step w op).data :=
    step_chain hs hl (fun _ _ => Or.inl) (answers_policy ha) nofun nofun
  refine hc.invariant (fun s s' hs hm => hs.micro (fun b hb => ?_) hm) h
  cases op <;> simp_all [Op.policy,Op.moves,Op.answers,CandidateStatus.queued]

omit [PyRuntime] in
theorem Initial.stamped {w : State} (h : Initial w) : Stamped w.data := by
  intro c row hrow
  rw [h.no_candidate] at hrow
  cases hrow

theorem reachable_stamped {w : State} (h : Reachable Answered w) : Stamped w.data :=
  reachable_invariant (fun _ => Initial.stamped) (fun _ _ hs hl ha => stamped_step hs hl ha) h

/-- One operation takes a candidate along the table, and keeps its invalidation time. -/
theorem step_row {w : State} {op : Op} (hs : Sound w.data) (hl : Legal w op) (ha : Answered w op)
    {c : ℕ} {row : CandidateRow} (hrow : w.data.candidates[c]? = some row) :
    ∃ row', (step w op).data.candidates[c]? = some row' ∧ Follows op row.status row'.status ∧
      (row.invalidatedAt ≠ none → row'.invalidatedAt ≠ none) := by
  have hc : Chain op.policy w.data (step w op).data :=
    step_chain hs hl (fun _ _ => Or.inl) (answers_policy ha) nofun nofun
  by_cases hbatch : ∃ config limit locks now, op = .claimBatch config limit locks now
  · obtain ⟨config,limit,locks,now,rfl⟩ := hbatch
    have hall : Chain ⟨fun _ _ => True,False,False⟩ w.data
        (step w (.claimBatch config limit locks now)).data :=
      hc.mono (fun _ _ _ => trivial) False.elim False.elim
    obtain ⟨row',hrow',_,hi⟩ := hall.row (fun _ _ _ _ _ => trivial) hrow
    refine ⟨row',hrow',?_,hi⟩
    rcases transact_cases w fun s => .ok (s.claimBatch config limit locks now) with
      ⟨e,he⟩ | ⟨s,r,hok,_,he⟩
    · rw [step,stepLoaded,he] at hrow'
      exact Or.inl (congrArg _ (Option.some.inj (hrow'.symm.trans hrow)))
    · rw [step,stepLoaded,he] at hrow'
      obtain ⟨row₁,hrow₁,hs₁⟩ := w.data.claimBatch_row config limit locks now hrow
      rw [show s = (w.data.claimBatch config limit locks now).1 from
        (congrArg Prod.fst (Except.ok.inj hok)).symm] at hrow'
      cases Option.some.inj (hrow'.symm.trans hrow₁)
      exact hs₁.imp_right fun h => ⟨h.2,fun hf => absurd hf h.1⟩
  · have hne : ∀ config limit locks now, op ≠ .claimBatch config limit locks now :=
      fun config limit locks now he => hbatch ⟨config,limit,locks,now,he⟩
    obtain ⟨row',hrow',hm,hi⟩ := hc.row (Op.moves_trans hne) hrow
    exact ⟨row',hrow',hm.elim Or.inl (Op.moves_follow hne),hi⟩

/-- An invalidation time is never taken back. -/
theorem invalidated_forever {w w' : State} (h : Reachable Answered w)
    (hp : Trace.Path step (fun w op => Legal w op ∧ Answered w op) w w') {c : ℕ} {row : CandidateRow}
    (hrow : w.data.candidates[c]? = some row) (hi : row.invalidatedAt ≠ none) :
    ∃ row', w'.data.candidates[c]? = some row' ∧ row'.invalidatedAt ≠ none ∧
      row'.status = .invalidated := by
  have hkept := hp.stable (I := fun w => ∃ row', w.data.candidates[c]? = some row' ∧
    row'.invalidatedAt ≠ none) (fun t op ht hrow hok => ?_) h ⟨row,hrow,hi⟩
  · obtain ⟨row',hrow',hi'⟩ := hkept
    exact ⟨row',hrow',hi',reachable_stamped (h.path hp) c row' hrow' hi'⟩
  · obtain ⟨r,hr,hir⟩ := hrow
    obtain ⟨r',hr',_,hi'⟩ := step_row (reachable_sound ht) hok.1 hok.2 hr
    exact ⟨r',hr',hi' hir⟩

/-- Runs stay inside the transition table, and invalidated candidates stay invalidated. -/
theorem candidate_lifecycle {w : State} (h : Reachable Answered w) :
    (∀ op, Legal w op → Answered w op → ∀ (c : ℕ) (row : CandidateRow),
      w.data.candidates[c]? = some row → ∃ row', (step w op).data.candidates[c]? = some row' ∧
        Follows op row.status row'.status) ∧
    ∀ (c : ℕ) (row : CandidateRow), w.data.candidates[c]? = some row → row.invalidatedAt ≠ none →
      row.status = .invalidated ∧ ∀ w', Trace.Path step (fun w op => Legal w op ∧ Answered w op) w w' →
        ∃ row', w'.data.candidates[c]? = some row' ∧ row'.status = .invalidated := by
  refine ⟨fun op hl ha c row hrow => ?_,fun c row hrow hi => ⟨reachable_stamped h c row hrow hi,
    fun w' hp => ?_⟩⟩
  · obtain ⟨row',hrow',hf,_⟩ := step_row (reachable_sound h) hl ha hrow
    exact ⟨row',hrow',hf⟩
  · obtain ⟨row',hrow',_,hs⟩ := invalidated_forever h hp hrow hi
    exact ⟨row',hrow',hs⟩

end

/-- What a worker's evaluation saw of the first candidate. -/
def firstSnapshot (sourceRevision memoryRevision : ℕ) : EvaluationSnapshot :=
  { candidateId := 0
    sourceTranscriptId := 0
    sourceTurnId := 0
    sourceRevision := sourceRevision
    memoryRevision := memoryRevision
    evidenceRefs := ⟨0,none,[0],none,[],[],[],none⟩
    publicationAllowed := true }

/-- An explicit command that the reconciler puts before the owner. -/
def awaitingCommand : List Op :=
  [.getOrCreateActive 0,.appendTurn 0 .owner [textBlock "I like tea"] 1,
    .remember {content := some "likes tea"} none 2,.claimBatch {} 1 {} 3,
    .publish {} ⟨0,0,0,1⟩ (firstSnapshot 1 0) awaitOwnerDecision (.uuid 0) 4]

/-- The owner's confirmation of the first candidate, in the version now on display. -/
def confirmation [PyRuntime] (ops : List Op) (obligationId : ℕ) (operationId : OperationId)
    (now : Time) : Op :=
  .resolveObligation {
    obligationId := obligationId
    decision := .confirm
    reviewVersion := ((ran ops).data.candidates[0]?).map fun row =>
      candidateReviewVersion 0 row "likes tea"} none operationId now

theorem candidate_lifecycle_confirmed :
    letI := plainRuntime
    let op := confirmation awaitingCommand 1 (.uuid 1) 5
    Answered (ran awaitingCommand) op ∧ ∀ (c : ℕ) (row : CandidateRow),
      (ran awaitingCommand).data.candidates[c]? = some row →
        ∃ row', (step (ran awaitingCommand) op).data.candidates[c]? = some row' ∧
          Follows op row.status row'.status := by
  obtain ⟨hrun,hl,ha⟩ : letI := plainRuntime
      Trace.Allowed step (fun w op => Legal w op ∧ Answered w op) emptyStore awaitingCommand ∧
        Legal (ran awaitingCommand) (confirmation awaitingCommand 1 (.uuid 1) 5) ∧
        Answered (ran awaitingCommand) (confirmation awaitingCommand 1 (.uuid 1) 5) := by
    rw [plainRuntime_eq]
    decide +kernel
  exact ⟨ha,(@candidate_lifecycle plainRuntime _ (@ran_reachable plainRuntime _ _ hrun)).1 _ hl ha⟩

/-- The wording is retired while its confirmation is still open. -/
def retiredAwaiting : List Op :=
  awaitingCommand ++ [Op.retire {content := some "likes tea"} none 5]

/-- Retirement leaves the confirmation pending, and the answer brings the candidate back. -/
theorem invalidated_candidate_confirmed :
    letI := plainRuntime
    let op := confirmation retiredAwaiting 1 (.uuid 1) 6
    Reachable (fun _ _ => True) (ran retiredAwaiting) ∧ Legal (ran retiredAwaiting) op ∧
      (∃ row, (ran retiredAwaiting).data.candidates[0]? = some row ∧
        (row.status = .invalidated ∧ row.invalidatedAt ≠ none)) ∧
      ∃ row, (step (ran retiredAwaiting) op).data.candidates[0]? = some row ∧
        row.status = .pending := by
  refine And.imp_left (@ran_reachable plainRuntime _ _) ?_
  rw [plainRuntime_eq]
  decide +kernel

end Memory
end Atlas
