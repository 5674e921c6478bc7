import Atlas.Memory.LifecycleSteps

/-! Owner decisions as runs of the candidate automaton. -/
namespace Atlas
namespace Memory

open RowTable

theorem cleanMemoryContent_some {value : Option String} {field text : String}
    (h : cleanMemoryContent value field = .ok text) : value ≠ none := by
  rintro rfl
  unfold cleanMemoryContent at h
  rw [show normalizeSpace (orEmpty none) = "" by decide] at h
  cases h

namespace Tables

variable {P : Policy} {s s' : Tables}

/-- The wording the owner asserts becomes a new owner turn of a transcript of its own. -/
theorem appendOwnerAssertionTurn_eq {content : String} {now : Time} {transcriptId turnId : ℕ}
    (h : s.appendOwnerAssertionTurn content now = .ok (s',transcriptId,turnId)) :
    turnId = s.turns.length ∧ ∃ t : TurnRow, s'.core = {s.core with turns := s.turns ++ [t]} ∧
      t.actor = .owner ∧ t.deletedAt = none := by
  unfold appendOwnerAssertionTurn at h
  dsimp only at h
  obtain ⟨⟨s₁,id⟩,ht,h⟩ := bind_ok h
  obtain ⟨hid,_,t,hc,ha,hd,_⟩ := appendTurn_eq ht
  cases h
  exact ⟨hid,t,hc,ha,hd⟩

theorem appendOwnerAssertionTurn_frame {content : String} {now : Time} {transcriptId turnId : ℕ}
    (h : s.appendOwnerAssertionTurn content now = .ok (s',transcriptId,turnId)) : Frame s s' := by
  obtain ⟨_,t,hc,_⟩ := appendOwnerAssertionTurn_eq h
  simp only [Tables.core,Core.mk.injEq] at hc
  obtain ⟨hc,he,ht,ha,ho,hn⟩ := hc
  exact ⟨hc,he,ht ▸ .append _ _,ha ▸ .refl _,hn,ho ▸ .refl _⟩

theorem rejectConflicting_chain (hm : P.moves .awaitingOwner .rejected) (s : Tables) (c : ℕ)
    (decision : DecisionJson) (code : String) (resolution : Option String) (now : Time) :
    Chain P s (s.rejectConflicting c decision code resolution now) := by
  unfold rejectConflicting
  split
  · exact .refl
  · next row hrow =>
    split
    · exact .refl
    · next hs =>
      have hs : row.status = .awaitingOwner := not_not.mp hs
      refine ended_chain hrow ?_ rfl now _ _
      exact .leave (by simp [hs]) (by rw [hs]; exact hm) (by simp) rfl rfl rfl (by
        simp [CandidateStatus.queued])

theorem keepCurrent_chain (hm : P.moves .awaitingOwner .rejected) (s : Tables)
    (obligationId conflictId : ℕ) (conflict : ConflictRow) (source : OwnerSource) (now : Time) :
    Chain P s (s.keepCurrent obligationId conflictId conflict source now) := by
  unfold keepCurrent
  extract_lets s₁
  have hs₁ : Chain P s s₁ := (Frame.setConflict s conflictId _).chain.trans
    (rejectConflicting_chain hm _ conflict.candidateId _ _ none now)
  exact hs₁.trans ((Frame.addProvenance _ _).trans ((Frame.setMemory _ _ _).trans
    (Quiet.resolveObligation _ _ _ fun _ => by exact ⟨rfl,fun _ => rfl⟩).frame)).chain

theorem rejectReview_frame (s : Tables) (obligationId targetId : ℕ) (now : Time) :
    Frame s (s.rejectReview obligationId targetId now) :=
  (Quiet.resolveObligation s _ _ fun _ => by exact ⟨rfl,fun _ => rfl⟩).frame.trans (Frame.setMemory _ _ _)

/-- A decided confirmation ends its candidate after its own obligation is resolved. -/
theorem decided_chain {c obligationId : ℕ} {row : CandidateRow} {f : CandidateRow → CandidateRow}
    {g : ObligationRow → ObligationRow} (hrow : s.candidates[c]? = some row)
    (hg : ∀ o : ObligationRow, o.Resolves (g o)) (hm : ∀ t, RowMove P t c row (f row))
    (hv : (f row).stateVersion = row.stateVersion + 1) (now : Time) (code resolution : Option String) :
    Chain P s (((s.setObligation obligationId g).setCandidate c f).settleExplicitObligation c now
      none code resolution) := by
  have hrow' : (s.setObligation obligationId g).candidates[c]? = some row := hrow
  exact (Quiet.resolveObligation s obligationId g hg).frame.chain.trans
    (ended_chain hrow' (hm _) hv now code resolution)

theorem invalidateRetried_chain {c : ℕ} {row : CandidateRow} (hrow : s.candidates[c]? = some row)
    (hm : P.moves row.status .invalidated) (now : Time) :
    Chain P s (s.invalidateRetried c now) :=
  ended_chain hrow (.invalidate rfl (Or.inr hm) (fun hc => hc) (fun _ => Option.some_ne_none now)
    rfl rfl) rfl now _ _

theorem retryCandidate_chain {c : ℕ} {row : CandidateRow} (hrow : s.candidates[c]? = some row)
    (hs : row.status ≠ .invalidated) (hm : P.moves row.status .pending)
    (hh : P.home → s.Homely c row) (obligationId : ℕ)
    (obligation : ObligationRow) (source : OwnerSource) :
    Chain P s (s.retryCandidate obligationId c obligation source) := by
  unfold retryCandidate
  extract_lets retries
  refine Relation.ReflTransGen.trans (.single ?_) (Frame.setObligation _ _ _ ?_).chain
  swap
  · exact fun _ _ => ⟨fun _ => rfl,id⟩
  apply RowChange.live
  · exact RowChange.bump hrow _ (Nat.lt_succ_self _)
      (.leave (fun h => absurd h hs) hm nofun rfl rfl rfl fun _ => hh)
  · rfl

variable [PyRuntime]

theorem confirmCandidate_chain {obligationId c : ℕ} {row : CandidateRow} {content : Option String}
    {now : Time} (hrow : s.candidates[c]? = some row) (hc : row.content ≠ none)
    (hm : P.moves row.status .pending) (hh : P.home → s.Homely c row)
    (h : s.confirmCandidate obligationId c row content now = .ok s') : Chain P s s' := by
  obtain ⟨asserted,_,h⟩ := bind_ok h
  obtain ⟨⟨s₁,transcriptId,turnId⟩,ht,h⟩ := bind_ok h
  obtain ⟨hid,t,hcore,hactor,_⟩ := appendOwnerAssertionTurn_eq ht
  simp only [Tables.core,Core.mk.injEq] at hcore
  obtain ⟨hcand,hev,hturns,hatt,hob,hnext⟩ := hcore
  dsimp only at h
  have h' := (Except.ok.inj h).symm
  cases h
  have hrow₁ : s₁.candidates[c]? = some row := hcand ▸ hrow
  apply Relation.ReflTransGen.single
  apply Micro.confirm c row
  constructor
  case change =>
    rw [← hcand]
    exact .modify hrow₁ _
  case evidence =>
    rw [← hev]
    rfl
  case subject => rfl
  case turns =>
    change TurnsKept s.turns s₁.turns
    exact hturns ▸ TurnsKept.append _ _
  case freshTurn => exact hid ▸ List.getElem?_eq_none le_rfl
  case turn =>
    refine ⟨t,?_,hactor⟩
    change s₁.turns[turnId]? = some t
    rw [hid,hturns]
    exact List.getElem?_concat_length
  case obligations =>
    rw [← hob]
    exact .modify _ _ _ fun _ _ => ObligationRow.Resolves.keeps ⟨rfl,fun _ => rfl⟩
  case move => exact hm
  case status => rfl
  case transcript => rfl
  case hash => exact ⟨_,rfl,sha256_ne_empty _⟩
  case content => exact hc
  case invalidatedAt => rfl
  case assertion => rfl
  case home => exact hh
  case version => exact Nat.lt_succ_self _
  case attempts => exact hatt
  case nextToken => exact hnext

theorem confirmReview_frame {obligationId targetId : ℕ} {asserted : String} {now : Time}
    (h : s.confirmReview obligationId targetId asserted now = .ok s') : Frame s s' := by
  unfold confirmReview at h
  extract_lets fingerprint at h
  split at h
  · cases h
  · obtain ⟨⟨s₁,transcriptId,turnId⟩,ht,h⟩ := bind_ok h
    cases h
    exact (appendOwnerAssertionTurn_frame ht).trans ((Frame.setMemory _ _ _).trans
      ((Frame.addProvenance _ _).trans (Quiet.resolveObligation _ _ _ fun _ => by exact ⟨rfl,fun _ => rfl⟩).frame))

theorem resolveReviewMutate_frame {arguments : ResolveArguments} {now : Time} {r : Bool × Resolution}
    (h : s.resolveReviewMutate arguments now = .ok (s',r)) : Frame s s' := by
  unfold resolveReviewMutate at h
  split at h
  · cases h
  · split at h
    · cases h
      exact .refl s
    · split at h
      · cases h
      · split at h
        · cases h
        · split at h
          · cases h
          · obtain ⟨text,_,h⟩ := bind_ok h
            dsimp only at h
            split at h
            · cases h
              exact .refl s
            · split at h
              · cases h
                exact rejectReview_frame s _ _ now
              · obtain ⟨asserted,_,h⟩ := bind_ok h
                obtain ⟨s₁,hc,h⟩ := bind_ok h
                cases h
                exact confirmReview_frame hc

theorem replaceInConflict_chain {arguments : ResolveArguments} {changeType : String} {conflictId : ℕ}
    {conflict : ConflictRow} {target : DurableMemoryRow} {source : OwnerSource} {now : Time} {q : Queued}
    (hm : P.moves .awaitingOwner .rejected) (hfk : s.explicitCount s.candidates.length = 0)
    (hb : P.bare → s.BareIntake source)
    (h : s.replaceInConflict arguments changeType conflictId conflict target source now =
      .ok (s',q)) : Chain P s s' := by
  obtain ⟨replacement,_,h⟩ := bind_ok h
  obtain ⟨⟨s₁,queued⟩,hq,h⟩ := bind_ok h
  cases h
  refine (queueExplicitContentCommandIn_chain hq hfk hb).trans (Relation.ReflTransGen.trans ?_
    (Quiet.resolveObligation _ _ _ fun _ => by exact ⟨rfl,fun _ => rfl⟩).frame.chain)
  exact (Frame.setConflict s₁ conflictId _).chain.trans
    (rejectConflicting_chain hm _ conflict.candidateId _ _ _ now)

theorem resolveConflictMutate_chain {arguments : ResolveArguments} {changeType : String}
    {source : OwnerSource} {now : Time} {r : Bool × Resolution}
    (hm : P.moves .awaitingOwner .rejected) (hfk : s.explicitCount s.candidates.length = 0)
    (hb : P.bare → arguments.decision ≠ .keepCurrent → s.BareIntake source)
    (h : s.resolveConflictMutate arguments changeType source now = .ok (s',r)) : Chain P s s' := by
  unfold resolveConflictMutate at h
  split at h
  · cases h
  · split at h
    · cases h
    · split at h
      · cases h
      · next conflictId conflict _ =>
        split at h
        · cases h
          exact .refl
        · split at h
          · cases h
          · obtain ⟨version,_,h⟩ := bind_ok h
            split at h
            · cases h
              exact .refl
            · obtain ⟨_,_,h⟩ := bind_ok h
              split at h
              · cases h
                exact keepCurrent_chain hm s _ _ conflict source now
              · next hk =>
                obtain ⟨⟨s₁,q⟩,hr,h⟩ := bind_ok h
                cases h
                exact replaceInConflict_chain hm hfk (fun hp => hb hp hk) hr

/-- The candidate a decision on a pending confirmation or review acts on, once the owner has
presented its current review version. -/
def decidedCandidate (s : Tables) (arguments : ResolveArguments) : Option (ℕ × CandidateRow) :=
  match s.obligations[arguments.obligationId]? with
  | none => none
  | some obligation =>
      if obligation.status = .pending ∧ obligation.kind.explicit = false ∧
          (obligation.kind = .memoryConfirmation ∨ obligation.kind = .memoryReview) ∧
          obligation.subjectType = .memoryCandidate ∧ arguments.decision ≠ .retry ∧
          arguments.decision.conflict = false then
        (obligation.subjectId.bind fun id => (s.candidates[id]?).map fun c => (id,c)).filter fun p =>
          match cleanMemoryContent p.2.content "content" with
          | .ok text => arguments.reviewVersion == some (candidateReviewVersion p.1 p.2 text)
          | .error _ => false
      else none

/-- The candidate that a confirmation in time puts back into the queue. -/
def confirmedCandidate (s : Tables) (arguments : ResolveArguments) (now : Time) :
    Option (ℕ × CandidateRow) :=
  if arguments.decision = .confirm ∧
      !(s.obligations[arguments.obligationId]?).any (·.expiresAt.any (· ≤ now)) then
    s.decidedCandidate arguments
  else none

/-- The failed candidate that an owner's retry puts back into the queue. -/
def retriedCandidate (s : Tables) (arguments : ResolveArguments) : Option (ℕ × CandidateRow) :=
  match s.obligations[arguments.obligationId]? with
  | none => none
  | some obligation =>
      if obligation.status = .pending ∧ obligation.kind.explicit = true ∧
          obligation.subjectType = .memoryCandidate ∧ arguments.decision = .retry then
        (obligation.subjectId.bind fun id => (s.candidates[id]?).map fun c => (id,c)).filter fun p =>
          p.2.status == .failed && s.evidenceTurnsLive p.1
      else none

omit [PyRuntime] in
theorem subject_row {obligation : ObligationRow} {p : ℕ × CandidateRow}
    (h : (obligation.subjectId.bind fun id => (s.candidates[id]?).map fun c => (id,c)) = some p) :
    s.candidates[p.1]? = some p.2 := by
  obtain ⟨id,_,h⟩ := Option.bind_eq_some_iff.mp h
  obtain ⟨row,hrow,rfl⟩ := Option.map_eq_some_iff.mp h
  exact hrow

theorem resolveCandidate_chain {arguments : ResolveArguments} {obligation : ObligationRow}
    {source : OwnerSource} {now : Time} {r : Resolution}
    (hm : ∀ p, s.decidedCandidate arguments = some p → ∀ b, b = .pending ∨ b = .rejected ∨
      b = .expired → P.moves p.2.status b)
    (hh : P.home → ∀ p, s.confirmedCandidate arguments now = some p → s.Homely p.1 p.2)
    (ho : s.obligations[arguments.obligationId]? = some obligation)
    (hpend : obligation.status = .pending) (hex : obligation.kind.explicit = false)
    (hkind : obligation.kind = .memoryConfirmation ∨ obligation.kind = .memoryReview)
    (hsub : obligation.subjectType = .memoryCandidate) (hcon : arguments.decision.conflict = false)
    (h : s.resolveCandidate arguments obligation source now = .ok (s',r)) : Chain P s s' := by
  unfold resolveCandidate at h
  split at h
  · cases h
  · next hret =>
    split at h
    · cases h
    · next c row hsubject =>
      have hrow := subject_row hsubject
      obtain ⟨text,htext,h⟩ := bind_ok h
      dsimp only at h
      split at h
      · cases h
        exact .refl
      · next hver =>
        have hdec : s.decidedCandidate arguments = some (c,row) := by
          simp only [decidedCandidate,ho]
          rw [if_pos ⟨hpend,hex,hkind,hsub,hret,hcon⟩,hsubject]
          simpa [Option.filter,htext] using hver
        have hcontent := cleanMemoryContent_some htext
        split at h
        · cases h
          refine decided_chain hrow (fun _ => by exact ⟨rfl,fun _ => rfl⟩) (fun t => ?_) rfl now _ _
          exact .leave (fun _ => hcontent) (hm _ hdec _ (Or.inr (Or.inr rfl))) nofun rfl rfl rfl
            nofun
        · next hdue =>
          split at h
          · next hconfirm =>
            obtain ⟨s₁,hc,h⟩ := bind_ok h
            cases h
            refine confirmCandidate_chain hrow hcontent (hm _ hdec _ (Or.inl rfl))
              (fun hp => hh hp _ ?_) hc
            unfold confirmedCandidate
            rw [if_pos ⟨hconfirm,by simpa [ho] using hdue⟩,hdec]
          · cases h
            refine decided_chain hrow (fun _ => by exact ⟨rfl,fun _ => rfl⟩) (fun t => ?_) rfl now _ _
            exact .leave (fun _ => hcontent) (hm _ hdec _ (Or.inr (Or.inl rfl))) nofun rfl rfl rfl
              nofun

theorem retryExplicitObligation_chain {arguments : ResolveArguments} {obligation : ObligationRow}
    {source : OwnerSource} {now : Time} {r : Resolution}
    (hf : arguments.decision = .retry → P.moves .failed .pending ∧ P.moves .failed .invalidated)
    (hh : P.home → ∀ p, s.retriedCandidate arguments = some p → s.Homely p.1 p.2)
    (ho : s.obligations[arguments.obligationId]? = some obligation)
    (hpend : obligation.status = .pending) (hex : obligation.kind.explicit = true)
    (h : s.retryExplicitObligation arguments obligation source now = .ok (s',r)) : Chain P s s' := by
  unfold retryExplicitObligation at h
  split at h
  · cases h
  · next hret =>
    split at h
    · cases h
    · next hsub =>
      split at h
      · cases h
      · next c row hsubject =>
        have hrow := subject_row hsubject
        split at h
        · cases h
          exact .refl
        · split at h
          · cases h
            exact .refl
          · next hfailed =>
            have hs : row.status = .failed := not_not.mp hfailed
            obtain ⟨text,_,h⟩ := bind_ok h
            dsimp only at h
            split at h
            · cases h
              exact .refl
            · split at h
              · cases h
                exact invalidateRetried_chain hrow (by rw [hs]; exact (hf (not_not.mp hret)).2) now
              · next hlive =>
                cases h
                simp only [not_or] at hlive
                refine retryCandidate_chain hrow (by simp [hs])
                  (by rw [hs]; exact (hf (not_not.mp hret)).1) (fun hp => hh hp (c,row) ?_) _ _ _
                simp only [retriedCandidate,ho]
                rw [if_pos ⟨hpend,hex,not_not.mp hsub,not_not.mp hret⟩,hsubject]
                simpa [Option.filter,hs] using hlive.1

theorem resolveObligationIn_chain {arguments : ResolveArguments} {source : OwnerSource} {now : Time}
    {r : Resolution}
    (hf : arguments.decision = .retry → P.moves .failed .pending ∧ P.moves .failed .invalidated)
    (hm : ∀ p, s.decidedCandidate arguments = some p → ∀ b, b = .pending ∨ b = .rejected ∨
      b = .expired → P.moves p.2.status b)
    (hh : P.home → ∀ p, s.confirmedCandidate arguments now = some p ∨
      s.retriedCandidate arguments = some p → s.Homely p.1 p.2)
    (hcon : arguments.decision.conflict = false)
    (h : s.resolveObligationIn arguments source now = .ok (s',r)) : Chain P s s' := by
  unfold resolveObligationIn at h
  split at h
  · cases h
  · next obligation ho =>
    split at h
    · cases h
      exact .refl
    · next hpend =>
      split at h
      · next hex =>
        exact retryExplicitObligation_chain hf (fun h p hr => hh h p (Or.inr hr)) ho
          (not_not.mp hpend) hex h
      · next hex =>
        split at h
        · cases h
        · next hkind =>
          simp only [not_or,not_and,not_not] at hkind
          refine resolveCandidate_chain hm (fun h p hr => hh h p (Or.inl hr)) ho (not_not.mp hpend)
            (by simpa using hex) ?_ hkind.2 hcon h
          by_cases hk : obligation.kind = .memoryConfirmation
          · exact Or.inl hk
          · exact Or.inr (hkind.1 hk)

end Tables

variable [PyRuntime] {P : Policy} {w : State}

omit [PyRuntime] in
theorem decisionMutation_ok {mutate : Tables → Except Failure (Tables × Bool × Resolution)}
    {s s' : Tables} {version : ℕ} {outcome : SharedWrites.Mutation Dict}
    (h : decisionMutation mutate s version = .ok (outcome,s')) :
    s'.consistent = true ∧ ∃ r, mutate s = .ok (s',r) := by
  obtain ⟨⟨s₁,r⟩,hc,h⟩ := map_ok h
  cases h
  obtain ⟨r',hm,hr⟩ := bind_ok (x := mutate s) hc
  split at hr
  · next hcons =>
    cases hr
    exact ⟨hcons,r,hm⟩
  · cases hr

theorem resolveObligation_chain {arguments : ResolveArguments} {transcriptId : Option ℕ}
    {operationId : OperationId} {now : Time}
    (hf : arguments.decision = .retry → P.moves .failed .pending ∧ P.moves .failed .invalidated)
    (hr : P.moves .awaitingOwner .rejected)
    (hm : ∀ p, w.data.decidedCandidate arguments = some p → ∀ b, b = .pending ∨ b = .rejected ∨
      b = .expired → P.moves p.2.status b)
    (hh : P.home → ∀ p, w.data.confirmedCandidate arguments now = some p ∨
      w.data.retriedCandidate arguments = some p → w.data.Homely p.1 p.2)
    (hfk : w.data.explicitCount w.data.candidates.length = 0)
    (hb : P.bare → arguments.decision = .acceptCompeting ∨ arguments.decision = .restate →
      w.data.BareIntake (w.data.latestOwnerSource transcriptId)) :
    Chain P w.data (resolveObligation w arguments transcriptId operationId now).1.data := by
  unfold resolveObligation
  extract_lets source changeType r
  split
  · exact .refl
  · split
    · split
      · exact .refl
      · next hcon =>
        split
        · exact .refl
        · refine execute_chain _ fun version outcome s h => ?_
          obtain ⟨_,r,h⟩ := decisionMutation_ok h
          refine Tables.resolveConflictMutate_chain hr hfk (fun hbare hk => hb hbare ?_) h
          cases hd : arguments.decision <;> simp_all [OwnerDecision.conflict]
    · split
      · exact .refl
      · next hcon =>
        split
        · split
          · exact .refl
          · refine execute_chain _ fun version outcome s h => ?_
            obtain ⟨_,r,h⟩ := decisionMutation_ok h
            exact (Tables.resolveReviewMutate_frame h).chain
        · exact transact_chain fun s r h =>
            Tables.resolveObligationIn_chain hf hm hh (by simpa using hcon) h

end Memory
end Atlas
