import Atlas.Memory.Runs

/-! Explicit commands and their candidates: a run that never erases a chat under a pending
explicit obligation, and never gives a candidate a second one, leaves no obligation pending
behind an ended candidate. -/
namespace Atlas
namespace Memory

open RowTable

section

variable [PyRuntime]

theorem settled_step {w : State} {op : Op} (hs : Sound w.data) (hl : Legal w op) (hb : Bare w op)
    (h : Settled w.data) : Settled (step w op).data := by
  have hc : Chain ⟨fun _ _ => True,True,False⟩ w.data (step w op).data :=
    step_chain hs hl (fun _ _ _ => trivial) (by cases op <;> simp [Answers]) (fun _ => hb) nofun
  exact hc.invariant (fun s s' hs hm => hs.micro trivial hm) h

omit [PyRuntime] in
theorem Initial.settled {w : State} (h : Initial w) : Settled w.data where
  single c := by simp [h.count c]
  ended c _ _ _ := h.count c

theorem reachable_settled {w : State} (h : Reachable Bare w) : Settled w.data :=
  reachable_invariant (fun _ => Initial.settled) (fun _ _ hs hl hb => settled_step hs hl hb) h

/-- No explicit obligation is pending about a candidate that has ended. -/
def Agrees (s : Tables) : Prop :=
  ∀ (c : ℕ) (row : CandidateRow), s.candidates[c]? = some row → row.status.terminal = true →
    ∀ o ∈ s.obligations, o.kind.explicit = true → o.subjectType = .memoryCandidate →
      o.subjectId = some c → o.status ≠ .pending

instance (s : Tables) : Decidable (Agrees s) := by
  unfold Agrees
  infer_instance

/-- Obligations and candidates agree in every run without the two unsettled endings. -/
theorem terminal_candidate_settled {w : State} (h : Reachable Bare w) : Agrees w.data := by
  intro c row hrow ht o ho hk hs hc hp
  have hzero := (reachable_settled h).ended c row hrow ht
  rw [Tables.explicitCount,List.countP_eq_zero] at hzero
  exact hzero o ho (by simp [ObligationRow.pendingExplicit,ObligationRow.explicitAbout,hk,hs,hc,hp])

end

/-- An explicit command whose candidate is blocked by policy. -/
def blockedCommand : List Op :=
  [.getOrCreateActive 0,.appendTurn 0 .owner [textBlock "I like tea"] 1,
    .remember {content := some "likes tea"} none 2,.claimBatch {} 1 {} 3,
    .finishPolicyBlock ⟨0,0,0,1⟩ "unsafe" 4]

theorem terminal_candidate_settled_blocked :
    letI := plainRuntime
    ((ran blockedCommand).data.candidates.map (·.status)) = [.blocked] ∧
      Agrees (ran blockedCommand).data := by
  refine And.imp_right (fun hrun => @terminal_candidate_settled plainRuntime _
    (@ran_reachable plainRuntime _ _ hrun)) ?_
  rw [plainRuntime_eq]
  decide +kernel

/-- An explicit command whose chat is deleted before a worker gets to it. -/
def deletedChat : List Op :=
  [.getOrCreateActive 0,.appendTurn 0 .owner [textBlock "I like tea"] 1,
    .remember {content := some "likes tea"} none 2,.deleteOwnerChat 0 3]

/-- Two explicit commands of one owner turn share a candidate, which a worker then ends. -/
def sharedCandidate : List Op :=
  [.getOrCreateActive 0,.appendTurn 0 .owner [textBlock "I like tea"] 1,
    .remember {content := some "likes tea"} none 2,.remember {content := some "likes mate"} none 2,
    .claimBatch {} 1 {} 3,.finishPolicyBlock ⟨0,0,0,1⟩ "unsafe" 4]

/-- Chat deletion settles nothing, and settlement resolves one of several obligations. -/
theorem settlement_missed :
    letI := plainRuntime
    (Reachable (fun _ _ => True) (ran deletedChat) ∧ ¬Agrees (ran deletedChat).data) ∧
      Reachable (fun _ _ => True) (ran sharedCandidate) ∧ ¬Agrees (ran sharedCandidate).data := by
  refine And.imp (And.imp_left (@ran_reachable plainRuntime _ _))
    (And.imp_left (@ran_reachable plainRuntime _ _)) ?_
  rw [plainRuntime_eq]
  decide +kernel

end Memory
end Atlas
