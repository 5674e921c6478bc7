import Atlas.Actions.LifeCycle

/-! What is dispatched, over whole histories of the store: every action at most once, and an
approved one exactly as it was proposed. -/
namespace Atlas
namespace Actions
namespace Ledger

open RowTable Histories

variable [ActionRuntime] {id : ℕ} {a : ActionRow} {now : Instant}

/-- Whether an action is executing. -/
def executing (id : ℕ) (s : Ledger) : Bool := (s.actions[id]?).any (·.status == .executing)

/-- How far an action has come. -/
def progress (id : ℕ) (s : Ledger) : ℕ := (s.actions[id]?).elim 0 (·.status.rank)

omit [ActionRuntime] in
theorem executing_iff (s : Ledger) : executing id s = true ↔ progress id s = 1 := by
  cases h : s.actions[id]? with
  | none => simp [executing,progress,h]
  | some a => simp [executing,progress,h,ActionStatus.rank_eq_one]

theorem progress_le (s : Ledger) (e : Op × Instant) : progress id s ≤ progress id (s.step e) := by
  cases h : s.actions[id]? with
  | none => simp [progress,h]
  | some a =>
    obtain ⟨b,hb,hkept⟩ := s.step_keeps e id a h
    simpa [progress,h,hb] using hkept.status.rank_le

theorem progress_steps (s : Ledger) (es : List (Op × Instant)) :
    progress id s ≤ progress id (es.foldl step s) := by
  induction es generalizing s with
  | nil => exact le_rfl
  | cons e es ih => exact (progress_le s e).trans (ih _)

/-- No history takes an action into execution twice. -/
theorem entries_executing_le (es : List (Op × Instant)) (s : Ledger) :
    entries step (executing id) s es ≤ 1 :=
  (entries_le_one progress_le executing_iff es s).1

/-- What any number of transactions keep of the row of an action. -/
structure Later (a b : ActionRow) : Prop where
  runId : b.runId = a.runId
  operation : b.operation = a.operation
  targetHash : b.targetHash = a.targetHash
  idempotencyKey : b.idempotencyKey = a.idempotencyKey
  settled : ∀ key ∈ ActionRow.settledKeys, Dict.get b.evidence key = Dict.get a.evidence key
  status : Relation.ReflTransGen (ActionStatus.Move true) a.status b.status

omit [ActionRuntime] in
theorem Later.refl (a : ActionRow) : Later a a := ⟨rfl,rfl,rfl,rfl,fun _ _ => rfl,.refl⟩

omit [ActionRuntime] in
theorem Later.tail {a b c : ActionRow} {closing : Bool} (h : Later a b) (h' : b.Kept closing c) :
    Later a c :=
  ⟨h'.runId.trans h.runId,h'.operation.trans h.operation,h'.targetHash.trans h.targetHash,
    h'.idempotencyKey.trans h.idempotencyKey,
    fun k hk => (h'.settled k hk).trans (h.settled k hk),h.status.tail h'.status.loosen⟩

omit [ActionRuntime] in
theorem Later.proposal {a b : ActionRow} (h : Later a b) :
    Dict.get b.evidence "proposal" = Dict.get a.evidence "proposal" :=
  h.settled _ (by simp [ActionRow.settledKeys])

omit [ActionRuntime] in
theorem Later.of_ended {a b : ActionRow} (h : Later a b) (ha : a.status.ended = true) :
    b.status = a.status := by
  obtain ⟨_,_,_,_,_,hstatus⟩ := h
  generalize b.status = y at hstatus
  induction hstatus with
  | refl => rfl
  | tail _ hmove ih => rw [hmove.of_ended (ih ▸ ha),ih]

omit [ActionRuntime] in
/-- Only an action that was proposed still is. -/
theorem Later.of_prepared {a b : ActionRow} (h : Later a b) (hb : b.status = .prepared) :
    a.status = .prepared := by
  obtain ⟨_,_,_,_,_,hstatus⟩ := h
  generalize hx : a.status = x at hstatus
  generalize b.status = y at hstatus hb
  induction hstatus with
  | refl => exact hb
  | tail _ hmove ih =>
    subst hb
    cases hmove with
    | stay => exact ih rfl
    | finish _ hends => simp at hends

theorem steps_later (es : List (Op × Instant)) : ∀ {s : Ledger} {a : ActionRow},
    s.actions[id]? = some a → ∃ b, (es.foldl step s).actions[id]? = some b ∧ Later a b := by
  induction es using List.reverseRecOn with
  | nil => exact fun {_ a} h => ⟨a,h,Later.refl a⟩
  | append_singleton es e ih =>
    intro s a h
    obtain ⟨b,hb,hlater⟩ := ih h
    obtain ⟨c,hc,hkept⟩ := step_keeps _ e id b hb
    exact ⟨c,by simpa using hc,hlater.tail hkept⟩

theorem ran_append (es fs : List (Op × Instant)) : ran (es ++ fs) = fs.foldl step (ran es) := by
  simp [ran]

/-- Over every history an action enters execution at most once, its identity is what it was when
the row was written, and once it has ended its status is settled. -/
theorem action_life_cycle (es fs : List (Op × Instant)) (h : (ran es).actions[id]? = some a) :
    entries step (executing id) {} (es ++ fs) ≤ 1 ∧
      ∃ b, (ran (es ++ fs)).actions[id]? = some b ∧ b.runId = a.runId ∧
        b.operation = a.operation ∧ b.targetHash = a.targetHash ∧
        b.idempotencyKey = a.idempotencyKey ∧
        Dict.get b.evidence "proposal" = Dict.get a.evidence "proposal" ∧
        Relation.ReflTransGen (ActionStatus.Move true) a.status b.status ∧
        (a.status.ended = true → b.status = a.status) := by
  refine ⟨entries_executing_le _ _,?_⟩
  obtain ⟨b,hb,hlater⟩ := steps_later fs h
  rw [ran_append]
  exact ⟨b,hb,hlater.runId,hlater.operation,hlater.targetHash,hlater.idempotencyKey,
    hlater.proposal,hlater.status,hlater.of_ended⟩

/-- A proposal made, begun and finished; the late cancellation changes nothing. -/
def approvedCall : List (Op × Instant) := [
  (.createRun none "say hello" .foreground,1),
  (.prepareProposal 0 "mail.send" [("to",.str "ada")] "Atlas proposes: mail" "mail",2)]

def finishedCall : List (Op × Instant) := [
  (.beginExecution 0 none,3),
  (.complete 0 .succeeded [] none,4),
  (.cancel 0,5)]

omit [ActionRuntime] in
theorem action_life_cycle_finished : letI := plainActions
    ∃ a b, (ran approvedCall).actions[0]? = some a ∧
      (ran (approvedCall ++ finishedCall)).actions[0]? = some b ∧ b.operation = a.operation ∧
      Relation.ReflTransGen (ActionStatus.Move true) a.status b.status := by
  let _ := plainActions
  obtain ⟨a,ha⟩ : ∃ a, (ran approvedCall).actions[0]? = some a := ⟨_,rfl⟩
  obtain ⟨_,b,hb,_,hoperation,_,_,_,hstatus,_⟩ := action_life_cycle approvedCall finishedCall ha
  exact ⟨a,b,ha,hb,hoperation,hstatus⟩

/-- The row of an action is the one that some transaction of the history entered. -/
theorem exists_entered (es : List (Op × Instant)) (h : (ran es).actions[id]? = some a) :
    ∃ before e after x, es = before ++ e :: after ∧ id = (ran before).actions.length ∧
      Enters e.1 id e.2 x ∧ (ran (before ++ [e])).actions[id]? = some x ∧ Later x a := by
  obtain ⟨before,e,after,rfl,hbefore,hafter⟩ := @exists_entry _ _ step
    (fun s : Ledger => (s.actions[id]?).isSome) es {} rfl (by
      show ((ran es).actions[id]?).isSome = true
      simp [h])
  have hnone : (ran before).actions[id]? = none := Option.not_isSome_iff_eq_none.mp (by
    simpa [ran] using hbefore)
  have hstep : ran (before ++ [e]) = (ran before).step e := by simp [ran]
  obtain ⟨x,hx⟩ := Option.isSome_iff_exists.mp hafter
  replace hx : (ran (before ++ [e])).actions[id]? = some x := hx
  have hlater : Later x a := by
    obtain ⟨b,hb,hlater⟩ := steps_later after hx
    rw [← ran_append,List.append_assoc,List.singleton_append] at hb
    obtain rfl := Option.some.inj (h.symm.trans hb)
    exact hlater
  rcases (ran before).step_actions e with hkeeps | ⟨y,henters,hrows⟩
  · have hlen := (List.getElem?_eq_some_iff.mp hx).1
    rw [hstep,hkeeps.length] at hlen
    exact absurd hlen (Nat.not_lt.mpr (List.getElem?_eq_none_iff.mp hnone))
  · have hrow := hx
    rw [hstep,hrows,getElem?_insert] at hrow
    by_cases hid : id = (ran before).actions.length
    · rw [if_pos hid] at hrow
      obtain rfl := Option.some.inj hrow
      exact ⟨before,e,after,y,rfl,hid,hid ▸ henters,hx,hlater⟩
    · rw [if_neg hid,hnone] at hrow
      cases hrow

/-- The fields of a proposal. -/
theorem get_newProposal (operation : String) (arguments : Dict) (title capabilityId : String)
    (t : Instant) :
    let proposal := newProposal operation arguments title capabilityId t
    Dict.get proposal "operation" = some (.str operation) ∧
      Dict.get proposal "arguments" = some (.obj arguments) ∧
      Dict.get proposal "principal" = some (.str ownerPrincipal) ∧
      Dict.get proposal "created_at" = some (.str (PyRuntime.isoformat t)) ∧
      Dict.get proposal "expires_at" =
        some (.str (PyRuntime.isoformat (t + defaultProposalTtl))) ∧
      Dict.get proposal "capability_id" = some (.str capabilityId) := by
  simp [newProposal,Dict.get]

/-- The proposal that a row of `prepare_proposal` is verified to hold is the one it was made with,
and its hour has not passed. -/
theorem verifyProposal_prepared {operation title capabilityId : String}
    {arguments proposal : Dict} {t : Instant}
    (hp : Dict.get a.evidence "proposal" =
      some (.obj (newProposal operation arguments title capabilityId t)))
    (h : verifyProposal a now = .ok proposal) :
    proposal = newProposal operation arguments title capabilityId t ∧
      now < t + defaultProposalTtl := by
  obtain ⟨ho,ha,hpr,hc,he,hca⟩ := get_newProposal operation arguments title capabilityId t
  simp only [verifyProposal,hp,ho,ha,hpr,hc,he,hca,ActionRuntime.str_text,
    ActionRuntime.fromisoformat_isoformat] at h
  split at h
  · cases h
  · split at h
    · cases h
    · next hexpiry =>
      split at h
      · cases h
      · exact ⟨(Except.ok.inj h).symm,Nat.lt_of_not_le hexpiry⟩

theorem preparedAction_proposal (id runId : ℕ) (operation : String) (arguments : Dict)
    (title capabilityId : String) (t : Instant) :
    Dict.get (preparedAction id runId operation arguments title capabilityId t).evidence
      "proposal" = some (.obj (newProposal operation arguments title capabilityId t)) := by
  simp [preparedAction,Dict.get]

theorem beginExecution_reviewed {s s' : Ledger} {hash : String} {proposal : Dict}
    (h : s.beginExecution id (some hash) now = .ok (s',proposal))
    (hrow : s.actions[id]? = some a) : hash = a.targetHash := by
  obtain ⟨b,hb,h⟩ := accepted h
  obtain ⟨_,_,h⟩ := accepted h
  obtain ⟨_,_,h⟩ := accepted h
  obtain ⟨_,hreviewed,_⟩ := accepted h
  obtain rfl := Option.some.inj (hrow.symm.trans (getAction_ok hb))
  simpa using require_ok hreviewed

/-- An action that is still proposed was never dispatched. -/
theorem entries_of_prepared (es : List (Op × Instant)) (hrow : (ran es).actions[id]? = some a)
    (h : a.status = .prepared) : entries step (executing id) {} es = 0 := by
  apply entries_eq_zero_of_last progress_le (n := 1)
  · intro s hs
    exact ((executing_iff s).mp hs).ge
  · show progress id (ran es) < 1
    simp [progress,hrow,h,ActionStatus.rank]

/-- Whatever happened before, an approval that is accepted dispatches exactly what one earlier
`prepare_proposal` of that action proposed, within its hour, after a review of its exact hash and
for the first time. -/
theorem approved_dispatch (es : List (Op × Instant)) {reviewed : Option String} {s' : Ledger}
    {proposal : Dict} (h : (ran es).beginExecution id reviewed now = .ok (s',proposal)) :
    ∃ before after runId operation arguments title capabilityId t a,
      es = before ++ (.prepareProposal runId operation arguments title capabilityId,t) :: after ∧
      id = (ran before).actions.length ∧ (ran es).actions[id]? = some a ∧ a.runId = runId ∧
      a.operation = operation ∧ now < t + defaultProposalTtl ∧
      proposal = newProposal operation arguments title
        ((orNone capabilityId).getD (operationPrefix operation)) t ∧
      (∀ hash, reviewed = some hash → hash = targetHash operation arguments ownerPrincipal
        (PyRuntime.isoformat t) (PyRuntime.isoformat (t + defaultProposalTtl))
        ((orNone capabilityId).getD (operationPrefix operation))) ∧
      entries step (executing id) {} es = 0 := by
  have hbegin := h
  obtain ⟨a,hrow,hstatus,_,hverify,rfl⟩ := beginExecution_ok h
  obtain ⟨before,⟨op,t⟩,after,x,rfl,hid,henters,hx,hlater⟩ := exists_entered es hrow
  have hprepared := hlater.of_prepared hstatus
  -- An automatic action starts out executing and a recorded one ended, so only a proposal is left.
  cases op with
  | prepareProposal runId operation arguments title capabilityId =>
    obtain rfl : x = preparedAction id runId operation arguments title
      ((orNone capabilityId).getD (operationPrefix operation)) t := henters
    obtain ⟨rfl,hexpiry⟩ := verifyProposal_prepared
      (hlater.proposal.trans (preparedAction_proposal _ _ _ _ _ _ _)) hverify
    refine ⟨before,after,runId,operation,arguments,title,capabilityId,t,a,rfl,hid,hrow,
      hlater.runId,hlater.operation,hexpiry,rfl,?_,?_⟩
    · rintro hash rfl
      exact (beginExecution_reviewed hbegin hrow).trans hlater.targetHash
    · exact entries_of_prepared _ hrow hstatus
  | beginAutomaticExecution runId operation arguments summary capabilityId =>
    rw [show x = _ from henters] at hprepared
    cases hprepared
  | recordExecution runId operation arguments status summary output =>
    rw [show x = _ from henters] at hprepared
    simp only [recordedAction] at hprepared
    split at hprepared <;> cases hprepared
  | _ => exact henters.elim

omit [ActionRuntime] in
theorem approved_dispatch_mail : letI := plainActions
    ∃ s' proposal, (ran approvedCall).beginExecution 0 none 3 = .ok (s',proposal) ∧
      entries step (executing 0) {} approvedCall = 0 := by
  let _ := plainActions
  obtain ⟨s',proposal,h⟩ : ∃ s' proposal,
      (ran approvedCall).beginExecution 0 none 3 = .ok (s',proposal) := by
    have haccepted : ((ran approvedCall).beginExecution 0 none 3).toOption.isSome = true := by
      decide +kernel
    cases h : (ran approvedCall).beginExecution 0 none 3 with
    | error e => simp [h,Except.toOption] at haccepted
    | ok r => exact ⟨r.1,r.2,rfl⟩
  obtain ⟨_,_,_,_,_,_,_,_,_,_,_,_,_,_,_,_,_,hfirst⟩ := approved_dispatch approvedCall h
  exact ⟨s',proposal,h,hfirst⟩

end Ledger
end Actions
end Atlas
