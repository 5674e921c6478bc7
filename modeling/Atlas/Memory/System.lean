import Atlas.Lib.Trace
import Atlas.Memory.Decisions

/-! The memory store as a transition system: one operation at a time, each a transaction,
in any order and with any arguments. -/
namespace Atlas
namespace Memory

inductive Op where
  | createOwnerChat (title : Option String) (now : Time)
  | activateOwnerChat (chatId : ℕ) (now : Time)
  | getOrCreateActive (now : Time)
  | appendTurn (transcriptId : ℕ) (actor : Actor) (blocks : List Json) (now : Time)
  | deleteOwnerChat (chatId : ℕ) (now : Time)
  | enqueueMany (proposals : List RawCandidate) (source : IntakeSource)
  | remember (arguments : RememberArguments) (transcriptId : Option ℕ) (now : Time)
  | correct (arguments : CorrectArguments) (transcriptId : Option ℕ) (now : Time)
  | claimBatch (config : LeaseConfig) (limit : ℕ) (locks : RowLocks) (now : Time)
  | persistReading (claim : CandidateLease) (snapshot : EvaluationSnapshot)
      (reading : IndependentReading) (verifierModel : Option String) (now : Time)
  | persistComparison (claim : CandidateLease) (readingId : ℕ) (comparison : ComparisonVerdict)
      (now : Time)
  | persistReconciliation (claim : CandidateLease) (comparisonId : ℕ)
      (snapshot : EvaluationSnapshot) (relation : MemoryRelationDecision) (now : Time)
  | persistPolicy (claim : CandidateLease) (recordId : ℕ) (policy : String)
      (reason : Option String) (now : Time)
  | finishEpistemicRejection (claim : CandidateLease) (code : String) (now : Time)
  | finishPolicyBlock (claim : CandidateLease) (code : String) (now : Time)
  | requeueAfterVersionConflict (claim : CandidateLease) (snapshot : EvaluationSnapshot)
      (now : Time)
  | releaseAfterConflict (maxAttempts : ℕ) (claim : CandidateLease) (code : String) (now : Time)
  | releaseFailed (maxAttempts : ℕ) (claim : CandidateLease) (code : String) (now : Time)
  | publish (config : PublisherConfig) (claim : CandidateLease) (snapshot : EvaluationSnapshot)
      (decision : ReconciliationDecision) (operationId : OperationId) (now : Time)
  | retire (arguments : RetireArguments) (transcriptId : Option ℕ) (now : Time)
  | restore (memoryId : ℕ) (transcriptId : Option ℕ) (now : Time)
  | delete (arguments : DeleteArguments) (transcriptId : Option ℕ) (now : Time)
  | resolveObligation (arguments : ResolveArguments) (transcriptId : Option ℕ)
      (operationId : OperationId) (now : Time)

/-- The claim a worker step presents. -/
def Op.claim : Op → Option CandidateLease
  | .persistReading c .. | .persistComparison c .. | .persistReconciliation c .. |
    .persistPolicy c .. | .finishEpistemicRejection c .. | .finishPolicyBlock c .. |
    .requeueAfterVersionConflict c .. | .releaseAfterConflict _ c .. | .releaseFailed _ c .. |
    .publish _ c .. => some c
  | _ => none

/-- A transaction that reports nothing but its tables. -/
def silent (r : Except Failure Tables) : Except Failure (Tables × Unit) := r.map fun s => (s,())

variable [PyRuntime]

/-- The state an operation leaves. `loaded` is the store that unlocked reads see. -/
def stepLoaded (loaded : Tables → Tables) (w : State) : Op → State
  | .createOwnerChat title now => (transact w fun s => .ok (s.createOwnerChat title now)).1
  | .activateOwnerChat chatId now => (transact w fun s => s.activateOwnerChat chatId now).1
  | .getOrCreateActive now => (transact w fun s => .ok (s.getOrCreateActive now)).1
  | .appendTurn transcriptId actor blocks now =>
      (transact w fun s => s.appendTurn transcriptId actor blocks now).1
  | .deleteOwnerChat chatId now => (transact w fun s => s.deleteOwnerChat chatId now).1
  | .enqueueMany proposals source =>
      (transact w fun s => silent (.ok (s.enqueueMany proposals source))).1
  | .remember arguments transcriptId now => (remember w arguments transcriptId now).1
  | .correct arguments transcriptId now => (correct w arguments transcriptId now).1
  | .claimBatch config limit locks now =>
      (transact w fun s => .ok (s.claimBatch config limit locks now)).1
  | .persistReading claim snapshot reading model now =>
      (transact w fun s => s.persistReading claim snapshot reading model now).1
  | .persistComparison claim readingId comparison now =>
      (transact w fun s => s.persistComparison claim readingId comparison now).1
  | .persistReconciliation claim comparisonId snapshot relation now =>
      (transact w fun s => s.persistReconciliation claim comparisonId snapshot relation now).1
  | .persistPolicy claim recordId policy reason now =>
      (transact w fun s => s.persistPolicy claim recordId policy reason now).1
  | .finishEpistemicRejection claim code now =>
      (transact w fun s => s.finishEpistemicRejection claim code now).1
  | .finishPolicyBlock claim code now => (transact w fun s => s.finishPolicyBlock claim code now).1
  | .requeueAfterVersionConflict claim snapshot now =>
      (transact w fun s => silent (.ok (s.requeueAfterVersionConflict claim snapshot now))).1
  | .releaseAfterConflict maxAttempts claim code now =>
      (transact w fun s => silent (.ok (s.releaseAfterConflict maxAttempts claim code now))).1
  | .releaseFailed maxAttempts claim code now =>
      (transact w fun s => silent (.ok (Tables.releaseFailed (loaded s) s maxAttempts claim code now))).1
  | .publish config claim snapshot decision operationId now =>
      (publish w config claim snapshot decision operationId now).world
  | .retire arguments transcriptId now => (retire w loaded arguments transcriptId now).1
  | .restore memoryId transcriptId now => (restore w memoryId transcriptId now).1
  | .delete arguments transcriptId now => (delete w loaded arguments transcriptId now).1
  | .resolveObligation arguments transcriptId operationId now =>
      (resolveObligation w arguments transcriptId operationId now).1

/-- An operation whose reads see the store it writes. -/
def step (w : State) (op : Op) : State := stepLoaded id w op

omit [PyRuntime] in
/-- A store before its first candidate. It may hold chats, and memories of earlier releases
with reviews pending for them. -/
structure Initial (w : State) : Prop where
  fresh : w.operations = [] ∧ ∀ resource, w.versions resource = none
  consistent : w.data.consistent = true
  candidates : w.data.candidates = []
  evidence : w.data.evidence = []
  attempts : w.data.attempts = []
  conflicts : w.data.conflicts = []
  commands : w.data.commands = []
  reviews : ∀ o ∈ w.data.obligations, o.kind = .memoryReview ∧ o.subjectType = .durableMemory
  retired : ∀ m ∈ w.data.memories, m.status = .retired → m.suppressesRecall = true

/-- A claim that some `claim_batch` handed out: its attempt row names it. -/
def Issued (s : Tables) (claim : CandidateLease) : Prop :=
  ∃ a, s.attempts[claim.attemptId]? = some a ∧ a.candidateId = claim.candidateId ∧
    a.leaseToken = claim.leaseToken

instance decidableForallSome {α : Type*} (o : Option α) (p : α → Prop) [DecidablePred p] :
    Decidable (∀ a, o = some a → p a) :=
  match o with
  | none => .isTrue nofun
  | some a => decidable_of_iff (p a) ⟨fun h _ ha => Option.some.inj ha ▸ h,fun h => h a rfl⟩

instance decidableExistsSome {α : Type*} (o : Option α) (p : α → Prop) [DecidablePred p] :
    Decidable (∃ a, o = some a ∧ p a) :=
  match o with
  | none => .isFalse nofun
  | some a => decidable_of_iff (p a) ⟨fun h => ⟨a,rfl,h⟩,fun ⟨_,ha,h⟩ => Option.some.inj ha ▸ h⟩

instance decidableForallRow {ρ : Type*} (t : List ρ) (p : ℕ → ρ → Prop)
    [∀ i r, Decidable (p i r)] :
    Decidable (∀ (i : ℕ) (r : ρ), t[i]? = some r → p i r) :=
  decidable_of_iff (∀ i, i < t.length → ∀ r, t[i]? = some r → p i r)
    ⟨fun h i r hr => h i (List.getElem?_eq_some_iff.mp hr).1 r hr,fun h i _ r hr => h i r hr⟩

instance (s : Tables) (claim : CandidateLease) : Decidable (Issued s claim) :=
  inferInstanceAs (Decidable (∃ a, s.attempts[claim.attemptId]? = some a ∧
    (a.candidateId = claim.candidateId ∧ a.leaseToken = claim.leaseToken)))

/-- The steps a run may take: workers present claims they were given. -/
def Legal (w : State) (op : Op) : Prop := ∀ claim, op.claim = some claim → Issued w.data claim

instance (w : State) (op : Op) : Decidable (Legal w op) :=
  inferInstanceAs (Decidable (∀ claim, op.claim = some claim → Issued w.data claim))

abbrev Reachable (ok : State → Op → Prop) : State → Prop :=
  Trace.Reach step (fun w op => Legal w op ∧ ok w op) Initial

omit [PyRuntime] in
theorem transact_cases {α : Type*} (w : State) (tx : Tables → Except Failure (Tables × α)) :
    (∃ e, transact w tx = (w,.error e)) ∨ ∃ s a, tx w.data = .ok (s,a) ∧ s.consistent = true ∧
      transact w tx = ({w with data := s},.ok a) := by
  unfold transact checked
  cases h : tx w.data with
  | error e => exact Or.inl ⟨e,rfl⟩
  | ok r =>
    by_cases hc : r.1.consistent = true
    · exact Or.inr ⟨r.1,r.2,rfl,hc,by simp [Except.bind,hc]⟩
    · exact Or.inl ⟨integrityFailure,by simp [Except.bind,hc]⟩

/-- A shared write that changed the data has a receipt. -/
theorem execute_written (w : State) (envelope : SharedWrites.Envelope OperationId)
    (mutation : Tables → ℕ → Except Failure (SharedWrites.Mutation Dict × Tables)) :
    (SharedWrites.execute w envelope mutation).world.data = w.data ∨
      ∃ outcome receipt, (SharedWrites.execute w envelope mutation).receipt = .ok receipt ∧
        mutation w.data (w.version envelope.resource) =
          .ok (outcome,(SharedWrites.execute w envelope mutation).world.data) := by
  unfold SharedWrites.execute
  cases w.find envelope.operationId with
  | some row =>
    left
    by_cases hi : row.identity = envelope.identity <;> simp [hi]
  | none =>
    by_cases hv : envelope.expectedVersion ≠ none ∧
        envelope.expectedVersion ≠ some (w.version envelope.resource)
    · exact Or.inl (by simp [hv])
    · cases hm : mutation w.data (w.version envelope.resource) with
      | error e => exact Or.inl (by simp only [if_neg hv,hm])
      | ok r => exact Or.inr ⟨r.1,_,by simp only [if_neg hv,hm]; rfl,by simp only [if_neg hv,hm]⟩

theorem execute_data (w : State) (envelope : SharedWrites.Envelope OperationId)
    (mutation : Tables → ℕ → Except Failure (SharedWrites.Mutation Dict × Tables)) :
    (SharedWrites.execute w envelope mutation).world.data = w.data ∨
      ∃ outcome, mutation w.data (w.version envelope.resource) =
        .ok (outcome,(SharedWrites.execute w envelope mutation).world.data) :=
  (execute_written w envelope mutation).imp_right fun ⟨outcome,_,_,h⟩ => ⟨outcome,h⟩

omit [PyRuntime] in
/-- What a transaction makes of the store, failed or committed. -/
theorem transact_rel {α : Type*} {R : Tables → Tables → Prop} {w : State}
    {tx : Tables → Except Failure (Tables × α)} (hrefl : ∀ s, R s s)
    (h : ∀ s a, tx w.data = .ok (s,a) → R w.data s) : R w.data (transact w tx).1.data := by
  rcases transact_cases w tx with ⟨e,he⟩ | ⟨s,a,hs,_,he⟩
  · rw [he]
    exact hrefl _
  · rw [he]
    exact h s a hs

theorem execute_rel {R : Tables → Tables → Prop} {w : State}
    {envelope : SharedWrites.Envelope OperationId}
    {mutation : Tables → ℕ → Except Failure (SharedWrites.Mutation Dict × Tables)}
    (hrefl : ∀ s, R s s)
    (h : ∀ version outcome s, mutation w.data version = .ok (outcome,s) → R w.data s) :
    R w.data (SharedWrites.execute w envelope mutation).world.data := by
  rcases execute_data w envelope mutation with he | ⟨outcome,he⟩
  · rw [he]
    exact hrefl _
  · exact h _ _ _ he

/-- The store of a fresh installation. -/
def emptyStore : State := ⟨fun _ => none,[],{}⟩

omit [PyRuntime] in
theorem emptyStore_initial : Initial emptyStore where
  fresh := ⟨rfl,fun _ => rfl⟩
  consistent := rfl
  candidates := rfl
  evidence := rfl
  attempts := rfl
  conflicts := rfl
  commands := rfl
  reviews _ ho := absurd ho List.not_mem_nil
  retired _ hm := absurd hm List.not_mem_nil

/-- The store a list of operations leaves of a fresh installation. -/
def ran (ops : List Op) : State := ops.foldl step emptyStore

theorem ran_reachable {ok : State → Op → Prop} {ops : List Op}
    (h : Trace.Allowed step (fun w op => Legal w op ∧ ok w op) emptyStore ops) :
    Reachable ok (ran ops) :=
  Trace.Reach.run (.start emptyStore_initial) h

end Memory
end Atlas
