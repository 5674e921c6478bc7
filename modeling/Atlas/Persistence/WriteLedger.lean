import Atlas.Lib.Trace
import Atlas.Persistence.SharedWrites

/-! Laws of the shared-write ledger over whole histories of submissions. -/
namespace Atlas
namespace SharedWrites

section

variable {ι ρ δ ε : Type*} [DecidableEq ι] [PyRuntime]

/-- One call of the coordinator: an envelope with the mutation it carries. -/
structure Submission (ι ρ δ ε : Type*) where
  envelope : Envelope ι
  mutation : δ → ℕ → Except ε (Mutation ρ × δ)

def submit (w : World ι ρ δ) (s : Submission ι ρ δ ε) : Attempted ι ρ δ ε :=
  execute w s.envelope s.mutation

def run (w : World ι ρ δ) (history : List (Submission ι ρ δ ε)) : World ι ρ δ :=
  history.foldl (fun w s => (submit w s).world) w

/-- The attempts of a history, each with the submission that made it. -/
def attempts : World ι ρ δ → List (Submission ι ρ δ ε) →
    List (Submission ι ρ δ ε × Attempted ι ρ δ ε)
  | _, [] => []
  | w, s :: history => (s,submit w s) :: attempts (submit w s).world history

/-- How often a mutation is called under an operation id. -/
def calls (w : World ι ρ δ) (id : ι) (history : List (Submission ι ρ δ ε)) : ℕ :=
  ((attempts w history).filter fun a =>
    decide (a.1.envelope.operationId = id) && a.2.invoked.isSome).length

def Attempted.commits (a : Attempted ι ρ δ ε) : Bool :=
  match a.receipt with
  | .ok _ => a.invoked.isSome
  | .error _ => false

/-- How often a mutation called under an operation id is committed. -/
def commits (w : World ι ρ δ) (id : ι) (history : List (Submission ι ρ δ ε)) : ℕ :=
  ((attempts w history).filter fun a =>
    decide (a.1.envelope.operationId = id) && a.2.commits).length

/-- A ledger before its first write; the resource may hold anything. -/
def World.Fresh (w : World ι ρ δ) : Prop := w.operations = [] ∧ ∀ resource, w.versions resource = none

def World.applied (w : World ι ρ δ) (resource : String × String) : ℕ :=
  (w.operations.filter fun row =>
    decide (row.identity.resource = resource) && decide (row.outcome = .applied)).length

/-- What one submission can do to the world, with the receipt it returns. -/
theorem submit_cases (w : World ι ρ δ) (s : Submission ι ρ δ ε) :
    (∃ row, w.find s.envelope.operationId = some row ∧ (submit w s).invoked = none ∧
      (submit w s).world = w ∧
      ((row.identity = s.envelope.identity ∧ (submit w s).receipt = .ok (row.receipt true)) ∨
        (row.identity ≠ s.envelope.identity ∧
          (submit w s).receipt = .error (.idempotencyConflict reusedMessage)))) ∨
    (w.find s.envelope.operationId = none ∧ ∃ e, (submit w s).receipt = .error (.raised e) ∧
      (submit w s).world = w ∧ (submit w s).invoked = some (w.version s.envelope.resource) ∧
      (s.envelope.expectedVersion = none ∨
        s.envelope.expectedVersion = some (w.version s.envelope.resource))) ∨
    (w.find s.envelope.operationId = none ∧ ∃ row data next,
      (submit w s).world = ⟨Function.update w.versions s.envelope.resource (some next),
        w.operations ++ [row],data⟩ ∧
      (submit w s).receipt = .ok (row.receipt false) ∧
      row.id = s.envelope.operationId ∧ row.identity = s.envelope.identity ∧
      next = w.version s.envelope.resource + (if row.outcome = .applied then 1 else 0) ∧
      (((submit w s).invoked = none ∧ row.outcome = .versionConflict ∧ data = w.data) ∨
        ((submit w s).invoked = some (w.version s.envelope.resource) ∧
          (s.envelope.expectedVersion = none ∨
            s.envelope.expectedVersion = some (w.version s.envelope.resource))))) := by
  unfold submit execute
  cases hf : w.find s.envelope.operationId with
  | some row =>
    left
    by_cases hi : row.identity = s.envelope.identity
    · exact ⟨row,rfl,by simp [hi],by simp [hi],Or.inl ⟨hi,by simp [hi]⟩⟩
    · exact ⟨row,rfl,by simp [hi],by simp [hi],Or.inr ⟨hi,by simp [hi]⟩⟩
  | none =>
    right
    by_cases hv : s.envelope.expectedVersion ≠ none ∧
        s.envelope.expectedVersion ≠ some (w.version s.envelope.resource)
    · right
      refine ⟨rfl,⟨s.envelope.operationId,s.envelope.identity,.conflict,.versionConflict,
        w.version s.envelope.resource,none,none⟩,w.data,w.version s.envelope.resource,?_⟩
      simp [hv]
    · have hexp : s.envelope.expectedVersion = none ∨
          s.envelope.expectedVersion = some (w.version s.envelope.resource) := by
        by_cases hn : s.envelope.expectedVersion = none
        · exact Or.inl hn
        · exact Or.inr (not_not.mp fun h => hv ⟨hn,h⟩)
      cases hm : s.mutation w.data (w.version s.envelope.resource) with
      | error e =>
        left
        exact ⟨rfl,e,by simp [hv,hm],by simp [hv,hm],by simp [hv,hm],hexp⟩
      | ok p =>
        right
        obtain ⟨outcome,data⟩ := p
        refine ⟨rfl,⟨s.envelope.operationId,s.envelope.identity,.committed,
          if outcome.mutated then .applied else .noChange,w.version s.envelope.resource,
          some (if outcome.mutated then w.version s.envelope.resource + 1
            else w.version s.envelope.resource),some outcome.result⟩,data,
          if outcome.mutated then w.version s.envelope.resource + 1
            else w.version s.envelope.resource,?_⟩
        cases hmut : outcome.mutated <;> simp [hv,hm,hmut,hexp]

omit [PyRuntime] in
theorem find_append (w : World ι ρ δ) (row : OperationRow ι ρ) (versions : String × String → Option ℕ)
    (data : δ) (id : ι) :
    World.find ⟨versions,w.operations ++ [row],data⟩ id =
      (w.find id).or (if row.id = id then some row else none) := by
  by_cases h : row.id = id <;> simp [World.find,List.find?_append,h]

theorem submit_find_of_some {w : World ι ρ δ} {id : ι} {row : OperationRow ι ρ}
    (s : Submission ι ρ δ ε) (h : w.find id = some row) : (submit w s).world.find id = some row := by
  rcases submit_cases w s with ⟨_,_,_,hw,_⟩ | ⟨_,_,_,hw,_⟩ | ⟨_,r,data,next,hw,_⟩
  · rw [hw,h]
  · rw [hw,h]
  · rw [hw,find_append,h]
    rfl

theorem run_find_of_some {w : World ι ρ δ} {id : ι} {row : OperationRow ι ρ}
    (history : List (Submission ι ρ δ ε)) (h : w.find id = some row) :
    (run w history).find id = some row := by
  induction history generalizing w with
  | nil => exact h
  | cons s history ih => exact ih (submit_find_of_some s h)

/-- A receipt that was returned is the one the ledger keeps. -/
theorem submit_recorded {w : World ι ρ δ} {s : Submission ι ρ δ ε} {r : Receipt ι ρ}
    (h : (submit w s).receipt = .ok r) :
    ∃ row, (submit w s).world.find s.envelope.operationId = some row ∧
      row.identity = s.envelope.identity ∧ row.receipt true = {r with replayed := true} := by
  rcases submit_cases w s with ⟨row,hf,_,hw,hr⟩ | ⟨_,e,hr,_⟩ | ⟨hf,row,data,next,hw,hr,hid,hi,_⟩
  · rcases hr with ⟨hi,hr⟩ | ⟨_,hr⟩
    · rw [h] at hr
      cases hr
      exact ⟨row,by rw [hw,hf],hi,rfl⟩
    · rw [h] at hr
      cases hr
  · rw [h] at hr
    cases hr
  · rw [h] at hr
    cases hr
    refine ⟨row,?_,hi,rfl⟩
    rw [hw,find_append,hf,if_pos hid]
    rfl

omit [DecidableEq ι] [PyRuntime] in
theorem applied_append (w : World ι ρ δ) (row : OperationRow ι ρ)
    (versions : String × String → Option ℕ) (data : δ) (resource : String × String) :
    World.applied ⟨versions,w.operations ++ [row],data⟩ resource =
      w.applied resource +
        (if row.identity.resource = resource ∧ row.outcome = .applied then 1 else 0) := by
  by_cases h : row.identity.resource = resource <;> by_cases ho : row.outcome = .applied <;>
    simp [World.applied,h,ho]

omit [DecidableEq ι] in
@[simp] theorem identity_resource (envelope : Envelope ι) :
    envelope.identity.resource = envelope.resource := rfl

theorem submit_version {w : World ι ρ δ} (s : Submission ι ρ δ ε)
    (h : ∀ resource, w.version resource = w.applied resource) (resource : String × String) :
    (submit w s).world.version resource = (submit w s).world.applied resource := by
  rcases submit_cases w s with ⟨_,_,_,hw,_⟩ | ⟨_,_,_,hw,_⟩ | ⟨_,row,data,next,hw,_,_,hi,hn,_⟩
  · rw [hw,h]
  · rw [hw,h]
  · rw [hw,applied_append,hi,identity_resource,← h resource]
    by_cases hr : s.envelope.resource = resource
    · subst hr
      simp [World.version,hn]
    · simp [World.version,hr,Function.update_of_ne (Ne.symm hr)]

theorem run_version {w : World ι ρ δ} (history : List (Submission ι ρ δ ε))
    (h : ∀ resource, w.version resource = w.applied resource) (resource : String × String) :
    (run w history).version resource = (run w history).applied resource := by
  induction history generalizing w with
  | nil => exact h resource
  | cons s history ih => exact ih (submit_version s h)

theorem submit_commits {w : World ι ρ δ} {s : Submission ι ρ δ ε} (h : (submit w s).commits = true) :
    w.find s.envelope.operationId = none ∧
      ((submit w s).world.find s.envelope.operationId).isSome = true := by
  unfold Attempted.commits at h
  rcases submit_cases w s with ⟨_,_,hinv,_⟩ | ⟨_,e,hr,_⟩ |
    ⟨hf,row,data,next,hw,_,hid,_⟩
  · rw [hinv] at h
    split at h <;> simp at h
  · rw [hr] at h
    simp at h
  · refine ⟨hf,?_⟩
    rw [hw,find_append,hf,if_pos hid]
    rfl

theorem commits_cons (w : World ι ρ δ) (id : ι) (s : Submission ι ρ δ ε)
    (history : List (Submission ι ρ δ ε)) :
    commits w id (s :: history) =
      (if s.envelope.operationId = id ∧ (submit w s).commits = true then 1 else 0) +
        commits (submit w s).world id history := by
  by_cases h : s.envelope.operationId = id <;> by_cases hc : (submit w s).commits = true <;>
    simp [commits,attempts,h,hc,Nat.add_comm]

theorem commits_of_claimed {w : World ι ρ δ} {id : ι} (history : List (Submission ι ρ δ ε))
    (h : (w.find id).isSome = true) : commits w id history = 0 := by
  induction history generalizing w with
  | nil => rfl
  | cons s history ih =>
    obtain ⟨row,hrow⟩ := Option.isSome_iff_exists.mp h
    have hrest := ih (w := (submit w s).world) (by rw [submit_find_of_some s hrow]; rfl)
    rw [commits_cons,hrest,if_neg]
    rintro ⟨rfl,hc⟩
    rw [(submit_commits hc).1] at h
    exact absurd h (by simp)

theorem commits_le_one (w : World ι ρ δ) (id : ι) (history : List (Submission ι ρ δ ε)) :
    commits w id history ≤ 1 := by
  induction history generalizing w with
  | nil => exact Nat.zero_le _
  | cons s history ih =>
    rw [commits_cons]
    by_cases hc : s.envelope.operationId = id ∧ (submit w s).commits = true
    · have hclaimed := (submit_commits hc.2).2
      rw [hc.1] at hclaimed
      rw [if_pos hc,commits_of_claimed history hclaimed]
    · rw [if_neg hc,Nat.zero_add]
      exact ih _

theorem submit_of_claimed {w : World ι ρ δ} {s : Submission ι ρ δ ε} {row : OperationRow ι ρ}
    (h : w.find s.envelope.operationId = some row) :
    submit w s = if row.identity = s.envelope.identity then ⟨w,.ok (row.receipt true),none⟩
      else ⟨w,.error (.idempotencyConflict reusedMessage),none⟩ := by
  simp only [submit,execute,h]

/-- A submission whose operation id an earlier submission of the history recorded. -/
theorem submit_recorded_again {w : World ι ρ δ} {before after : List (Submission ι ρ δ ε)}
    {original s : Submission ι ρ δ ε} {r : Receipt ι ρ}
    (hr : (submit (run w before) original).receipt = .ok r)
    (hid : original.envelope.operationId = s.envelope.operationId) :
    submit (run w (before ++ original :: after)) s =
      if original.envelope.identity = s.envelope.identity then
        ⟨run w (before ++ original :: after),.ok {r with replayed := true},none⟩
      else ⟨run w (before ++ original :: after),.error (.idempotencyConflict reusedMessage),none⟩ := by
  obtain ⟨row,hrow,hi,hreceipt⟩ := submit_recorded hr
  have hsplit : run w (before ++ original :: after) =
      run (submit (run w before) original).world after := by
    simp [run]
  have hkept := run_find_of_some after hrow
  rw [← hsplit,hid] at hkept
  rw [submit_of_claimed hkept,hi,hreceipt]

theorem submit_invoked {w : World ι ρ δ} {s : Submission ι ρ δ ε} {v : ℕ}
    (h : (submit w s).invoked = some v) :
    w.find s.envelope.operationId = none ∧ v = w.version s.envelope.resource ∧
      (s.envelope.expectedVersion = none ∨ s.envelope.expectedVersion = some v) := by
  rcases submit_cases w s with ⟨_,_,hn,_⟩ | ⟨hf,e,_,_,hi,hexp⟩ |
    ⟨hf,row,data,next,_,_,_,_,_,⟨hn,_⟩ | ⟨hi,hexp⟩⟩
  · rw [hn] at h
    cases h
  · rw [hi] at h
    cases h
    exact ⟨hf,rfl,hexp⟩
  · rw [hn] at h
    cases h
  · rw [hi] at h
    cases h
    exact ⟨hf,rfl,hexp⟩

theorem submit_error {w : World ι ρ δ} {s : Submission ι ρ δ ε} {e : WriteError ε}
    (h : (submit w s).receipt = .error e) : (submit w s).world = w := by
  rcases submit_cases w s with ⟨_,_,_,hw,_⟩ | ⟨_,_,_,hw,_⟩ | ⟨_,row,data,next,_,hr,_⟩
  · exact hw
  · exact hw
  · rw [h] at hr
    cases hr

omit [DecidableEq ι] [PyRuntime] in
theorem fresh_version {w : World ι ρ δ} (h : w.Fresh) (resource : String × String) :
    w.version resource = w.applied resource := by
  simp [World.version,World.applied,h.1,h.2 resource]

/-- Idempotency, optimistic versions and rollback over every history of submissions. -/
theorem shared_write_ledger {w : World ι ρ δ} (h : w.Fresh)
    (history : List (Submission ι ρ δ ε)) (s : Submission ι ρ δ ε) :
    (∀ resource, (run w history).version resource = (run w history).applied resource) ∧
    (∀ id, commits w id history ≤ 1) ∧
    (∀ v, (submit (run w history) s).invoked = some v →
      (run w history).find s.envelope.operationId = none ∧
      v = (run w history).version s.envelope.resource ∧
      (s.envelope.expectedVersion = none ∨ s.envelope.expectedVersion = some v)) ∧
    (∀ before original after r, history = before ++ original :: after →
      (submit (run w before) original).receipt = .ok r →
      original.envelope.operationId = s.envelope.operationId →
      (original.envelope.identity = s.envelope.identity →
        submit (run w history) s = ⟨run w history,.ok {r with replayed := true},none⟩) ∧
      (original.envelope.identity ≠ s.envelope.identity →
        submit (run w history) s =
          ⟨run w history,.error (.idempotencyConflict reusedMessage),none⟩)) ∧
    (∀ e, (submit (run w history) s).receipt = .error e →
      (submit (run w history) s).world = run w history) := by
  refine ⟨run_version history (fresh_version h),fun id => commits_le_one w id history,
    fun v hv => submit_invoked hv,?_,fun e he => submit_error he⟩
  rintro before original after r rfl hr hid
  have hagain := @submit_recorded_again _ _ _ _ _ _ _ _ after _ _ _ hr hid
  exact ⟨fun hi => hagain.trans (if_pos hi),fun hi => hagain.trans (if_neg hi)⟩

end

theorem retire_operation : 1 ≤ "retire".length ∧ "retire".length ≤ 64 := by decide

theorem plain_actor : 1 ≤ "owner".length ∧ "owner".length ≤ 64 := by decide

/-- An envelope that differs from others only in its operation id and payload. -/
def plainEnvelope (id : ℕ) (payload : Json) : Envelope ℕ :=
  ⟨id,"memory_state","owner","retire",none,payload,"owner",none,none,none,
    by decide,by decide,retire_operation,plain_actor⟩

def failingSubmission : Submission ℕ ℕ ℕ String :=
  ⟨plainEnvelope 7 (.str "first"),fun _ _ => .error "connection lost"⟩

def applyingSubmission (payload : String) : Submission ℕ ℕ ℕ String :=
  ⟨plainEnvelope 7 (.str payload),fun data version => .ok (⟨true,version⟩,data + 1)⟩

def emptyWorld : World ℕ ℕ ℕ := ⟨fun _ => none,[],0⟩

theorem emptyWorld_fresh : emptyWorld.Fresh := ⟨rfl,fun _ => rfl⟩

/-- After an exception the id is unclaimed again: a later request, even a different one,
runs its mutation under it. -/
theorem mutation_runs_again_after_rollback :
    letI := plainRuntime
    calls emptyWorld 7 [failingSubmission,applyingSubmission "second"] = 2 ∧
      (applyingSubmission "second").envelope.identity ≠ failingSubmission.envelope.identity ∧
      (submit (run emptyWorld [failingSubmission]) (applyingSubmission "second")).receipt.toBool
        = true := by
  decide

theorem shared_write_ledger_replay :
    letI := plainRuntime
    emptyWorld.Fresh ∧
      (∀ resource, (run emptyWorld [failingSubmission,applyingSubmission "second"]).version resource
        = (run emptyWorld [failingSubmission,applyingSubmission "second"]).applied resource) :=
  letI := plainRuntime
  ⟨emptyWorld_fresh,(shared_write_ledger emptyWorld_fresh
    [failingSubmission,applyingSubmission "second"] (applyingSubmission "second")).1⟩

end SharedWrites
end Atlas
