import Atlas.Memory.Commands

/-! How a lifecycle command ends: its mutation is the new store, or the command leaves nothing but
its own row. -/
namespace Atlas
namespace Memory

open RowTable

theorem ok_of_isOk {ε α : Type*} {r : Except ε α} (h : r.isOk = true) : ∃ a, r = .ok a := by
  cases r with
  | error e => cases h
  | ok a => exact ⟨a,rfl⟩

namespace Tables

variable {s : Tables}

theorem beginCommand_consistent (h : s.consistent = true) (operation : String) (arguments : Dict)
    (source : OwnerSource) : (s.beginCommand operation arguments source).1.consistent = true := by
  simp only [consistent,beginCommand,Bool.and_eq_true,List.all_eq_true,List.length_append] at h ⊢
  refine ⟨h.1,fun o ho => ?_⟩
  have hlt := h.2 o ho
  cases hid : o.commandId with
  | none => rfl
  | some id =>
    rw [hid] at hlt
    simp only [Option.all_some,decide_eq_true_eq] at hlt ⊢
    exact Nat.lt_add_right _ hlt

theorem modify_last {α : Type*} (l : List α) (a : α) (f : α → α) :
    (l ++ [a]).modify l.length f = l ++ [f a] := by
  induction l with
  | nil => rfl
  | cons x l ih => simp [ih]

/-- The failure of a command that began marks its row. -/
theorem failCommand_begun (h : s.consistent = true) (operation : String) (arguments : Dict)
    (source : OwnerSource) (e : Failure) (now : Time) :
    ∃ row, (s.beginCommand operation arguments source).1.failCommand s.commands.length e now =
      .ok {s with commands := s.commands ++ [row]} := by
  have hnone : ids (fun o => o.commandId == some s.commands.length && o.status == .pending)
      s.obligations = [] := by
    refine List.eq_nil_iff_forall_not_mem.mpr fun i hi => ?_
    obtain ⟨o,ho,hp⟩ := mem_ids.mp hi
    simp only [Bool.and_eq_true,beq_iff_eq] at hp
    exact absurd (command_lt h (List.mem_of_getElem? ho) hp.1) (lt_irrefl _)
  unfold failCommand resolveCommandObligation beginCommand setCommand
  dsimp only
  rw [hnone,modify_last]
  exact ⟨_,rfl⟩

end Tables

section

variable [PyRuntime] {w : State}

omit [PyRuntime] in
theorem beginCommand_transact (h : w.data.consistent = true) {operation : String} {arguments : Dict}
    {source : OwnerSource} :
    transact w (fun s => .ok (s.beginCommand operation arguments source)) =
      ({w with data := (w.data.beginCommand operation arguments source).1},
        .ok w.data.commands.length) := by
  simp only [transact,checked,Except.bind,Tables.beginCommand_consistent h]
  rfl

theorem execute_raised (w : State) (envelope : SharedWrites.Envelope OperationId)
    {mutation : Tables → ℕ → Except Failure (SharedWrites.Mutation Dict × Tables)} {e : Failure}
    (hnew : w.find envelope.operationId = none) (hv : envelope.expectedVersion = none)
    (hm : mutation w.data (w.version envelope.resource) = .error e) :
    SharedWrites.execute w envelope mutation =
      ⟨w,.error (.raised e),some (w.version envelope.resource)⟩ := by
  unfold SharedWrites.execute
  simp only [hnew,hv,hm,ne_eq,not_true_eq_false,false_and,if_false]

/-- A command whose mutation raises leaves its own row and nothing else. -/
theorem runCommand_raised {operation : String} {arguments : Dict} {source : OwnerSource}
    {hb : 1 ≤ operation.length ∧ operation.length ≤ 64} {now : Time}
    {mutate : ℕ → Tables → Except Failure (Tables × Applied)} (h : w.data.consistent = true)
    (hnew : w.find (.command w.data.commands.length) = none) {e : Failure}
    (hm : mutate w.data.commands.length (w.data.beginCommand operation arguments source).1 = .error e) :
    ∃ row message, runCommand w operation arguments source hb now mutate =
      ({w with data := {w.data with commands := w.data.commands ++ [row]}},
        .error ⟨.memoryMutationError,message⟩) := by
  obtain ⟨row,hrow⟩ := Tables.failCommand_begun h operation arguments source e now
  let begun : State := {w with data := (w.data.beginCommand operation arguments source).1}
  have hrun : SharedWrites.execute begun
      (lifecycleEnvelope w.data.commands.length operation source hb)
      (memoryMutation (mutate w.data.commands.length)) =
      ⟨begun,.error (.raised e),some (begun.version memoryResource)⟩ := by
    refine execute_raised begun _ hnew rfl ?_
    simp only [memoryMutation,checked,begun,hm,Except.bind,Except.map]
  unfold runCommand
  rw [beginCommand_transact h]
  dsimp only
  rw [hrun]
  dsimp only
  rcases transact_cases begun fun s =>
      (s.failCommand w.data.commands.length (writeFailure (.raised e)) now).map fun s => (s,()) with
    ⟨e',he⟩ | ⟨s,_,hs,_,he⟩
  · rw [he]
    exact ⟨_,_,rfl⟩
  · rw [he]
    obtain ⟨s₁,hf,hs⟩ := map_ok hs
    cases hs
    have hs₁ := Except.ok.inj (hf.symm.trans hrow)
    subst hs₁
    exact ⟨row,_,rfl⟩

theorem execute_applied (w : State) (envelope : SharedWrites.Envelope OperationId)
    {mutation : Tables → ℕ → Except Failure (SharedWrites.Mutation Dict × Tables)}
    {outcome : SharedWrites.Mutation Dict} {s' : Tables}
    (hnew : w.find envelope.operationId = none) (hv : envelope.expectedVersion = none)
    (hm : mutation w.data (w.version envelope.resource) = .ok (outcome,s')) :
    (SharedWrites.execute w envelope mutation).world.data = s' ∧
      ∃ receipt, (SharedWrites.execute w envelope mutation).receipt = .ok receipt := by
  unfold SharedWrites.execute
  simp only [hnew,hv,hm,ne_eq,not_true_eq_false,false_and,if_false]
  exact ⟨trivial,_,rfl⟩

/-- A command that succeeds has run its mutation. -/
theorem runCommand_applied {operation : String} {arguments : Dict} {source : OwnerSource}
    {hb : 1 ≤ operation.length ∧ operation.length ≤ 64} {now : Time}
    {mutate : ℕ → Tables → Except Failure (Tables × Applied)}
    (hnew : w.find (.command w.data.commands.length) = none)
    {receipt : SharedWrites.Receipt OperationId Dict}
    (h : (runCommand w operation arguments source hb now mutate).2 = .ok receipt) :
    ∃ applied, mutate w.data.commands.length (w.data.beginCommand operation arguments source).1 =
      .ok ((runCommand w operation arguments source hb now mutate).1.data,applied) := by
  revert h
  unfold runCommand
  rcases transact_cases w fun s => .ok (s.beginCommand operation arguments source) with
    ⟨e,he⟩ | ⟨s,commandId,hs,_,he⟩
  · rw [he]
    intro h
    cases h
  · have hid : w.data.commands.length = commandId := congrArg Prod.snd (Except.ok.inj hs)
    have hbegun : (w.data.beginCommand operation arguments source).1 = s :=
      congrArg Prod.fst (Except.ok.inj hs)
    subst hid hbegun
    rw [he]
    dsimp only
    let begun : State := {w with data := (w.data.beginCommand operation arguments source).1}
    let envelope := lifecycleEnvelope w.data.commands.length operation source hb
    cases hm : memoryMutation (mutate w.data.commands.length) begun.data
        (begun.version envelope.resource) with
    | error e =>
      rw [execute_raised begun envelope hnew rfl hm]
      intro h
      cases h
    | ok r =>
      obtain ⟨hdata,receipt',hr⟩ := execute_applied begun envelope hnew rfl hm
      rw [hr]
      intro _
      obtain ⟨_,applied,hm⟩ := memoryMutation_ok hm
      refine ⟨applied,hm.trans ?_⟩
      dsimp only
      rw [← hdata]

/-- A command whose mutation succeeds within the constraints is applied. -/
theorem runCommand_commits {operation : String} {arguments : Dict} {source : OwnerSource}
    {hb : 1 ≤ operation.length ∧ operation.length ≤ 64} {now : Time}
    {mutate : ℕ → Tables → Except Failure (Tables × Applied)} (h : w.data.consistent = true)
    (hnew : w.find (.command w.data.commands.length) = none) {s' : Tables} {applied : Applied}
    (hm : mutate w.data.commands.length (w.data.beginCommand operation arguments source).1 =
      .ok (s',applied)) (hc : s'.consistent = true) :
    (runCommand w operation arguments source hb now mutate).1.data = s' ∧
      ∃ receipt, (runCommand w operation arguments source hb now mutate).2 = .ok receipt := by
  let begun : State := {w with data := (w.data.beginCommand operation arguments source).1}
  let envelope := lifecycleEnvelope w.data.commands.length operation source hb
  have hmut : memoryMutation (mutate w.data.commands.length) begun.data
      (begun.version envelope.resource) = .ok (⟨applied.mutated,applied.dict⟩,s') := by
    simp only [memoryMutation,checked,begun,hm,Except.bind,hc,if_true,Except.map]
  obtain ⟨hdata,receipt,hr⟩ := execute_applied begun envelope hnew rfl hmut
  have hrun : runCommand w operation arguments source hb now mutate =
      ((SharedWrites.execute begun envelope (memoryMutation (mutate w.data.commands.length))).world,
        .ok receipt) := by
    unfold runCommand
    rw [beginCommand_transact h]
    dsimp only
    rw [hr]
  rw [hrun]
  exact ⟨hdata,receipt,rfl⟩

end

end Memory
end Atlas
