import Atlas.Memory.CommandOutcomes
import Atlas.Memory.DurableRows

/-! What a restoration lifts: the suppression of the row it restores and of no other. -/
namespace Atlas
namespace Memory

open RowTable

namespace Tables

variable {s s' : Tables} {fingerprint : String} {memoryId : ℕ}

/-- A row that is not deleted keeps the wording out of recall. -/
def Suppresses (s : Tables) (fingerprint : String) (i : ℕ) : Prop :=
  ∃ m, s.memories[i]? = some m ∧ m.status ≠ .deleted ∧ m.suppressesRecall = true ∧
    m.fingerprint = some fingerprint

instance (s : Tables) (fingerprint : String) (i : ℕ) : Decidable (s.Suppresses fingerprint i) :=
  inferInstanceAs (Decidable (∃ m, s.memories[i]? = some m ∧ (m.status ≠ .deleted ∧
    m.suppressesRecall = true ∧ m.fingerprint = some fingerprint)))

/-- A row as `restore` leaves it. -/
def restoredRow (now : Time) (m : DurableMemoryRow) : DurableMemoryRow :=
  {m with status := .active, suppressesRecall := false, retiredAt := none, updatedAt := now}

theorem applyCommand_memories {commandId : ℕ} {target replacement : Option ℕ} {now : Time}
    (h : s.applyCommand commandId target replacement now = .ok s') : s'.memories = s.memories :=
  graph_memories (footing_graph (applyCommand_footing h))

/-- A restoration of a retired memory changes its row alone. -/
theorem restoreMutate_memories {now : Time} {commandId : ℕ} {applied : Applied} {m : DurableMemoryRow}
    (hm : s.memories[memoryId]? = some m) (hr : m.status = .retired)
    (h : s.restoreMutate memoryId now commandId = .ok (s',applied)) :
    s'.memories = s.memories.modify memoryId (restoredRow now) := by
  unfold restoreMutate at h
  simp only [hm,hr,reduceCtorEq,if_false,ne_eq,not_true_eq_false] at h
  split at h
  · cases h
  · split at h
    · cases h
    · obtain ⟨s₁,ha,h⟩ := bind_ok h
      cases h
      exact applyCommand_memories ha

/-- Restoring a row lifts its own suppression. -/
theorem suppresses_restored {now : Time}
    (h : s'.memories = s.memories.modify memoryId (restoredRow now)) (i : ℕ) :
    s'.Suppresses fingerprint i ↔ i ≠ memoryId ∧ s.Suppresses fingerprint i := by
  unfold Suppresses
  rw [h]
  by_cases hi : memoryId = i
  · subst hi
    rw [getElem?_modify_self]
    constructor
    · rintro ⟨m,hm,_,hs,_⟩
      obtain ⟨m₀,_,rfl⟩ := Option.map_eq_some_iff.mp hm
      cases hs
    · exact fun h => absurd rfl h.1
  · rw [getElem?_modify_ne _ _ hi]
    exact ⟨fun h => ⟨Ne.symm hi,h⟩,And.right⟩

end Tables

section

variable [PyRuntime] {w : State}

/-- A restoration leaves the memory active and its wording free of suppression if and only if no
other row suppressed that wording before. -/
theorem restore_lifts_suppression {memoryId : ℕ} {m : DurableMemoryRow} {fingerprint : String}
    {transcriptId : Option ℕ} {now : Time} {receipt : SharedWrites.Receipt OperationId Dict}
    (hm : w.data.memories[memoryId]? = some m) (hr : m.status = .retired)
    (hf : m.fingerprint = some fingerprint)
    (hnew : w.find (.command w.data.commands.length) = none)
    (h : (restore w memoryId transcriptId now).2 = .ok receipt) :
    let s' := (restore w memoryId transcriptId now).1.data
    (∃ m', s'.memories[memoryId]? = some m' ∧ m'.status = .active ∧
        m'.fingerprint = some fingerprint ∧ ∀ i, ¬s'.Suppresses fingerprint i) ↔
      ∀ i, i ≠ memoryId → ¬w.data.Suppresses fingerprint i := by
  intro s'
  obtain ⟨applied,hmut⟩ := runCommand_applied hnew h
  have hmem : s'.memories = w.data.memories.modify memoryId (Tables.restoredRow now) :=
    Tables.restoreMutate_memories (s := (w.data.beginCommand "restore"
      (idEntry "memory_id" (some memoryId)) (w.data.latestOwnerSource transcriptId)).1) hm hr hmut
  have hsup : ∀ i, s'.Suppresses fingerprint i ↔ i ≠ memoryId ∧ w.data.Suppresses fingerprint i :=
    Tables.suppresses_restored hmem
  constructor
  · rintro ⟨_,_,_,_,hfree⟩ i hi hs
    exact hfree i ((hsup i).mpr ⟨hi,hs⟩)
  · intro hothers
    refine ⟨Tables.restoredRow now m,?_,rfl,hf,fun i hs => ?_⟩
    · rw [hmem,getElem?_modify_self,hm]
      rfl
    · exact hothers i ((hsup i).mp hs).1 ((hsup i).mp hs).2

end

/-- The owner retires what was remembered. -/
def retiredTea : List Op := remembered ++ [Op.retire {memoryId := some 0} none 6]

/-- The owner then corrects the retired wording, which leaves a guard of its own. -/
def retiredTeaCorrected : List Op :=
  retiredTea ++
    [Op.correct {content := some "likes mate", oldContent := some "likes tea"} none 7]

theorem restore_lifts_suppression_tea :
    letI := plainRuntime
    let s' := (restore (ran retiredTea) 0 none 7).1.data
    ∃ f m', s'.memories[0]? = some m' ∧ m'.status = .active ∧ m'.fingerprint = some f ∧
      ∀ i, ¬s'.Suppresses f i := by
  obtain ⟨⟨m,hm,hr,hf⟩,halone,hok,hnew⟩ : letI := plainRuntime
    let w := ran retiredTea
    (∃ m, w.data.memories[0]? = some m ∧ m.status = .retired ∧ m.fingerprint.isSome = true) ∧
      w.data.memories.length = 1 ∧ (restore w 0 none 7).2.isOk = true ∧
      w.find (.command w.data.commands.length) = none := by
    rw [plainRuntime_eq]
    decide +kernel
  obtain ⟨f,hf⟩ := Option.isSome_iff_exists.mp hf
  obtain ⟨receipt,h⟩ := ok_of_isOk hok
  have hlifts := @restore_lifts_suppression plainRuntime _ 0 m f none 7 receipt hm hr hf hnew h
  refine ⟨f,hlifts.mpr fun i hi hs => ?_⟩
  obtain ⟨m',hm',_⟩ := hs
  have hlt := (List.getElem?_eq_some_iff.mp hm').1
  omega

/-- The guard of the correction outlives the restoration. -/
theorem restored_tea_suppressed :
    letI := plainRuntime
    let w := ran retiredTeaCorrected
    let r := restore w 0 none 8
    Reachable (fun _ _ => True) w ∧ (∃ m, w.data.memories[0]? = some m ∧ m.status = .retired) ∧
      r.2.isOk = true ∧ ∃ m, r.1.data.memories[0]? = some m ∧ m.status = .active ∧
        ∃ f, m.fingerprint = some f ∧ r.1.data.Suppresses f 1 := by
  obtain ⟨hrun,hretired,hok,m,hm,ha,g,hg,hd,hs,hf,hsome⟩ : letI := plainRuntime
    let w := ran retiredTeaCorrected
    let r := restore w 0 none 8
    Trace.Allowed step (fun w op => Legal w op ∧ True) emptyStore retiredTeaCorrected ∧
      (∃ m, w.data.memories[0]? = some m ∧ m.status = .retired) ∧ r.2.isOk = true ∧
      ∃ m, r.1.data.memories[0]? = some m ∧ m.status = .active ∧
      ∃ g, r.1.data.memories[1]? = some g ∧ g.status ≠ .deleted ∧ g.suppressesRecall = true ∧
        g.fingerprint = m.fingerprint ∧ m.fingerprint.isSome = true := by
    rw [plainRuntime_eq]
    decide +kernel
  obtain ⟨f,hsome⟩ := Option.isSome_iff_exists.mp hsome
  exact ⟨@ran_reachable plainRuntime _ _ hrun,hretired,hok,m,hm,ha,f,hsome,g,hg,hd,hs,
    hf.trans hsome⟩

end Memory
end Atlas
