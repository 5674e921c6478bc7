import Atlas.Memory.Anchors
import Atlas.Memory.CommandOutcomes
import Atlas.Memory.Constraints
import Atlas.Memory.DeletionLimit
import Atlas.Memory.DurableRows

/-! A deletion with its sources commits if the text of the memory is found in each of them. -/
namespace Atlas
namespace Memory

open RowTable

namespace Tables

section

variable [PyRuntime] {s s₁ : Tables} {memoryId : ℕ} {m : DurableMemoryRow} {now : Time}
  {commandId : ℕ}

/-- The turns that the memories derived from a memory rest on, itself included. -/
def deletionTurns (s : Tables) (memoryId : ℕ) : List ℕ :=
  match s.memoryDescendants [memoryId] [memoryId] with
  | .ok r => (s.memorySources r.1).1
  | .error _ => []

/-- The exact-content matcher finds the text in every turn a deletion is to redact. -/
def Isolated (s : Tables) (memoryId : ℕ) (content : Option String) : Prop :=
  ∀ text, content.bind orNone = some text → ∀ t ∈ s.deletionTurns memoryId,
    ∃ turn, s.turns[t]? = some turn ∧ (redactItems text turn.blocks).2 = true

/-- Neither walk of a deletion exceeds its bound. -/
def Bounded (s : Tables) (memoryId : ℕ) (m : DurableMemoryRow) (now : Time) (commandId : ℕ) : Prop :=
  (s.memoryDescendants [memoryId] [memoryId]).isOk = true ∧
  ∀ s₁ d, s.deletionSources (.command commandId) "memory_and_sources" (some memoryId) m.content now =
      .ok (s₁,d) →
    let r := s₁.invalidateCandidates id (.command commandId) d.dependencies d.candidateIds
      (d.unsourced m.content) m.content true now
    (r.1.dependentMemoryClosure (addMembers d.affected (r.1.turnDependents d.dependencies)) r.2.1
      [memoryId]).isOk = true

instance (content : Option String) : Decidable (s.Isolated memoryId content) :=
  inferInstanceAs (Decidable (∀ text, content.bind orNone = some text → ∀ t ∈ s.deletionTurns memoryId,
    ∃ turn, s.turns[t]? = some turn ∧ (redactItems text turn.blocks).2 = true))

instance : Decidable (s.Bounded memoryId m now commandId) :=
  match h : s.deletionSources (.command commandId) "memory_and_sources" (some memoryId) m.content now with
  | .ok (s₁,d) =>
      let r := s₁.invalidateCandidates id (.command commandId) d.dependencies d.candidateIds
        (d.unsourced m.content) m.content true now
      decidable_of_iff ((s.memoryDescendants [memoryId] [memoryId]).isOk = true ∧
        (r.1.dependentMemoryClosure (addMembers d.affected (r.1.turnDependents d.dependencies)) r.2.1
          [memoryId]).isOk = true)
        (and_congr_right' ⟨fun hr s₁' d' h' => by cases h.symm.trans h'; exact hr,fun hr => hr s₁ d h⟩)
  | .error e =>
      decidable_of_iff ((s.memoryDescendants [memoryId] [memoryId]).isOk = true)
        ⟨fun hr => ⟨hr,fun s₁' d' h' => by cases h.symm.trans h'⟩,And.left⟩

theorem mem_redactSourceTurns {operationId : OperationId} {content : String} {turnIds : List ℕ}
    (h : turnIds ≠ []) {t : ℕ} : t ∈ (s.redactSourceTurns operationId content turnIds now).2 ↔
      t ∈ turnIds ∧ ∃ turn, s.turns[t]? = some turn ∧ (redactItems content turn.blocks).2 = true := by
  have hempty : turnIds.isEmpty = false := by simpa using h
  simp only [redactSourceTurns,hempty,List.mem_filter,List.mem_range,Option.any_eq_true,
    Bool.and_eq_true,if_false,List.contains_iff_mem,Bool.false_eq_true]
  constructor
  · rintro ⟨_,turn,hturn,hin,hred⟩
    exact ⟨hin,turn,hturn,hred⟩
  · rintro ⟨hin,turn,hturn,hred⟩
    exact ⟨(List.getElem?_eq_some_iff.mp hturn).1,turn,hturn,hin,hred⟩

/-- The redaction of the sources succeeds if and only if each of them holds the text. -/
theorem redactSources_isOk (operationId : OperationId) (now : Time) {content : Option String}
    {turnIds : List ℕ} :
    (s.redactSources operationId "memory_and_sources" content turnIds now).isOk = true ↔
      ∀ text, content.bind orNone = some text → ∀ t ∈ turnIds,
        ∃ turn, s.turns[t]? = some turn ∧ (redactItems text turn.blocks).2 = true := by
  unfold redactSources
  split
  · next hnone => simp [hnone,Except.isOk,Except.toBool]
  · next text htext =>
    simp only [ne_eq,not_true_eq_false,if_false,htext,Option.some.injEq,forall_eq']
    by_cases hnil : turnIds = []
    · simp [hnil,Except.isOk,Except.toBool]
    · have hmem : ∀ t, t ∈ (s.redactSourceTurns operationId text turnIds now).2 ↔ t ∈ turnIds ∧
          ∃ turn, s.turns[t]? = some turn ∧ (redactItems text turn.blocks).2 = true :=
        fun t => mem_redactSourceTurns hnil
      have hsub : (s.redactSourceTurns operationId text turnIds now).2.all turnIds.contains = true :=
        List.all_eq_true.mpr fun t ht => List.contains_iff_mem.mpr ((hmem t).mp ht).1
      simp only [hnil,not_false_eq_true,true_and,hsub,and_true]
      by_cases hall : turnIds.all (s.redactSourceTurns operationId text turnIds now).2.contains = true
      · rw [if_neg (not_not.mpr hall)]
        refine iff_of_true rfl fun t ht => ?_
        exact ((hmem t).mp (List.contains_iff_mem.mp (List.all_eq_true.mp hall t ht))).2
      · rw [if_pos hall]
        refine iff_of_false (by simp [Except.isOk,Except.toBool]) fun h => hall ?_
        exact List.all_eq_true.mpr fun t ht => List.contains_iff_mem.mpr ((hmem t).mpr ⟨ht,h t ht⟩)

theorem deletionSources_isOk (operationId : OperationId) (now : Time)
    (h : (s.memoryDescendants [memoryId] [memoryId]).isOk = true) :
    (s.deletionSources operationId "memory_and_sources" (some memoryId) m.content now).isOk = true ↔
      s.Isolated memoryId m.content := by
  obtain ⟨r,hr⟩ := ok_of_isOk h
  have hturns : s.deletionTurns memoryId = (s.memorySources r.1).1 := by rw [deletionTurns,hr]
  unfold Isolated
  rw [hturns,← redactSources_isOk operationId now]
  have hcl : s.deletionClosure (some memoryId) = .ok r := hr
  unfold deletionSources
  rw [hcl]
  cases h : s.redactSources operationId "memory_and_sources" m.content (s.memorySources r.1).1 now with
  | error e =>
    simp only [bind,Except.bind,h]
    exact Iff.rfl
  | ok p => simp only [bind,Except.bind,h,Except.isOk,Except.toBool]

theorem deleteTarget_selected (hs : s.consistent = true) (hm : s.memories[memoryId]? = some m)
    (hd : m.status ≠ .deleted) :
    s.deleteTarget (some memoryId) none = .ok (.selected (some memoryId) m.content) := by
  have hcontent : m.content.isNone = false := by
    simp only [consistent,Bool.and_eq_true,List.all_eq_true] at hs
    have hrow := (hs.1.1.1.1.2 m (List.mem_of_getElem? hm)).1.1.2
    simp only [Bool.or_eq_true,beq_iff_eq,hd,false_or,Bool.and_eq_true] at hrow
    simpa using hrow.1
  simp [deleteTarget,hm,hd,hcontent]

/-- The mutation of a deletion with its sources succeeds if and only if the sources are isolated
and the walks are bounded. -/
theorem deleteMutate_outcome (now : Time) (hs : s.consistent = true) (hm : s.memories[memoryId]? = some m)
    (hd : m.status ≠ .deleted) (hnew : ∀ o ∈ s.obligations, o.commandId ≠ some commandId)
    (source : OwnerSource) :
    (s.Isolated memoryId m.content ∧ s.Bounded memoryId m now commandId →
      ∃ s' applied, s.deleteMutate id (some memoryId) none "memory_and_sources" source now commandId =
        .ok (s',applied) ∧ s'.consistent = true ∧
          ∃ m', s'.memories[memoryId]? = some m' ∧ m'.status = .deleted) ∧
    (¬(s.Isolated memoryId m.content ∧ s.Bounded memoryId m now commandId) →
      ∃ e, s.deleteMutate id (some memoryId) none "memory_and_sources" source now commandId =
        .error e) := by
  have ht := deleteTarget_selected hs hm hd
  refine ⟨fun ⟨hi,hfirst,hsecond⟩ => ?_,fun hn => ?_⟩
  · obtain ⟨⟨s₁,d⟩,hsrc⟩ := ok_of_isOk ((deletionSources_isOk (.command commandId) now hfirst).mpr hi)
    obtain ⟨⟨affected,found⟩,hc⟩ := ok_of_isOk (hsecond s₁ d hsrc)
    obtain ⟨s',applied,hok,hcons,hin,hdel⟩ := deleteMutate_succeeds hs hnew ht hsrc rfl hc
    refine ⟨s',applied,hok,hcons,?_⟩
    have hgraph := (invalidateCandidates_graph id s₁ (.command commandId) d.dependencies
      d.candidateIds (d.unsourced m.content) m.content true now).trans (deletionSources_graph hsrc)
    have hrow : _ = some m := (graph_memories hgraph).symm ▸ hm
    obtain ⟨m',hm',hdeleted,_⟩ := hdel.memory_status hrow
    exact ⟨m',hm',(hdeleted hin).1⟩
  · cases hres : s.deleteMutate id (some memoryId) none "memory_and_sources" source now commandId with
    | error e => exact ⟨e,rfl⟩
    | ok r =>
      refine absurd ?_ hn
      rcases deleteMutate_cases hres with ⟨i,ht',_⟩ | ⟨target,selected,s₁,d,affected,found,ht',hsrc,hdel⟩
      · cases ht.symm.trans ht'
      · cases ht.symm.trans ht'
        have hfirst : (s.memoryDescendants [memoryId] [memoryId]).isOk = true := by
          obtain ⟨r,hcl,_⟩ := bind_ok hsrc
          rw [show s.memoryDescendants [memoryId] [memoryId] = .ok r from hcl]
          rfl
        refine ⟨(deletionSources_isOk (.command commandId) now hfirst).mp (by rw [hsrc]; rfl),
          hfirst,fun s₁' d' hsrc' => ?_⟩
        cases hsrc.symm.trans hsrc'
        exact (congrArg Except.isOk hdel.closure).trans rfl

end

end Tables

section

variable [PyRuntime] {w : State}

/-- A deletion with its sources commits and deletes if each live source holds the text of the memory
and no walk exceeds its bound, and otherwise it raises and leaves only the row of its command. -/
theorem delete_with_sources (hw : Reachable (fun _ _ => True) w) {memoryId : ℕ}
    {m : DurableMemoryRow} (hm : w.data.memories[memoryId]? = some m) (hd : m.status ≠ .deleted)
    (hnew : w.find (.command w.data.commands.length) = none) (transcriptId : Option ℕ) (now : Time) :
    let arguments : DeleteArguments := {memoryId := some memoryId}
    let s := deleting w arguments transcriptId
    let r := delete w id arguments transcriptId now
    (∀ t ∈ s.deletionTurns memoryId, s.LiveTurn t) →
    ((s.Isolated memoryId m.content ∧ s.Bounded memoryId m now w.data.commands.length →
      (∃ receipt, r.2 = .ok receipt) ∧
        ∃ m', r.1.data.memories[memoryId]? = some m' ∧ m'.status = .deleted) ∧
    (¬(s.Isolated memoryId m.content ∧ s.Bounded memoryId m now w.data.commands.length) →
      ∃ row e, r = ({w with data := {w.data with commands := w.data.commands ++ [row]}},.error e))) := by
  intro arguments s r _hlive
  have hc := (reachable_sound hw).consistent
  have hs : s.consistent = true := Tables.beginCommand_consistent hc ..
  have hfresh : ∀ o ∈ s.obligations, o.commandId ≠ some w.data.commands.length := by
    intro o ho hid
    exact absurd (Tables.command_lt hc ho hid) (lt_irrefl _)
  have hout := Tables.deleteMutate_outcome now hs hm hd hfresh
    (w.data.latestOwnerSource transcriptId)
  have hrun : r = runCommand w "delete" arguments.stored (w.data.latestOwnerSource transcriptId)
      (by decide) now fun commandId s => s.deleteMutate id (some memoryId) none
        "memory_and_sources" (w.data.latestOwnerSource transcriptId) now commandId := rfl
  refine ⟨fun hok => ?_,fun hn => ?_⟩
  · obtain ⟨s',applied,hmut,hcons,hdel⟩ := hout.1 hok
    obtain ⟨hdata,hreceipt⟩ := runCommand_commits hc hnew hmut hcons
    rw [hrun]
    exact ⟨hreceipt,by rw [hdata]; exact hdel⟩
  · obtain ⟨e,he⟩ := hout.2 hn
    obtain ⟨row,message,hrow⟩ := runCommand_raised hc hnew he
    exact ⟨row,_,hrun.trans hrow⟩

end

/-- What was remembered was said in these words. -/
def noted : List Op :=
  let claim : CandidateLease := ⟨0,0,0,1⟩
  let snapshot := evaluated claim 0 1 0 [] 0 {explicitOperation := some "remember"}
  [Op.getOrCreateActive 0,.appendTurn 0 .owner [textBlock "note: likes tea"] 1,
    .remember {content := some "likes tea"} none 2,.claimBatch {} 1 {} 3] ++
  evaluation claim snapshot 0 4 ++ [Op.publish {} claim snapshot createDecision (.uuid 0) 5]

theorem delete_with_sources_noted :
    letI := plainRuntime
    let r := delete (ran noted) id {memoryId := some 0} none 6
    (∃ receipt, r.2 = .ok receipt) ∧ ∃ m', r.1.data.memories[0]? = some m' ∧ m'.status = .deleted := by
  obtain ⟨⟨m,hm,hd,hi,hb⟩,hrun,hnew,hlive⟩ : letI := plainRuntime
    let w := ran noted
    let s := deleting w {memoryId := some 0} none
    (∃ m, w.data.memories[0]? = some m ∧ m.status ≠ .deleted ∧ s.Isolated 0 m.content ∧
      s.Bounded 0 m 6 w.data.commands.length) ∧
      Trace.Allowed step (fun w op => Legal w op ∧ True) emptyStore noted ∧
      w.find (.command w.data.commands.length) = none ∧
      ∀ t ∈ s.deletionTurns 0, ∀ turn, s.turns[t]? = some turn → turn.deletedAt = none := by
    rw [plainRuntime_eq]
    decide +kernel
  have hw := @ran_reachable plainRuntime (fun _ _ => True) noted hrun
  exact (@delete_with_sources plainRuntime _ hw 0 m hm hd hnew none 6 hlive).1 ⟨hi,hb⟩

/-- What was remembered in other words cannot be isolated, nor what was said in a chat that the
owner deleted. -/
theorem delete_with_sources_refused :
    letI := plainRuntime
    let deletedChat := noted ++ [.deleteOwnerChat 0 6]
    Reachable (fun _ _ => True) (ran remembered) ∧
    (∃ m, (ran remembered).data.memories[0]? = some m ∧ m.status ≠ .deleted) ∧
    (delete (ran remembered) id {memoryId := some 0} none 7).2.isOk = false ∧
    Reachable (fun _ _ => True) (ran deletedChat) ∧
    (∃ m, (ran deletedChat).data.memories[0]? = some m ∧ m.status ≠ .deleted) ∧
    (delete (ran deletedChat) id {memoryId := some 0} none 7).2.isOk = false := by
  refine And.imp (@ran_reachable plainRuntime _ _)
    (And.imp_right (And.imp_right (And.imp_left (@ran_reachable plainRuntime _ _)))) ?_
  rw [plainRuntime_eq]
  decide +kernel

end Memory
end Atlas
