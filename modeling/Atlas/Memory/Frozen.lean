import Atlas.Memory.DurableRows
import Atlas.Memory.Lineage

/-! What becomes of a memory after its deletion: no operation writes its row again, unless a later
deletion walks back to it through the provenance graph. -/
namespace Atlas
namespace Memory

open RowTable DurableMemoryRow

/-- The mark that a deletion left on a row. -/
structure SameDeletion (m m' : DurableMemoryRow) : Prop where
  status : m'.status = .deleted
  deletedAt : m'.deletedAt = m.deletedAt
  deletion : m'.deletionOperationId = m.deletionOperationId

/-- Deleted rows stay deleted, with the time and the operation of their deletion. -/
def DeletionKept (t t' : List DurableMemoryRow) : Prop :=
  ∀ (i : ℕ) (m : DurableMemoryRow), t[i]? = some m → m.status = .deleted →
    ∃ m', t'[i]? = some m' ∧ SameDeletion m m'

/-- Deleted rows have no text. -/
def Emptied (t : List DurableMemoryRow) : Prop :=
  ∀ (i : ℕ) (m : DurableMemoryRow), t[i]? = some m → m.status = .deleted → m.content = none

theorem emptied_of_consistent {s : Tables} (h : s.consistent = true) : Emptied s.memories := by
  simp only [Tables.consistent,Bool.and_eq_true,decide_eq_true_eq,List.all_eq_true] at h
  have hrows := h.1.1.1.1.2
  intro i m hm hd
  have hrow := (hrows m (List.mem_of_getElem? hm)).1.1.1
  simp only [hd,bne_self_eq_false,Bool.false_or,Bool.and_eq_true,Option.isNone_iff_eq_none] at hrow
  exact hrow.1.1.1.1.1

namespace DeletionKept

variable {t t' t'' : List DurableMemoryRow}

theorem refl (t : List DurableMemoryRow) : DeletionKept t t :=
  fun _ m hm hd => ⟨m,hm,hd,rfl,rfl⟩

theorem trans (h : DeletionKept t t') (h' : DeletionKept t' t'') : DeletionKept t t'' := by
  intro i m hm hd
  obtain ⟨m',hm',hs⟩ := h i m hm hd
  obtain ⟨m'',hm'',hs'⟩ := h' i m' hm' hs.status
  exact ⟨m'',hm'',hs'.status,hs'.deletedAt.trans hs.deletedAt,hs'.deletion.trans hs.deletion⟩

theorem of_eq (h : t' = t) : DeletionKept t t' := h ▸ refl t

end DeletionKept

section

variable [PyRuntime] {t t' : List DurableMemoryRow}

/-- No write of one row is about a deleted row, the redirection of its pointer apart. -/
theorem RowShift.deletion {i : ℕ} {m m' : DurableMemoryRow} (hs : RowShift t i m m')
    (hd : m.status = .deleted) (hc : m.content = none) : SameDeletion m m' := by
  cases hs with
  | retire ha => rw [hd] at ha; cases ha
  | restore hr => rw [hd] at hr; cases hr
  | reword content _ _ hn => exact absurd hc hn
  | supersede j ha => rw [hd] at ha; cases ha
  | point j _ _ hst _ _ hat hop => exact ⟨hst.trans hd,hat,hop⟩

theorem RowWrite.deletion (h : RowWrite False t t') (he : Emptied t) : DeletionKept t t' := by
  intro i m hm hd
  cases h with
  | write j x x' hw hs =>
    by_cases hij : i = j
    · subst hij
      have hx : m = x := Option.some.inj (hm.symm.trans hw.before)
      subst hx
      exact ⟨x',hw.after,hs.deletion hd (he i m hm hd)⟩
    · exact ⟨m,(hw.others i hij).trans hm,hd,rfl,rfl⟩
  | insert x ht _ =>
    subst ht
    exact ⟨m,getElem?_insert_of_some hm,hd,rfl,rfl⟩
  | sweep hl hrows =>
    have hi : i < t'.length := hl ▸ (List.getElem?_eq_some_iff.mp hm).1
    have hm' := List.getElem?_eq_getElem hi
    rcases hrows i m _ hm hm' with ht | ⟨hf,_⟩
    · exact ⟨_,hm',ht.status.trans hd,ht.deletedAt,ht.deletion⟩
    · exact hf.elim

/-- A deleted row gets no text from a write. -/
theorem Emptied.change (he : Emptied t) (h : RecordChange t t') : Emptied t' := by
  intro i x hx hd
  cases h with
  | write j m m' hw hs =>
    rcases hw.cases hx with ⟨rfl,rfl⟩ | ⟨_,hx⟩
    · cases hs with
      | retire _ hr => rw [hr] at hd; cases hd
      | restore _ hr => rw [hr] at hd; cases hd
      | reword content hst _ hn => exact absurd (he _ m hw.before (hst ▸ hd)) hn
      | supersede k _ hr => rw [hr] at hd; cases hd
      | point k _ _ hst hp => exact hp.content.trans (he _ m hw.before (hst ▸ hd))
    · exact he i x hx hd
  | insert m ht hi =>
    subst ht
    rw [getElem?_insert] at hx
    split at hx
    · cases hx
      cases hi with
      | created content hs => rw [hs] at hd; cases hd
      | lifecycle content hs => rcases hs with hs | hs <;> (rw [hs] at hd; cases hd)
      | historical content target hs => rw [hs] at hd; cases hd
      | tombstone ht => exact ht.content
    · exact he i x hx hd
  | sweep hl hrows =>
    obtain ⟨m,hm⟩ := sweep_source hl hx
    rcases hrows i m x hm hx with ht | ⟨_,ht,_⟩
    · exact ht.content.trans (he i m hm (ht.status ▸ hd))
    · exact ht.content

/-- Operations that erase no row leave the mark of every deletion. -/
theorem RowWrites.deletion (h : RowWrites False t t') (he : Emptied t) : DeletionKept t t' := by
  have hrun : Emptied t' ∧ DeletionKept t t' := by
    induction h with
    | refl => exact ⟨he,.refl t⟩
    | tail _ hw ih => exact ⟨ih.1.change hw.change,ih.2.trans (hw.deletion ih.1)⟩
  exact hrun.2

end

namespace Tables

/-- What the second walk of a deletion meets, memories on the left and candidates on the right:
the roots and what derives from a memory it met or from a candidate it met, barriers apart. -/
inductive Walked (s : Tables) (never roots candidateIds : List ℕ) : ℕ ⊕ ℕ → Prop
  | root {m : ℕ} : m ∈ roots → ¬s.Barrier never m → Walked s never roots candidateIds (.inl m)
  | purged {c : ℕ} : c ∈ candidateIds → Walked s never roots candidateIds (.inr c)
  | derived {p : ProvenanceRow} {m : ℕ} : p ∈ s.provenance → p.sourceMemoryId = some m →
      Walked s never roots candidateIds (.inl m) → ¬s.Barrier never p.memoryId →
      Walked s never roots candidateIds (.inl p.memoryId)
  | grounded {p : ProvenanceRow} {c : ℕ} : p ∈ s.provenance → p.sourceCandidateId = some c →
      Walked s never roots candidateIds (.inr c) → ¬s.Barrier never p.memoryId →
      Walked s never roots candidateIds (.inl p.memoryId)
  | behind {p : ProvenanceRow} {m c : ℕ} : p ∈ s.provenance → p.sourceMemoryId = some m →
      p.sourceCandidateId = some c → Walked s never roots candidateIds (.inl m) →
      ¬s.Barrier never p.memoryId → Walked s never roots candidateIds (.inr c)

variable {s s' : Tables} {never roots candidateIds : List ℕ}

theorem Walked.leading {memories candidates : List ℕ}
    (hm : ∀ m ∈ memories, s.Walked never roots candidateIds (.inl m))
    (hc : ∀ c ∈ candidates, s.Walked never roots candidateIds (.inr c)) {p : ProvenanceRow}
    (hp : p ∈ s.leading memories candidates) (hb : ¬s.Barrier never p.memoryId) :
    s.Walked never roots candidateIds (.inl p.memoryId) ∧ ∀ c, p.sourceCandidateId = some c →
      s.Walked never roots candidateIds (.inr c) := by
  obtain ⟨hp,⟨m,hin,hs⟩ | ⟨c,hin,hs⟩⟩ := mem_leading.mp hp
  · exact ⟨.derived hp hs (hm m hin) hb,fun c hsc => .behind hp hs hsc (hm m hin) hb⟩
  · refine ⟨.grounded hp hs (hc c hin) hb,fun c' hsc => ?_⟩
    have hcc : c = c' := Option.some.inj (hs.symm.trans hsc)
    exact hcc ▸ hc c hin

/-- The loop meets nothing that the walk does not. -/
theorem dependentMemoryClosureLoop_walked (fuel : ℕ) {seen preserved memories candidates : List ℕ}
    {seen' preserved' : List ℕ} (hseen : ∀ m ∈ seen, s.Walked never roots candidateIds (.inl m))
    (hm : ∀ m ∈ memories, s.Walked never roots candidateIds (.inl m))
    (hc : ∀ c ∈ candidates, s.Walked never roots candidateIds (.inr c))
    (hr : s.dependentMemoryClosureLoop never fuel seen preserved memories candidates =
      .ok (seen',preserved')) : ∀ m ∈ seen', s.Walked never roots candidateIds (.inl m) := by
  induction fuel generalizing seen preserved memories candidates with
  | zero =>
    cases hr
    exact hseen
  | succ fuel ih =>
    by_cases hempty : memories = [] ∧ candidates = []
    · obtain ⟨rfl,rfl⟩ := hempty
      cases hr
      exact hseen
    · rw [dependentMemoryClosureLoop_round fuel fun hm hc => hempty ⟨hm,hc⟩] at hr
      extract_lets found barriers fresh at hr
      have hfresh : ∀ m ∈ fresh, s.Walked never roots candidateIds (.inl m) := by
        intro m hin
        obtain ⟨hin,hb⟩ := mem_fresh.mp hin
        obtain ⟨p,hp,rfl⟩ := List.mem_map.mp (mem_newMembers.mp hin).1
        exact (Walked.leading hm hc hp hb).1
      split at hr
      · cases hr
      · refine ih (fun m hin => ?_) hfresh (fun c hin => ?_) hr
        · rcases List.mem_append.mp hin with hin | hin
          · exact hseen m hin
          · exact hfresh m hin
        · obtain ⟨p,hp,hs⟩ := List.mem_filterMap.mp hin
          obtain ⟨hp,hin⟩ := List.mem_filter.mp hp
          have hb := (mem_fresh.mp (List.contains_iff_mem.mp hin)).2
          exact (Walked.leading hm hc hp hb).2 c hs

theorem dependentMemoryClosure_walked {seen preserved : List ℕ}
    (h : s.dependentMemoryClosure roots candidateIds never = .ok (seen,preserved)) :
    ∀ m ∈ seen, s.Walked never roots candidateIds (.inl m) := by
  unfold dependentMemoryClosure at h
  have hstart : ∀ m ∈ roots.filter
      (fun id => !(s.independentOwnerGroundedIds roots never).contains id),
      s.Walked never roots candidateIds (.inl m) := by
    intro m hm
    obtain ⟨hm,hb⟩ := mem_fresh.mp hm
    exact .root hm hb
  exact dependentMemoryClosureLoop_walked _ hstart hstart (fun c hc => .purged hc) h

section

variable [PyRuntime] {r : Tables × List ℕ × List ℕ} {d : DeletionSources} {affected found : List ℕ}
  {target : Option ℕ} {source : OwnerSource} {commandId : ℕ} {now : Time}

theorem detached_deletion (he : Emptied r.1.memories) :
    DeletionKept r.1.memories (detached r d affected found now).memories := by
  unfold detached
  split
  · exact .refl _
  · exact (detachPurgedDependencies_records r.1 _ _ _ _ now).deletion he

/-- A deletion leaves the marks of earlier ones if its walk meets no deleted row. -/
theorem Deletion.deletionKept (h : Deletion s' r d commandId target source now affected found)
    (he : Emptied r.1.memories) (hspared : ∀ m ∈ affected, ∀ row, r.1.memories[m]? = some row →
      row.status ≠ .deleted) : DeletionKept r.1.memories s'.memories := by
  have hkept : DeletionKept r.1.memories (detached r d affected found now).memories :=
    detached_deletion he
  intro m row hm hd
  obtain ⟨mid,hmid,hs⟩ := hkept m row hm hd
  have hout : affected.contains m = false := by
    rw [← Bool.not_eq_true,List.contains_iff_mem]
    exact fun hin => hspared m hin row hm hd
  refine ⟨mid,?_,hs⟩
  rw [graph_memories h.graph,deleteRows_memory (List.getElem?_eq_some_iff.mp hmid).1,hmid,
    Option.map_some,hout]
  rfl

/-- The memories that the second walk of a deletion meets. -/
def DeletionWalk (s : Tables) (memoryId : Option ℕ) (content : Option String) (scope : String)
    (now : Time) (commandId m : ℕ) : Prop :=
  ∃ target selected s₁ d, s.deleteTarget memoryId content = .ok (.selected target selected) ∧
    s.deletionSources (.command commandId) scope target selected now = .ok (s₁,d) ∧
    let r := s₁.invalidateCandidates id (.command commandId) d.dependencies d.candidateIds
      (d.unsourced selected) selected true now
    r.1.Walked target.toList (addMembers d.affected (r.1.turnDependents d.dependencies)) r.2.1 (.inl m)

theorem deleteMutate_deletionKept {memoryId : Option ℕ} {content : Option String} {scope : String}
    {applied : Applied} (he : Emptied s.memories)
    (hspared : ∀ m row, s.DeletionWalk memoryId content scope now commandId m →
      s.memories[m]? = some row → row.status ≠ .deleted)
    (h : s.deleteMutate id memoryId content scope source now commandId = .ok (s',applied)) :
    DeletionKept s.memories s'.memories := by
  rcases deleteMutate_cases h with ⟨id,_,ha⟩ | ⟨target,selected,s₁,d,affected,found,ht,hd,hdel⟩
  · exact .of_eq (graph_memories (footing_graph (applyCommand_footing ha)))
  · have hmem := graph_memories ((invalidateCandidates_graph id s₁ (.command commandId)
      d.dependencies d.candidateIds (d.unsourced selected) selected true now).trans
      (deletionSources_graph hd))
    have hkept := hdel.deletionKept (hmem ▸ he) fun m hin row hrow => by
      refine hspared m row ⟨target,selected,s₁,d,ht,hd,?_⟩ (hmem ▸ hrow)
      exact dependentMemoryClosure_walked hdel.closure m hin
    rwa [hmem] at hkept

end

end Tables

section

variable [PyRuntime] {w w' : State}

/-- The steps that walk back to no deleted memory. -/
def SparesDeleted (w : State) : Op → Prop
  | .delete arguments transcriptId now =>
      ∀ content, arguments.content.mapM (fun c => cleanMemoryContent (some c) "content") = .ok content →
        ∀ m row, (w.data.beginCommand "delete" arguments.stored
          (w.data.latestOwnerSource transcriptId)).1.DeletionWalk arguments.memoryId content
            arguments.effectiveScope now w.data.commands.length m →
          w.data.memories[m]? = some row → row.status ≠ .deleted
  | _ => True

theorem sparesDeleted_of_none {op : Op} (h : ∀ m ∈ w.data.memories, m.status ≠ .deleted) :
    SparesDeleted w op := by
  cases op with
  | delete => exact fun _ _ m row _ hrow => h row (List.mem_of_getElem? hrow)
  | _ => trivial

theorem step_deletionKept {op : Op} (hs : w.data.consistent = true) (hop : SparesDeleted w op) :
    DeletionKept w.data.memories (step w op).data.memories := by
  have he := emptied_of_consistent hs
  have hmild : op.erases = False → DeletionKept w.data.memories (step w op).data.memories :=
    fun h => (h ▸ stepLoaded_writes id op hs).deletion he
  cases op with
  | delete arguments transcriptId now =>
    refine delete_cases (Q := fun t => DeletionKept w.data.memories t.memories) (.refl _) (.refl _)
      (fun e t hf => ?_) fun content applied t hc hm => ?_
    · exact .of_eq ((Tables.graph_memories (Tables.footing_graph
        (Tables.failCommand_footing hf))).trans rfl)
    · have hspared := hop content hc
      revert hm hspared
      generalize hbegun : (w.data.beginCommand "delete" arguments.stored
        (w.data.latestOwnerSource transcriptId)).1 = s
      have hmem : s.memories = w.data.memories := hbegun ▸ rfl
      rw [← hmem] at he ⊢
      exact fun hm hspared => Tables.deleteMutate_deletionKept he hspared hm
  | _ => exact hmild rfl

/-- A deleted memory is frozen: in every run whose deletions walk back to no deleted memory its
status and the time and operation of its deletion stay as they are. -/
theorem deleted_memory_frozen (hw : Reachable (fun _ _ => True) w)
    (hp : Trace.Path step (fun w op => Legal w op ∧ SparesDeleted w op) w w') :
    DeletionKept w.data.memories w'.data.memories := by
  have hrun : Reachable (fun _ _ => True) w' ∧ DeletionKept w.data.memories w'.data.memories := by
    induction hp with
    | refl => exact ⟨hw,.refl _⟩
    | tail _ hok ih =>
      refine ⟨.next ih.1 ⟨hok.1,trivial⟩,ih.2.trans ?_⟩
      exact step_deletionKept (reachable_sound ih.1).consistent hok.2
  exact hrun.2

end

/-- The correction is deleted, and its predecessor is left. -/
def correctionDeleted : List Op :=
  corrected ++ [Op.delete {memoryId := some 1, scope := some "memory_only"} none 11]

theorem deleted_memory_frozen_restored :
    letI := plainRuntime
    let w := ran correctionDeleted
    (∃ m, w.data.memories[1]? = some m ∧ m.status = .deleted) ∧
      DeletionKept w.data.memories (step w (.restore 1 none 12)).data.memories := by
  refine And.imp_right (fun hrun => @deleted_memory_frozen plainRuntime _ _
    (@ran_reachable plainRuntime _ _ hrun) (.tail .refl ⟨nofun,trivial⟩)) ?_
  rw [plainRuntime_eq]
  decide +kernel

/-- The deletion of the predecessor marks the correction once more. -/
theorem deleted_memory_marked_again :
    letI := plainRuntime
    let w := ran correctionDeleted
    let w' := step w (.delete {memoryId := some 0, scope := some "memory_only"} none 12)
    Reachable (fun _ _ => True) w ∧ ¬DeletionKept w.data.memories w'.data.memories := by
  obtain ⟨hrun,⟨m,hm,hd,hat⟩,m₁,hm₁,hat₁⟩ : letI := plainRuntime
    let w := ran correctionDeleted
    let w' := step w (.delete {memoryId := some 0, scope := some "memory_only"} none 12)
    Trace.Allowed step (fun w op => Legal w op ∧ True) emptyStore correctionDeleted ∧
      (∃ m : DurableMemoryRow, w.data.memories[1]? = some m ∧ m.status = .deleted ∧
        m.deletedAt = some 11) ∧
      ∃ m : DurableMemoryRow, w'.data.memories[1]? = some m ∧ m.deletedAt = some 12 := by
    rw [plainRuntime_eq]
    decide +kernel
  refine ⟨@ran_reachable plainRuntime _ _ hrun,fun h => ?_⟩
  obtain ⟨m',hm',hs⟩ := h 1 m hm hd
  have heq : m₁ = m' := Option.some.inj (hm₁.symm.trans hm')
  have hsame := hs.deletedAt
  rw [← heq,hat₁,hat] at hsame
  cases hsame

end Memory
end Atlas
