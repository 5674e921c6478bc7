import Atlas.Memory.Bodies
import Atlas.Memory.GraphSteps
import Atlas.Memory.PublisherWrites

/-! Every transaction changes the durable memories by a run of row writes. -/
namespace Atlas
namespace Memory

open RowTable DurableMemoryRow

/-- The constraints leave at most one active row a fingerprint. -/
theorem uniqueActive_of_consistent {s : Tables} (h : s.consistent = true) :
    UniqueActive s.memories := by
  simp only [Tables.consistent,Bool.and_eq_true,decide_eq_true_eq,List.all_eq_true] at h
  obtain ⟨⟨⟨⟨⟨⟨⟨⟨_,_⟩,hnodup⟩,_⟩,hrows⟩,_⟩,_⟩,_⟩,_⟩ := h
  intro i j m m' hm hm' ha ha' hf
  have hrow := (hrows m (List.mem_of_getElem? hm)).1.1.2
  simp only [ha,Bool.or_eq_true,Bool.and_eq_true] at hrow
  obtain ⟨fingerprint,hfp⟩ := Option.isSome_iff_exists.mp (hrow.resolve_left nofun).2
  exact eq_of_nodup_filterMap hnodup hm hm' (by rw [if_pos ha,hfp]) (by rw [if_pos ha',← hf,hfp])

/-- Every active row has content. -/
def Worded (t : List DurableMemoryRow) : Prop :=
  ∀ (i : ℕ) (m : DurableMemoryRow), t[i]? = some m → m.status = .active → m.content ≠ none

theorem worded_of_consistent {s : Tables} (h : s.consistent = true) : Worded s.memories := by
  simp only [Tables.consistent,Bool.and_eq_true,decide_eq_true_eq,List.all_eq_true] at h
  obtain ⟨⟨⟨⟨⟨⟨⟨⟨_,_⟩,_⟩,_⟩,hrows⟩,_⟩,_⟩,_⟩,_⟩ := h
  intro i m hm ha
  have hrow := (hrows m (List.mem_of_getElem? hm)).1.1.2
  simp only [ha,Bool.or_eq_true,Bool.and_eq_true] at hrow
  exact Option.isSome_iff_ne_none.mp (hrow.resolve_left nofun).1

section

variable [PyRuntime] {t t' : List DurableMemoryRow} {erases : Prop}

theorem RowWrites.of_eq (h : t' = t) : RowWrites erases t t' := h ▸ .refl

theorem RowWrites.write {i : ℕ} {m m' : DurableMemoryRow} (hc : Changes t t' i m m')
    (hs : RowShift t i m m') : RowWrites erases t t' := .single (.write i m m' hc hs)

theorem RowWrites.touch (i : ℕ) (f : DurableMemoryRow → DurableMemoryRow)
    (h : ∀ m, Touched m (f m)) : RowWrites erases t (t.modify i f) := .single (.touch i f h)

theorem Publication.Creates.inserted {p : Publication} {text : String} {row : DurableMemoryRow}
    (h : p.Creates t text row) : Inserted t row :=
  .created text h.status h.content h.fingerprint h.suppresses h.superseded
    (by rw [h.kind]; decide) h.unclaimed

/-- The row that was just added is no one's predecessor yet. -/
theorem Publication.Creates.unsuperseded {p : Publication} {text : String} {row : DurableMemoryRow}
    (h : p.Creates t text row) : Unsuperseded (t ++ [row]) t.length :=
  ⟨row,List.getElem?_concat_length,h.superseded⟩

/-- The rows a publication writes, in the order it writes them. -/
theorem Publication.Writes.records {p : Publication} (hw : Worded t) (h : p.Writes t t') :
    RowWrites erases t t' := by
  cases h with
  | nothing => exact .refl
  | asserted i f _ _ hf => exact .touch i f hf
  | grounded i m m' content _ _ _ hc _ ha _ _ hu hst hk hcontent hf hsup hp =>
    exact .write hc (.reword content hst hk (hw i m hc.before ha) hcontent hf hsup hp hu)
  | preceded i m row content _ _ hm hst hcontent hf hsup hp =>
    exact .single (.insert row rfl (.historical content i hst hcontent hf hsup hp
      (List.getElem?_eq_some_iff.mp hm).1))
  | created content row hrow => exact .single (.insert row rfl hrow.inserted)
  | corrected content row g m m' _ hrow _ hm hk hna hc hst hp hsup hat hop hlink =>
    refine .tail (.single (.insert row rfl hrow.inserted)) (.write g m m' hc ?_)
    exact .point t.length hk hna hst hp hsup hat hop hlink
      (Nat.ne_of_gt (List.getElem?_eq_some_iff.mp hm).1) hrow.unsuperseded
  | replaced content row i m m' _ hrow _ _ hm ha _ hc hst hp hsup hlink =>
    refine .tail (.single (.insert row rfl hrow.inserted)) (.write i m m' hc ?_)
    exact .supersede t.length ha hst hp hsup hlink
      (Nat.ne_of_gt (List.getElem?_eq_some_iff.mp hm).1) hrow.unsuperseded

end

namespace Tables

variable [PyRuntime] {s s' : Tables} {erases : Prop}

theorem publishAndSettle_records {config : PublisherConfig} {claim : CandidateLease}
    {snapshot : EvaluationSnapshot} {decision : ReconciliationDecision} {operationId : OperationId}
    {now : Time} {pub : Published} (hs : s.consistent = true)
    (h : s.publishAndSettle config claim snapshot decision operationId now = .ok (s',pub)) :
    RowWrites erases s.memories s'.memories := by
  rcases publishAndSettle_writes (uniqueActive_of_consistent hs) h with hm | ⟨row,turnId,_,hw⟩
  · exact .of_eq hm
  · exact hw.records (worded_of_consistent hs)

theorem createGuard_records {content : String} {status : MemoryStatus} {recordKind : String}
    {source : OwnerSource} {now : Time} {r : ℕ × Bool}
    (h : s.createGuard content status recordKind source now = .ok (s',r))
    (hk : recordKind = correctionGuardKind → status = .superseded) :
    RowWrites erases s.memories s'.memories := by
  unfold createGuard at h
  extract_lets fingerprint guardRow at h
  split at h
  · cases h
  · next hst =>
    split at h
    · cases h
      exact .refl
    · cases h
      refine .single (.insert guardRow rfl (.lifecycle content ?_ rfl rfl rfl rfl hk))
      change status = .superseded ∨ status = .retired
      tauto

theorem correctionGuardRow_records {c : ExplicitCommand} {source : OwnerSource} {now : Time}
    {target : Option ℕ} (h : s.correctionGuardRow c source now = .ok (s',target)) :
    RowWrites erases s.memories s'.memories := by
  unfold correctionGuardRow at h
  split at h
  · cases h
    exact .refl
  · split at h
    · cases h
      exact .refl
    · obtain ⟨⟨s₁,r⟩,hg,h⟩ := map_ok h
      cases h
      exact createGuard_records hg fun _ => rfl

theorem queueExplicitContentCommandIn_records {c : ExplicitCommand} {source : OwnerSource}
    {now : Time} {q : Queued} (h : s.queueExplicitContentCommandIn c source now = .ok (s',q)) :
    RowWrites erases s.memories s'.memories := by
  obtain ⟨transcriptId,turnId,candidate,s₁,created,target,rfl,_,he,s₂,hg,_,_,rfl⟩ :=
    queueExplicitContentCommandIn_cases h
  rw [← graph_memories (enqueue_graph he)]
  have hr : RowWrites erases s₁.memories s₂.memories := correctionGuardRow_records hg
  exact hr

omit [PyRuntime] in
/-- Only active memories and content without an active memory are retired. -/
theorem retireTarget_active [PyRuntime] {memoryId : Option ℕ} {content : Option String} {id : ℕ}
    (h : s.retireTarget memoryId content = .ok (.active id)) :
    ∃ m, s.memories[id]? = some m ∧ m.status = .active := by
  unfold retireTarget at h
  split at h
  · split at h
    · cases h
    · next i _ _ m hm =>
      split at h
      · cases h
      · split at h
        · cases h
        · split at h
          · cases h
          · next ha =>
            split at h
            · cases h
            · cases h
              exact ⟨m,hm,not_not.mp ha⟩
  · split at h
    · next i hi =>
      cases h
      obtain ⟨m,hm,hp⟩ := mem_ids.mp (List.mem_of_mem_head? hi)
      simp only [Bool.and_eq_true,beq_iff_eq] at hp
      exact ⟨m,hm,hp.1⟩
    · cases h
  · cases h

omit [PyRuntime] in
theorem retiredRow_shift [PyRuntime] {t : List DurableMemoryRow} {i : ℕ} {m : DurableMemoryRow}
    (ha : m.status = .active) (now : Time) : RowShift t i m (retiredRow now m) :=
  .retire ha rfl ⟨rfl,rfl,rfl,nofun⟩ rfl rfl

theorem retireRow_records {memoryId : Option ℕ} {content : Option String} {target : RetireTarget}
    {source : OwnerSource} {now : Time} {r : ℕ × String}
    (ht : s.retireTarget memoryId content = .ok target)
    (h : s.retireRow target source now = .ok (s',r)) : RowWrites erases s.memories s'.memories := by
  unfold retireRow at h
  split at h
  · cases h
    exact .refl
  · cases h
    obtain ⟨m,hm,ha⟩ := retireTarget_active ht
    exact .write (.modify hm _) (retiredRow_shift ha now)
  · obtain ⟨⟨s₁,r₁⟩,hg,h⟩ := map_ok h
    cases h
    exact createGuard_records hg nofun

theorem retireMutate_records {loaded : Tables → Tables} {memoryId : Option ℕ}
    {content : Option String} {source : OwnerSource} {now : Time} {commandId : ℕ} {applied : Applied}
    (h : s.retireMutate loaded memoryId content source now commandId = .ok (s',applied)) :
    RowWrites erases s.memories s'.memories := by
  obtain ⟨target,ht,h⟩ := bind_ok h
  split at h
  · obtain ⟨s₁,ha,h⟩ := bind_ok h
    cases h
    exact .of_eq (graph_memories (footing_graph (applyCommand_footing ha)))
  · obtain ⟨⟨s₁,id,result⟩,hr,h⟩ := bind_ok h
    obtain ⟨s₂,ha,h⟩ := bind_ok h
    cases h
    refine (retireRow_records ht hr).trans (RowWrites.of_eq ?_)
    exact (graph_memories (footing_graph (applyCommand_footing ha))).trans
      (graph_memories (invalidateCandidates_graph loaded s₁ _ _ _ _ _ false now))

theorem restoreMutate_records {memoryId : ℕ} {now : Time} {commandId : ℕ} {applied : Applied}
    (hs : UniqueActive s.memories) (h : s.restoreMutate memoryId now commandId = .ok (s',applied)) :
    RowWrites erases s.memories s'.memories := by
  unfold restoreMutate at h
  split at h
  · cases h
  · next m hm =>
    split at h
    · cases h
    · split at h
      · obtain ⟨s₁,ha,h⟩ := bind_ok h
        cases h
        exact .of_eq (graph_memories (footing_graph (applyCommand_footing ha)))
      · split at h
        · cases h
        · next hret =>
          split at h
          · cases h
          · next hpay =>
            split at h
            · cases h
            · next hfree =>
              obtain ⟨s₁,ha,h⟩ := bind_ok h
              cases h
              obtain ⟨fingerprint,hf⟩ : ∃ f, m.fingerprint = some f := by
                cases hf : m.fingerprint with
                | none => simp [hf] at hpay
                | some f => exact ⟨f,rfl⟩
              rw [hf,Option.bind_some] at hfree
              have hfresh := activeByFingerprint_unclaimed hs (by simpa using hfree)
              rw [graph_memories (footing_graph (applyCommand_footing ha))]
              exact .write (.modify hm _) (.restore (not_not.mp hret) rfl ⟨rfl,rfl,rfl,id⟩ rfl rfl
                (hf ▸ hfresh))

/-- Detaching a preserved memory leaves its lifecycle alone. -/
theorem detachPurgedDependencies_records (s : Tables) (memoryIds purged invalidated deleted : List ℕ)
    (now : Time) : RowWrites erases s.memories
      (s.detachPurgedDependencies memoryIds purged invalidated deleted now).memories := by
  refine .single (.sweep (List.length_mapIdx ..) fun i m m' hm hm' => Or.inl ?_)
  rw [detachPurgedDependencies,List.getElem?_mapIdx,hm] at hm'
  simp only [Option.map_some,Option.some.injEq] at hm'
  rw [← hm']
  split
  · split
    · exact .refl m
    · split
      · exact .refl m
      · split <;> split <;> exact ⟨⟨rfl,rfl,rfl,id⟩,rfl,rfl,rfl,rfl,rfl⟩
  · exact .refl m

omit [PyRuntime] in
theorem erased_deletedRow (operationId : OperationId) (now : Time) (m : DurableMemoryRow) :
    (deletedRow operationId now m).Erased :=
  ⟨rfl,rfl,rfl,rfl,Option.some_ne_none _,Option.some_ne_none _⟩

theorem deleteRows_records (s : Tables) (operationId : OperationId) (target : Option ℕ)
    (affected : List ℕ) (source : OwnerSource) (now : Time) :
    RecordRun s.memories (s.deleteRows operationId target affected source now).1.memories := by
  have hsweep : RecordRun s.memories (s.memories.mapIdx fun id m =>
      if affected.contains id then deletedRow operationId now m else m) := by
    refine .single (.sweep (List.length_mapIdx ..) fun i m m' hm hm' => ?_)
    rw [List.getElem?_mapIdx,hm] at hm'
    simp only [Option.map_some,Option.some.injEq] at hm'
    rw [← hm']
    split
    · exact Or.inr ⟨trivial,erased_deletedRow operationId now m,rfl,rfl⟩
    · exact Or.inl (.refl m)
  unfold deleteRows
  dsimp only
  split
  · exact hsweep
  · refine hsweep.tail (.insert (tombstoneRow source operationId now) rfl (.tombstone ?_ rfl ?_))
    · exact ⟨rfl,rfl,rfl,rfl,Option.some_ne_none _,Option.some_ne_none _⟩
    · simp [tombstoneRow,correctionGuardKind]

theorem deleteMutate_records {loaded : Tables → Tables} {memoryId : Option ℕ}
    {content : Option String} {scope : String} {source : OwnerSource} {now : Time} {commandId : ℕ}
    {applied : Applied}
    (h : s.deleteMutate loaded memoryId content scope source now commandId = .ok (s',applied)) :
    RecordRun s.memories s'.memories := by
  obtain ⟨target,ht,h⟩ := bind_ok h
  split at h
  · obtain ⟨s₁,ha,h⟩ := bind_ok h
    cases h
    exact RowWrites.of_eq (graph_memories (footing_graph (applyCommand_footing ha)))
  · next target selected =>
    obtain ⟨⟨s₁,d⟩,hd,h⟩ := bind_ok h
    have hpurge := invalidateCandidates_graph loaded s₁ (.command commandId) d.dependencies
      d.candidateIds (d.unsourced selected) selected true now
    dsimp -zeta only at h
    revert h hpurge
    generalize s₁.invalidateCandidates loaded (.command commandId) d.dependencies
      d.candidateIds (d.unsourced selected) selected true now = r
    obtain ⟨s₂,candidateIds,evidenceTurnIds⟩ := r
    intro h hpurge
    obtain ⟨⟨affected,found⟩,_,h⟩ := bind_ok h
    dsimp -zeta only at h
    extract_lets preserved s₃ allRedacted s₄ s₅ receipt s₆ s₇ at h
    obtain ⟨s₈,ha,h⟩ := bind_ok h
    cases h
    have h₂ : s₂.memories = s.memories :=
      (graph_memories hpurge).trans (graph_memories (deletionSources_graph hd))
    have h₃ : RecordRun s.memories s₃.memories := by
      dsimp only [s₃]
      split
      · exact RowWrites.of_eq h₂
      · rw [← h₂]
        exact detachPurgedDependencies_records ..
    have h₅ : s₅.memories = s₃.memories := by
      have h₄ := graph_memories (footing_graph (invalidateTranscriptDerivatives_footing s₃ allRedacted now))
      dsimp only [s₅]
      split
      · exact h₄
      · exact h₄
    have h₇ := deleteRows_records s₅ (.command commandId) target affected source now
    rw [graph_memories (footing_graph (applyCommand_footing ha))]
    exact h₃.trans (h₅ ▸ h₇)

theorem rejectReview_records (s : Tables) (obligationId targetId : ℕ) (now : Time) :
    RowWrites erases s.memories (s.rejectReview obligationId targetId now).memories := by
  cases hm : s.memories[targetId]? with
  | none =>
    refine .of_eq ?_
    change s.memories.modify targetId _ = s.memories
    exact List.modify_eq_self (by simpa using hm)
  | some m =>
    by_cases ha : m.status = .active
    · exact .write (.modify hm _) (by rw [if_pos ha]; exact retiredRow_shift ha now)
    · refine .single (.sweep (List.length_modify ..) fun i x x' hx hx' => Or.inl ?_)
      rcases (Changes.modify hm fun m => if m.status = .active then retiredRow now m else m).cases hx'
        with ⟨rfl,rfl⟩ | ⟨_,hx'⟩
      · rw [if_neg ha]
        cases hm.symm.trans hx
        exact .refl m
      · cases hx.symm.trans hx'
        exact .refl x

theorem confirmReview_records {obligationId targetId : ℕ} {asserted : String} {now : Time}
    {m : DurableMemoryRow} (hs : UniqueActive s.memories) (hm : s.memories[targetId]? = some m)
    (hc : m.content ≠ none) (h : s.confirmReview obligationId targetId asserted now = .ok s') :
    RowWrites erases s.memories s'.memories := by
  unfold confirmReview at h
  extract_lets fingerprint at h
  split at h
  · cases h
  · next hfree =>
    obtain ⟨⟨s₁,transcriptId,turnId⟩,ha,h⟩ := bind_ok h
    cases h
    have h₁ := graph_memories (appendOwnerAssertionTurn_graph ha)
    have hu := activeByFingerprint_unclaimed hs (by simpa using hfree)
    apply RowWrites.write (i := targetId) (m := m)
    · change Changes s.memories (List.modify s₁.memories targetId _) targetId m _
      rw [h₁]
      exact .modify hm _
    · exact .reword asserted rfl rfl hc rfl rfl rfl rfl hu

theorem resolveReviewMutate_records {arguments : ResolveArguments} {now : Time}
    {r : Bool × Resolution} (hs : UniqueActive s.memories)
    (h : s.resolveReviewMutate arguments now = .ok (s',r)) : RowWrites erases s.memories s'.memories := by
  unfold resolveReviewMutate at h
  split at h
  · cases h
  · split at h
    · cases h
      exact .refl
    · split at h
      · cases h
      · split at h
        · cases h
        · split at h
          · cases h
          · next targetId _ _ target hm =>
            obtain ⟨text,htext,h⟩ := bind_ok h
            dsimp only at h
            split at h
            · cases h
              exact .refl
            · split at h
              · cases h
                exact rejectReview_records ..
              · obtain ⟨asserted,_,h⟩ := bind_ok h
                obtain ⟨s₁,hc,h⟩ := bind_ok h
                cases h
                exact confirmReview_records hs hm (cleanMemoryContent_some htext) hc

theorem keepCurrent_records (s : Tables) (obligationId conflictId : ℕ) (conflict : ConflictRow)
    (source : OwnerSource) (now : Time) :
    RowWrites erases s.memories (s.keepCurrent obligationId conflictId conflict source now).memories := by
  have h := graph_memories (footing_graph ((s.setConflict conflictId fun c => {c with
    status := "resolved_keep_current"
    resolvedAt := some now}).rejectConflicting_footing conflict.candidateId
      { decision := some "rejected"
        code := some "owner_kept_current"
        conflictId := some conflictId
        obligationId := some obligationId } "owner_kept_current" none now))
  change RowWrites erases s.memories (List.modify _ conflict.targetMemoryId _)
  rw [addProvenance,h]
  exact .touch _ _ fun m => ⟨⟨rfl,rfl,rfl,id⟩,rfl,rfl,rfl,rfl,rfl⟩

theorem resolveConflictMutate_records {arguments : ResolveArguments} {changeType : String}
    {source : OwnerSource} {now : Time} {r : Bool × Resolution}
    (h : s.resolveConflictMutate arguments changeType source now = .ok (s',r)) :
    RowWrites erases s.memories s'.memories := by
  unfold resolveConflictMutate at h
  split at h
  · cases h
  · split at h
    · cases h
    · split at h
      · cases h
      · split at h
        · cases h
          exact .refl
        · split at h
          · cases h
          · obtain ⟨version,_,h⟩ := bind_ok h
            split at h
            · cases h
              exact .refl
            · obtain ⟨text,_,h⟩ := bind_ok h
              split at h
              · cases h
                exact keepCurrent_records ..
              · obtain ⟨⟨s₁,q⟩,hq,h⟩ := bind_ok h
                cases h
                obtain ⟨replacement,_,hq⟩ := bind_ok hq
                obtain ⟨⟨s₂,queued⟩,hin,hq⟩ := bind_ok hq
                cases hq
                refine (queueExplicitContentCommandIn_records hin).trans (RowWrites.of_eq ?_)
                exact graph_memories (footing_graph (rejectConflicting_footing ..))

end Tables

/-- The operations that may erase rows. -/
def Op.erases : Op → Prop
  | .delete .. => True
  | _ => False

/-- Every transaction writes the durable memories row by row. -/
theorem Body.writes [PyRuntime] {loaded : Tables → Tables} {s s' : Tables} {op : Op}
    (hs : s.consistent = true) (h : Body loaded s op s') :
    RowWrites op.erases s.memories s'.memories := by
  have hun := uniqueActive_of_consistent hs
  have hg : s'.graph = s.graph → RowWrites op.erases s.memories s'.memories := fun hg =>
    .of_eq (Tables.graph_memories hg)
  have hf : s'.footing = s.footing → RowWrites op.erases s.memories s'.memories := fun hf =>
    hg (Tables.footing_graph hf)
  cases h with
  | publish h => exact Tables.publishAndSettle_records hs h
  | retire h => exact Tables.retireMutate_records h
  | restore h => exact Tables.restoreMutate_records hun h
  | delete h => exact Tables.deleteMutate_records h
  | remember h => exact Tables.queueExplicitContentCommandIn_records h
  | correct h => exact Tables.queueExplicitContentCommandIn_records h
  | resolveConflict h => exact Tables.resolveConflictMutate_records h
  | resolveReview h => exact Tables.resolveReviewMutate_records hun h
  | createOwnerChat => exact hg rfl
  | activateOwnerChat h => exact hf (Tables.activateOwnerChat_footing h)
  | getOrCreateActive => exact hf (s.getOrCreateActive_footing _)
  | appendTurn h => exact hg (Tables.appendTurn_graph h)
  | deleteOwnerChat h => exact hg (Tables.deleteOwnerChat_graph h)
  | enqueueMany => exact hg (s.enqueueMany_graph _ _)
  | intakeFailed => exact hg rfl
  | claimBatch => exact hf (s.claimBatch_footing ..)
  | persistReading h => exact hf (Tables.persistReading_footing h)
  | persistComparison h => exact hf (Tables.persistComparison_footing h)
  | persistReconciliation h => exact hf (Tables.persistReconciliation_footing h)
  | persistPolicy h => exact hf (Tables.persistPolicy_footing h)
  | finishEpistemicRejection h => exact hf (Tables.finish_footing h)
  | finishPolicyBlock h => exact hf (Tables.finish_footing h)
  | requeueAfterVersionConflict => exact hf (s.requeueAfterVersionConflict_footing ..)
  | releaseAfterConflict => exact hf (s.releaseAfterConflict_footing ..)
  | releaseFailed => exact hf (Tables.releaseFailed_footing ..)
  | began => exact hg rfl
  | failed _ h => exact hf (Tables.failCommand_footing h)
  | resolveObligationIn h => exact hg (Tables.resolveObligationIn_graph h)

theorem Body.records [PyRuntime] {loaded : Tables → Tables} {s s' : Tables} {op : Op}
    (hs : s.consistent = true) (h : Body loaded s op s') : RecordRun s.memories s'.memories :=
  (h.writes hs).run

/-- An operation writes the durable memories row by row. -/
theorem stepLoaded_writes [PyRuntime] (loaded : Tables → Tables) {w : State} (op : Op)
    (hs : w.data.consistent = true) :
    RowWrites op.erases w.data.memories (stepLoaded loaded w op).data.memories := by
  have hrun : ∀ s', Committed loaded op w.data s' →
      s'.consistent = true ∧ RowWrites op.erases w.data.memories s'.memories := by
    intro s' h
    induction h with
    | refl => exact ⟨hs,.refl⟩
    | tail _ hb ih => exact ⟨hb.2,ih.2.trans (hb.1.writes ih.1)⟩
  exact (hrun _ (stepLoaded_committed loaded w op)).2

theorem stepLoaded_records [PyRuntime] (loaded : Tables → Tables) {w : State} (op : Op)
    (hs : w.data.consistent = true) :
    RecordRun w.data.memories (stepLoaded loaded w op).data.memories :=
  (stepLoaded_writes loaded op hs).run

end Memory
end Atlas
