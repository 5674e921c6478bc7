import Atlas.Memory.Lineage

/-! What the constraints read of the tables. A deletion changes what they read only by taking rows
out of their reach, so no constraint stops it. -/
namespace Atlas
namespace Memory

open RowTable

/-- A table whose rows keep their key or lose it. -/
theorem filterMap_sublist {α β : Type*} {f : α → Option β} {l l' : List α}
    (h : List.Forall₂ (fun a b => f b = f a ∨ f b = none) l l') :
    (l'.filterMap f).Sublist (l.filterMap f) := by
  induction h with
  | nil => exact .slnil
  | @cons a b l l' hab _ ih =>
    rcases hab with hab | hab
    · cases hb : f b with
      | none =>
        rw [List.filterMap_cons_none hb,List.filterMap_cons_none (hab ▸ hb)]
        exact ih
      | some x =>
        rw [List.filterMap_cons_some hb,List.filterMap_cons_some (hab ▸ hb)]
        exact ih.cons_cons x
    · rw [List.filterMap_cons_none hab]
      refine ih.trans ?_
      cases ha : f a with
      | none => rw [List.filterMap_cons_none ha]
      | some x =>
        rw [List.filterMap_cons_some ha]
        exact List.sublist_cons_self ..

theorem forall₂_of_getElem? {α β : Type*} {R : α → β → Prop} {l : List α} {l' : List β}
    (hlen : l'.length = l.length)
    (h : ∀ (i : ℕ) (a : α) (b : β), l[i]? = some a → l'[i]? = some b → R a b) :
    List.Forall₂ R l l' := by
  refine List.forall₂_iff_get.mpr ⟨hlen.symm,fun i hi hi' => ?_⟩
  exact h i _ _ (List.getElem?_eq_getElem hi) (List.getElem?_eq_getElem hi')

theorem length_eq_of_getElem? {α β : Type*} {l : List α} {l' : List β}
    (h : ∀ i : ℕ, (l'[i]?).isSome = (l[i]?).isSome) : l'.length = l.length := by
  refine le_antisymm (not_lt.mp fun hlt => ?_) (not_lt.mp fun hlt => ?_)
  · have hi := h l.length
    simp [List.getElem?_eq_getElem hlt] at hi
  · have hi := h l'.length
    simp [List.getElem?_eq_getElem hlt] at hi

theorem mem_of_forall₂ {α β : Type*} {R : α → β → Prop} {l : List α} {l' : List β}
    (h : List.Forall₂ R l l') {b : β} (hb : b ∈ l') : ∃ a ∈ l, R a b := by
  induction h with
  | nil => cases hb
  | @cons a b' l l' hab _ ih =>
    rcases List.mem_cons.mp hb with rfl | hb
    · exact ⟨a,List.mem_cons_self,hab⟩
    · obtain ⟨a',ha',hr⟩ := ih hb
      exact ⟨a',List.mem_cons_of_mem _ ha',hr⟩

theorem all_of_column {α β : Type*} {g : α → β} {p : β → Bool} {l l' : List α}
    (h : l'.map g = l.map g) (ha : l.all (fun a => p (g a)) = true) :
    l'.all (fun a => p (g a)) = true := by
  have hall : ∀ l : List α, l.all (fun a => p (g a)) = (l.map g).all p := fun l => by
    rw [List.all_map]
    rfl
  rw [hall] at ha ⊢
  rwa [h]

theorem map_modify_of_eq {α β : Type*} {f : α → α} {g : α → β} (h : ∀ a, g (f a) = g a)
    (l : List α) (i : ℕ) : (l.modify i f).map g = l.map g := by
  refine List.ext_getElem? fun j => ?_
  rw [List.getElem?_map,List.getElem?_map]
  exact map_column_modify l i f g h j

namespace DurableMemoryRow

/-- The checks of one memory row, with the number of records it may name. -/
def valid (records : ℕ) (m : DurableMemoryRow) : Bool :=
  (m.status != .deleted || (m.content.isNone && m.fingerprint.isNone && !m.embedded &&
    m.deletedAt.isSome && m.deletionOperationId.isSome && m.suppressesRecall)) &&
  (m.status == .deleted || (m.content.isSome && m.fingerprint.isSome)) &&
  (m.groundingStatus != .verified || m.verificationRecordId.isSome ||
    m.ownerAssertionTurnId.isSome) &&
  m.verificationRecordId.all (· < records)

/-- A later version of a row, of which the constraints ask no more. -/
structure Eased (m m' : DurableMemoryRow) : Prop where
  active : m'.status = .active → m.status = .active ∧ m'.fingerprint = m.fingerprint
  origin : m'.originatingCandidateId = m.originatingCandidateId
  valid : ∀ n, m.valid n = true → m'.valid n = true

theorem Eased.refl (m : DurableMemoryRow) : Eased m m := ⟨fun h => ⟨h,rfl⟩,rfl,fun _ h => h⟩

theorem Eased.trans {m m' m'' : DurableMemoryRow} (h : Eased m m') (h' : Eased m' m'') :
    Eased m m'' where
  active ha := by
    obtain ⟨ha',hf'⟩ := h'.active ha
    obtain ⟨ha,hf⟩ := h.active ha'
    exact ⟨ha,hf'.trans hf⟩
  origin := h'.origin.trans h.origin
  valid n hv := h'.valid n (h.valid n hv)

end DurableMemoryRow

theorem eased_trans {t t' t'' : List DurableMemoryRow} (h : List.Forall₂ DurableMemoryRow.Eased t t')
    (h' : List.Forall₂ DurableMemoryRow.Eased t' t'') : List.Forall₂ DurableMemoryRow.Eased t t'' := by
  induction h generalizing t'' with
  | nil => exact h'
  | cons hm _ ih =>
    cases h' with
    | cons hm' h' => exact .cons (hm.trans hm') (ih h')

namespace Tables

/-- The columns that constraints read besides candidates and memories. -/
def indexed (s : Tables) :=
  (s.attempts.map (·.targetMemoryId),s.conflicts.map (·.reconciliationId),
    s.obligations.map (·.commandId),s.commands.length,s.records.length,
    s.transcripts.map fun t => t.kind == "owner" && t.closedAt.isNone)

/-- Tables of which the constraints ask no more than of the former ones. -/
structure Relaxes (s s' : Tables) : Prop where
  candidates : List.Forall₂ (fun c c' => c' = c ∨ c'.status.reconcilable = false) s.candidates
    s'.candidates
  memories : List.Forall₂ DurableMemoryRow.Eased s.memories s'.memories
  indexed : s'.indexed = s.indexed

variable {s s' : Tables}

theorem owner_count (l : List TranscriptRow) :
    (l.filter fun t => t.kind == "owner" && t.closedAt.isNone).length =
      (l.map fun t => t.kind == "owner" && t.closedAt.isNone).count true := by
  rw [← List.countP_eq_length_filter,List.count,List.countP_map]
  refine List.countP_congr fun t _ => ?_
  simp

theorem Relaxes.consistent (h : Relaxes s s') (hs : s.consistent = true) : s'.consistent = true := by
  have hlen : s'.memories.length = s.memories.length := h.memories.length_eq.symm
  obtain ⟨hattempts,hconflicts,hobligations,hcommands,hrecords,htranscripts⟩ :
      _ ∧ _ ∧ _ ∧ _ ∧ _ ∧ _ := by simpa only [Tables.indexed,Prod.mk.injEq] using h.indexed
  simp only [Tables.consistent,Bool.and_eq_true,decide_eq_true_eq] at hs ⊢
  obtain ⟨⟨⟨⟨⟨⟨⟨⟨hhash,hpayload⟩,hactive⟩,horigin⟩,hrows⟩,howner⟩,hatt⟩,hcon⟩,hobl⟩ := hs
  refine ⟨⟨⟨⟨⟨⟨⟨⟨?_,?_⟩,?_⟩,?_⟩,?_⟩,?_⟩,?_⟩,?_⟩,?_⟩
  · refine (filterMap_sublist (h.candidates.imp fun c c' hc => ?_)).nodup hhash
    rcases hc with rfl | hc
    · exact Or.inl rfl
    · exact Or.inr (by simp [hc])
  · refine List.all_eq_true.mpr fun c' hc' => ?_
    obtain ⟨c,hc,hcc⟩ := mem_of_forall₂ h.candidates hc'
    rcases hcc with rfl | hcc
    · exact List.all_eq_true.mp hpayload c' hc
    · simp [hcc]
  · refine (filterMap_sublist (h.memories.imp fun m m' hm => ?_)).nodup hactive
    by_cases ha : m'.status = .active
    · obtain ⟨ha',hf⟩ := hm.active ha
      exact Or.inl (by rw [if_pos ha,if_pos ha',hf])
    · exact Or.inr (if_neg ha)
  · refine (filterMap_sublist (h.memories.imp fun m m' hm => ?_)).nodup horigin
    exact Or.inl hm.origin
  · refine List.all_eq_true.mpr fun m' hm' => ?_
    obtain ⟨m,hm,hmm⟩ := mem_of_forall₂ h.memories hm'
    rw [hrecords]
    exact hmm.valid _ (List.all_eq_true.mp hrows m hm)
  · rw [owner_count] at howner ⊢
    rwa [htranscripts]
  · rw [hlen]
    exact all_of_column (p := fun i : Option ℕ => i.all (· < s.memories.length)) hattempts hatt
  · rw [hrecords]
    exact all_of_column (p := (· < s.records.length)) hconflicts hcon
  · rw [hcommands]
    exact all_of_column (p := fun i : Option ℕ => i.all (· < s.commands.length)) hobligations hobl

theorem setObligation_indexed (s : Tables) (i : ℕ) {f : ObligationRow → ObligationRow}
    (hf : ∀ o, (f o).commandId = o.commandId) : (s.setObligation i f).indexed = s.indexed := by
  simp only [indexed,setObligation,map_modify_of_eq hf]

theorem setCommand_indexed (s : Tables) (i : ℕ) (f : CommandRow → CommandRow) :
    (s.setCommand i f).indexed = s.indexed := by
  simp only [indexed,setCommand,List.length_modify]

theorem setCommandOf_indexed (s : Tables) (o : ObligationRow) (f : CommandRow → CommandRow) :
    (s.setCommandOf o f).indexed = s.indexed := by
  unfold setCommandOf
  split
  · rfl
  · exact setCommand_indexed ..

theorem settle_indexed (s : Tables) (c : ℕ) (now : Time) (memoryId : Option ℕ)
    (code resolution : Option String) :
    (s.settleExplicitObligation c now memoryId code resolution).indexed = s.indexed := by
  have hset : ∀ (s : Tables) i (f : ObligationRow → ObligationRow) o g,
      (∀ o, (f o).commandId = o.commandId) →
      ((s.setObligation i f).setCommandOf o g).indexed = s.indexed := fun s i f o g hf =>
    (setCommandOf_indexed ..).trans (setObligation_indexed s i hf)
  unfold settleExplicitObligation
  split
  · split
    · rfl
    · dsimp only
      split
      · exact hset _ _ _ _ _ fun _ => rfl
      · split
        · refine (hset _ _ _ _ _ ?_).trans (setObligation_indexed _ _ ?_)
          · exact fun _ => rfl
          · exact fun _ => rfl
        · exact setObligation_indexed _ _ fun _ => rfl
      · split
        · rfl
        · exact hset _ _ _ _ _ fun _ => rfl
  · rfl

section

variable [PyRuntime]

theorem redactEvidenceTurn_indexed (operationId : OperationId) (now : Time)
    (content redactContent : Option String) (s : Tables) (row : CandidateRow) :
    (redactEvidenceTurn operationId now content redactContent s row).indexed = s.indexed := by
  unfold redactEvidenceTurn
  split
  · rfl
  · split
    · rfl
    · dsimp only
      split <;> rfl

omit [PyRuntime] in
theorem purgeCandidate_indexed (operationId : OperationId) (now : Time) (scrub : Bool) (s : Tables)
    (read : ℕ × CandidateRow) : (purgeCandidate operationId now scrub s read).indexed = s.indexed := by
  unfold purgeCandidate
  dsimp only
  split <;> exact settle_indexed ..

omit [PyRuntime] in
theorem tombstoneCandidateDerivatives_indexed (s : Tables) (operationId : OperationId)
    (candidateIds : List ℕ) (now : Time) :
    (s.tombstoneCandidateDerivatives operationId candidateIds now).indexed = s.indexed := by
  unfold tombstoneCandidateDerivatives
  extract_lets conflictIds concerns
  simp only [indexed,List.map_map,List.length_map,Prod.mk.injEq,and_true]
  refine ⟨List.map_congr_left fun a _ => ?_,List.map_congr_left fun c _ => ?_,
    List.map_congr_left fun o _ => ?_⟩
  · dsimp only [Function.comp]
    split <;> rfl
  · dsimp only [Function.comp]
    split <;> rfl
  · dsimp only [Function.comp]
    split
    · split <;> rfl
    · rfl

theorem invalidateCandidates_indexed (loaded : Tables → Tables) (s : Tables)
    (operationId : OperationId) (turnIds candidateIds : List ℕ)
    (content redactContent : Option String) (scrub : Bool) (now : Time) :
    (s.invalidateCandidates loaded operationId turnIds candidateIds content redactContent scrub
      now).1.indexed = s.indexed := by
  unfold invalidateCandidates
  extract_lets read selected redacted evidenceTurns purged
  have hred : redacted.indexed = s.indexed := by
    dsimp only [redacted]
    split
    · exact foldl_view indexed _ (fun t row => redactEvidenceTurn_indexed ..) s
    · rfl
  have hpurged : purged.indexed = s.indexed :=
    (foldl_view indexed read (fun t p => purgeCandidate_indexed ..) redacted).trans hred
  dsimp only
  split
  · exact (tombstoneCandidateDerivatives_indexed ..).trans hpurged
  · exact hpurged

theorem deletionSources_indexed {operationId : OperationId} {scope : String} {target : Option ℕ}
    {selected : Option String} {now : Time} {d : DeletionSources}
    (h : s.deletionSources operationId scope target selected now = .ok (s',d)) :
    s'.indexed = s.indexed := by
  obtain ⟨⟨affected,preserved⟩,_,h⟩ := bind_ok h
  obtain ⟨⟨s₁,redacted⟩,hr,h⟩ := bind_ok h
  cases h
  unfold redactSources at hr
  split at hr
  · cases hr
    rfl
  · split at hr
    · cases hr
      rfl
    · dsimp only at hr
      split at hr
      · cases hr
      · cases hr
        rfl

omit [PyRuntime] in
theorem invalidateTranscriptDerivatives_indexed (s : Tables) (turnIds : List ℕ) (now : Time) :
    (s.invalidateTranscriptDerivatives turnIds now).indexed = s.indexed := by
  unfold invalidateTranscriptDerivatives
  split
  · rfl
  · extract_lets rows transcripts
    refine foldl_view indexed transcripts (fun t id => ?_) s
    split
    · rfl
    · simp only [invalidateTranscript,setTranscript,indexed]
      rw [map_modify_of_eq]
      exact fun _ => rfl

omit [PyRuntime] in
theorem unnamed_of_indexed (h : s'.indexed = s.indexed) {commandId : ℕ}
    (hs : ∀ o ∈ s.obligations, o.commandId ≠ some commandId) :
    ∀ o ∈ s'.obligations, o.commandId ≠ some commandId := by
  intro o ho hid
  have hmap : s'.obligations.map (·.commandId) = s.obligations.map (·.commandId) :=
    congrArg (·.2.2.1) h
  have hmem : some commandId ∈ s.obligations.map (·.commandId) :=
    hmap ▸ List.mem_map.mpr ⟨o,ho,hid⟩
  obtain ⟨o',ho',hid'⟩ := List.mem_map.mp hmem
  exact hs o' ho' hid'

omit [PyRuntime] in
/-- A command that no obligation names resolves none when it is applied. -/
theorem applyCommand_unnamed {commandId : ℕ} {target replacement : Option ℕ} {now : Time}
    (h : ∀ o ∈ s.obligations, o.commandId ≠ some commandId) :
    ∃ f, s.applyCommand commandId target replacement now = .ok (s.setCommand commandId f) := by
  have hnone : ids (fun o => o.commandId == some commandId && o.status == .pending)
      s.obligations = [] := by
    refine List.eq_nil_iff_forall_not_mem.mpr fun i hi => ?_
    obtain ⟨o,ho,hp⟩ := mem_ids.mp hi
    simp only [Bool.and_eq_true,beq_iff_eq] at hp
    exact h o (List.mem_of_getElem? ho) hp.1
  unfold applyCommand resolveCommandObligation setCommand
  dsimp only
  rw [hnone]
  exact ⟨_,rfl⟩

omit [PyRuntime] in
theorem deletedRow_eased (operationId : OperationId) (now : Time) (m : DurableMemoryRow) :
    m.Eased (deletedRow operationId now m) where
  active h := by cases h
  origin := rfl
  valid n h := by
    simp only [DurableMemoryRow.valid,Bool.and_eq_true] at h ⊢
    exact ⟨⟨⟨rfl,rfl⟩,h.1.2⟩,h.2⟩

omit [PyRuntime] in
theorem forall₂_mapIdx {α : Type*} {R : α → α → Prop} {f : ℕ → α → α} (h : ∀ i a, R a (f i a))
    (l : List α) : List.Forall₂ R l (l.mapIdx f) := by
  refine forall₂_of_getElem? List.length_mapIdx fun i a b ha hb => ?_
  rw [List.getElem?_mapIdx,ha] at hb
  cases hb
  exact h i a

omit [PyRuntime] in
theorem detached_eased (r : Tables × List ℕ × List ℕ) (d : DeletionSources) (affected found : List ℕ)
    (now : Time) :
    List.Forall₂ DurableMemoryRow.Eased r.1.memories (detached r d affected found now).memories := by
  unfold detached
  split
  · exact List.forall₂_same.mpr fun m _ => .refl m
  · refine forall₂_mapIdx (fun i m => ?_) _
    dsimp only
    split
    · split
      · exact .refl m
      · split
        · exact .refl m
        · next hp _ =>
          obtain ⟨_,ha,_⟩ := Option.bind_eq_some_iff.mp hp
          split <;> split
          all_goals
            refine ⟨fun h => ⟨h,rfl⟩,rfl,fun n h => ?_⟩
            simp only [DurableMemoryRow.valid,Bool.and_eq_true] at h ⊢
            refine ⟨⟨h.1.1,by simp [ha]⟩,?_⟩
            first | exact h.2 | rfl
    · exact .refl m

/-- Purged candidates are out of the constraints' reach. -/
theorem invalidateCandidates_eased (s : Tables) (operationId : OperationId) (turnIds candidateIds :
    List ℕ) (content redactContent : Option String) (scrub : Bool) (now : Time) :
    List.Forall₂ (fun c c' : CandidateRow => c' = c ∨ c'.status.reconcilable = false) s.candidates
      (s.invalidateCandidates id operationId turnIds candidateIds content redactContent scrub
        now).1.candidates := by
  have hp := @invalidateCandidates_purged s _ id operationId turnIds candidateIds content
    redactContent scrub now fun p hp => readSelected_spec hp
  revert hp
  generalize (s.invalidateCandidates id operationId turnIds candidateIds content redactContent scrub
    now).1 = s'
  generalize (id s).readSelected turnIds candidateIds content = read
  intro hp
  have hrow : ∀ i : ℕ, s'.candidates[i]? = s.candidates[i]? ∨ ∃ c c' : CandidateRow,
      s.candidates[i]? = some c ∧ s'.candidates[i]? = some c' ∧ c'.status.reconcilable = false := by
    intro i
    by_cases hi : i ∈ read.map (·.1)
    · obtain ⟨p,hpr,rfl⟩ := List.mem_map.mp hi
      obtain ⟨hold,hnew⟩ := hp.selected p hpr
      exact Or.inr ⟨_,_,hold,hnew,by rw [purgedRow_status]; rfl⟩
    · exact Or.inl (hp.others i hi)
  have hlen : s'.candidates.length = s.candidates.length := by
    refine length_eq_of_getElem? fun i => ?_
    rcases hrow i with h | ⟨c,c',h,h',_⟩
    · rw [h]
    · rw [h,h']
      rfl
  refine forall₂_of_getElem? hlen fun i a b ha hb => ?_
  rcases hrow i with h | ⟨_,_,_,h',hr⟩
  · rw [ha,hb] at h
    exact Or.inl (Option.some.inj h)
  · cases hb.symm.trans h'
    exact Or.inr hr

omit [PyRuntime] in
theorem deleteRows_eased (s : Tables) (operationId : OperationId) (id : ℕ) (affected : List ℕ)
    (source : OwnerSource) (now : Time) :
    List.Forall₂ DurableMemoryRow.Eased s.memories
      (s.deleteRows operationId (some id) affected source now).1.memories := by
  refine forall₂_mapIdx (fun i m => ?_) _
  split
  · exact deletedRow_eased operationId now m
  · exact .refl m

/-- A deletion by id succeeds once its sources are redacted and its second walk returns, and what it
leaves satisfies the constraints. -/
theorem deleteMutate_succeeds {memoryId : ℕ} {m : DurableMemoryRow} {scope : String}
    {source : OwnerSource} {now : Time} {commandId : ℕ} {s₁ : Tables} {d : DeletionSources}
    {r : Tables × List ℕ × List ℕ} {affected found : List ℕ} (hs : s.consistent = true)
    (hnew : ∀ o ∈ s.obligations, o.commandId ≠ some commandId)
    (ht : s.deleteTarget (some memoryId) none = .ok (.selected (some memoryId) m.content))
    (hd : s.deletionSources (.command commandId) scope (some memoryId) m.content now = .ok (s₁,d))
    (hr : s₁.invalidateCandidates id (.command commandId) d.dependencies d.candidateIds
      (d.unsourced m.content) m.content true now = r)
    (hc : r.1.dependentMemoryClosure (addMembers d.affected (r.1.turnDependents d.dependencies)) r.2.1
      [memoryId] = .ok (affected,found)) :
    ∃ s' applied, s.deleteMutate id (some memoryId) none scope source now commandId =
      .ok (s',applied) ∧ s'.consistent = true ∧ memoryId ∈ affected ∧
      Deletion s' r d commandId (some memoryId) source now affected found := by
  have hindexed : r.1.indexed = s.indexed := by
    rw [← hr]
    exact (invalidateCandidates_indexed ..).trans (deletionSources_indexed hd)
  have hok : ∃ s' applied, s.deleteMutate id (some memoryId) none scope source now commandId =
      .ok (s',applied) ∧ s'.indexed = r.1.indexed := by
    unfold deleteMutate
    rw [ht]
    dsimp -zeta only [bind,Except.bind]
    extract_lets operationId
    rw [show s.deletionSources operationId scope (some memoryId) m.content now = _ from hd]
    dsimp -zeta only
    rw [show s₁.invalidateCandidates id operationId d.dependencies d.candidateIds
      (d.unsourced m.content) m.content true now = _ from hr]
    extract_lets roots
    rw [show r.1.dependentMemoryClosure roots r.2.1 (some memoryId).toList = _ from hc]
    dsimp -zeta only
    extract_lets preserved s₃ s₄ s₅ receipt s₆ s₇
    have hleft : s₇.indexed = r.1.indexed := by
      have h₃ : s₃.indexed = r.1.indexed := by
        dsimp only [s₃]
        split <;> rfl
      have h₄ : s₄.indexed = s₃.indexed := invalidateTranscriptDerivatives_indexed ..
      have h₅ : s₅.indexed = s₄.indexed := by
        dsimp only [s₅]
        split
        · rfl
        · simp only [indexed,scrubCommandPayloads,List.length_map]
      exact h₅.trans (h₄.trans h₃)
    obtain ⟨f,ha⟩ := @applyCommand_unnamed s₇ commandId
      (some (s₅.deleteRows operationId (some memoryId) affected source now).2.1) none now
      (unnamed_of_indexed (hleft.trans hindexed) hnew)
    rw [ha]
    exact ⟨_,_,rfl,(setCommand_indexed s₇ commandId f).trans hleft⟩
  obtain ⟨s',applied,hok,hafter⟩ := hok
  refine ⟨s',applied,hok,?_⟩
  rcases deleteMutate_cases hok with ⟨i,ht',_⟩ | ⟨target,selected,s₁',d',affected',found',ht',hd',hdel⟩
  · cases ht.symm.trans ht'
  · cases ht.symm.trans ht'
    cases hd.symm.trans hd'
    rw [hr] at hdel
    cases hc.symm.trans hdel.closure
    have hgraph : r.1.graph = s.graph := by
      rw [← hr]
      exact (invalidateCandidates_graph ..).trans (deletionSources_graph hd)
    have hrelaxes : Relaxes s s' :=
      { candidates := by
          rw [hdel.candidates,← hr,← (deletionSources_frame hd).candidates]
          exact invalidateCandidates_eased ..
        memories := by
          rw [graph_memories hdel.graph,← graph_memories hgraph]
          exact eased_trans (detached_eased r d affected found now) (deleteRows_eased ..)
        indexed := hafter.trans hindexed }
    refine ⟨hrelaxes.consistent hs,?_,hdel⟩
    have hdeps := dependentMemoryClosure_dependents hc
    have hroot : memoryId ∈ d.affected := by
      obtain ⟨⟨seen,preserved⟩,hcl,hd⟩ := bind_ok hd
      obtain ⟨_,_,hd⟩ := bind_ok hd
      cases hd
      exact (memoryDescendants_descent hcl).start memoryId (List.mem_singleton.mpr rfl)
    rcases hdeps.start memoryId (mem_addMembers.mpr (Or.inl hroot)) with hin | hin
    · exact hin
    · exact absurd (List.mem_singleton.mpr rfl) (hdeps.barriers memoryId hin).1

end

end Tables

end Memory
end Atlas
