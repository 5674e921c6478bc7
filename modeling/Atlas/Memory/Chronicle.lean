import Atlas.Memory.ChronicleSteps

/-! How the chronicle grows: a turn is numbered after every turn its transcript has, it never
changes place and never comes back from its deletion, and no operation on the store moves a
discovery cursor forward. -/
namespace Atlas
namespace Memory

open RowTable

/-- What becomes of a turn. -/
structure TurnRow.Kept (t t' : TurnRow) : Prop where
  transcriptId : t'.transcriptId = t.transcriptId
  sequence : t'.sequence = t.sequence
  deleted : t'.deletedAt = none → t.deletedAt = none

namespace Tables

/-- The turn up to which a transcript was searched for memories. -/
def cursor (s : Tables) (transcriptId : ℕ) : ℕ :=
  ((s.discoveries.find? fun r => r.transcriptId == transcriptId).map (·.lastScannedSequence)).getD 0

/-- The number of the last turn a transcript was given. -/
def lastSequence (s : Tables) (transcriptId : ℕ) : ℕ :=
  ((s.transcripts[transcriptId]?).map (·.nextTurnSequence)).getD 0

/-- Turns that `append_turn` numbered. -/
structure Numbered (s : Tables) : Prop where
  positive : ∀ (i : ℕ) (t : TurnRow), s.turns[i]? = some t → 0 < t.sequence
  counted : ∀ (i : ℕ) (t : TurnRow), s.turns[i]? = some t →
    t.sequence ≤ s.lastSequence t.transcriptId
  distinct : ∀ (i j : ℕ) (t u : TurnRow), s.turns[i]? = some t → s.turns[j]? = some u →
    t.transcriptId = u.transcriptId → t.sequence = u.sequence → i = j

end Tables

/-- A later store of the same transcripts. -/
structure Extends (s s' : Tables) : Prop where
  sequences : ∀ transcriptId, s.lastSequence transcriptId ≤ s'.lastSequence transcriptId
  turns : ∀ (i : ℕ) (t : TurnRow), s.turns[i]? = some t → ∃ t', s'.turns[i]? = some t' ∧ t.Kept t'
  added : ∀ (i : ℕ) (t' : TurnRow), s'.turns[i]? = some t' →
    (∃ t, s.turns[i]? = some t) ∨ s.lastSequence t'.transcriptId < t'.sequence
  numbered : s.Numbered → s'.Numbered
  cursors : ∀ transcriptId, s'.cursor transcriptId ≤ s.cursor transcriptId

namespace Extends

variable {s s' s'' : Tables}

theorem trans (h : Extends s s') (h' : Extends s' s'') : Extends s s'' where
  sequences t := (h.sequences t).trans (h'.sequences t)
  turns i t ht := by
    obtain ⟨t',ht',hk⟩ := h.turns i t ht
    obtain ⟨t'',ht'',hk'⟩ := h'.turns i t' ht'
    exact ⟨t'',ht'',hk'.transcriptId.trans hk.transcriptId,hk'.sequence.trans hk.sequence,
      hk.deleted ∘ hk'.deleted⟩
  added i t'' ht'' := by
    rcases h'.added i t'' ht'' with ⟨t',ht'⟩ | ha
    · rcases h.added i t' ht' with ht | ha
      · exact Or.inl ht
      · obtain ⟨_,he,hk⟩ := h'.turns i t' ht'
        cases Option.some.inj (ht''.symm.trans he)
        rw [← hk.transcriptId,← hk.sequence] at ha
        exact Or.inr ha
    · exact Or.inr ((h.sequences _).trans_lt ha)
  numbered := h'.numbered ∘ h.numbered
  cursors t := (h'.cursors t).trans (h.cursors t)

/-- A turn of a later store is a turn of the earlier one, or numbered after all of its turns. -/
theorem turn (h : Extends s s') {i : ℕ} {t' : TurnRow} (ht' : s'.turns[i]? = some t') :
    (∃ t, s.turns[i]? = some t ∧ t.Kept t') ∨ s.lastSequence t'.transcriptId < t'.sequence := by
  refine (h.added i t' ht').imp_left fun ⟨t,ht⟩ => ?_
  obtain ⟨_,he,hk⟩ := h.turns i t ht
  cases Option.some.inj (ht'.symm.trans he)
  exact ⟨t,ht,hk⟩

/-- Turns that are rewritten where they are. -/
theorem of_rows {g : ℕ → TurnRow → TurnRow}
    (hs : ∀ transcriptId, s.lastSequence transcriptId ≤ s'.lastSequence transcriptId)
    (ht : ∀ i, s'.turns[i]? = (s.turns[i]?).map (g i)) (hg : ∀ i t, TurnRow.Kept t (g i t))
    (hc : ∀ transcriptId, s'.cursor transcriptId ≤ s.cursor transcriptId) : Extends s s' := by
  have hrow : ∀ (i : ℕ) (t' : TurnRow), s'.turns[i]? = some t' →
      ∃ t, s.turns[i]? = some t ∧ t.Kept t' := fun i t' h => by
    rw [ht] at h
    obtain ⟨t,hrow,rfl⟩ := Option.map_eq_some_iff.mp h
    exact ⟨t,hrow,hg i t⟩
  refine ⟨hs,fun i t h => ⟨g i t,by rw [ht,h]; rfl,hg i t⟩,fun i t' h => ?_,fun hn =>
    ⟨fun i t' h => ?_,fun i t' h => ?_,fun i j t' u' hi hj htr hseq => ?_⟩,hc⟩
  · obtain ⟨t,h,_⟩ := hrow i t' h
    exact Or.inl ⟨t,h⟩
  · obtain ⟨t,h,hk⟩ := hrow i t' h
    rw [hk.sequence]
    exact hn.positive i t h
  · obtain ⟨t,h,hk⟩ := hrow i t' h
    rw [hk.sequence,hk.transcriptId]
    exact (hn.counted i t h).trans (hs _)
  · obtain ⟨t,hi,hkt⟩ := hrow i t' hi
    obtain ⟨u,hj,hku⟩ := hrow j u' hj
    exact hn.distinct i j t u hi hj (hkt.transcriptId.symm.trans (htr.trans hku.transcriptId))
      (hkt.sequence.symm.trans (hseq.trans hku.sequence))

/-- The same turns in the same transcripts. -/
theorem of_same (hs : ∀ transcriptId, s.lastSequence transcriptId ≤ s'.lastSequence transcriptId)
    (ht : s'.turns = s.turns)
    (hc : ∀ transcriptId, s'.cursor transcriptId ≤ s.cursor transcriptId) : Extends s s' :=
  of_rows (g := fun _ => id) hs (fun i => by rw [ht,Option.map_id]; rfl)
    (fun _ _ => ⟨rfl,rfl,id⟩) hc

theorem of_eq (h : s'.chronicle = s.chronicle) : Extends s s' := by
  simp only [Tables.chronicle,Prod.mk.injEq] at h
  refine of_same (fun t => ?_) h.2.1 fun t => ?_
  · rw [Tables.lastSequence,Tables.lastSequence,h.1]
  · rw [Tables.cursor,Tables.cursor,h.2.2.2.2]

theorem refl (s : Tables) : Extends s s := of_eq rfl

/-- Transcripts that are rewritten where they are. -/
theorem of_transcripts {f : ℕ → TranscriptRow → TranscriptRow}
    (hx : ∀ i, s'.transcripts[i]? = (s.transcripts[i]?).map (f i))
    (hf : ∀ i x, x.nextTurnSequence ≤ (f i x).nextTurnSequence) (ht : s'.turns = s.turns)
    (hd : s'.discoveries = s.discoveries) : Extends s s' := by
  refine of_same (fun t => ?_) ht fun t => ?_
  · rw [Tables.lastSequence,Tables.lastSequence,hx]
    cases s.transcripts[t]? with
    | none => exact le_rfl
    | some x => exact hf t x
  · rw [Tables.cursor,Tables.cursor,hd]

theorem setTranscript (s : Tables) (id : ℕ) (f : TranscriptRow → TranscriptRow)
    (hf : ∀ x, x.nextTurnSequence ≤ (f x).nextTurnSequence) : Extends s (s.setTranscript id f) :=
  of_transcripts (f := fun i => if id = i then f else fun x => x)
    (fun i => by
      rw [Tables.setTranscript,List.getElem?_modify]
      split <;> rfl)
    (fun i x => by
      split
      · exact hf x
      · exact le_rfl) rfl rfl

/-- Turns that are rewritten where they are. -/
theorem of_turns {g : ℕ → TurnRow → TurnRow} (hx : s'.transcripts = s.transcripts)
    (ht : ∀ i, s'.turns[i]? = (s.turns[i]?).map (g i)) (hg : ∀ i t, TurnRow.Kept t (g i t))
    (hd : s'.discoveries = s.discoveries) : Extends s s' :=
  of_rows (fun t => by rw [Tables.lastSequence,Tables.lastSequence,hx]) ht hg
    fun t => by rw [Tables.cursor,Tables.cursor,hd]

end Extends

namespace Tables

variable {s s' : Tables}

theorem createTranscript_extends (s : Tables) (kind : String) (title : Option String) (now : Time) :
    Extends s (s.createTranscript kind title now).1 := by
  refine .of_same (fun t => ?_) rfl fun _ => le_rfl
  rw [lastSequence]
  cases hx : s.transcripts[t]? with
  | none => exact Nat.zero_le _
  | some x => rw [lastSequence,createTranscript,getElem?_insert_of_some hx]

theorem closeOwnerChats_extends (s : Tables) (now : Time) (kept : Option ℕ) :
    Extends s (s.closeOwnerChats now kept) := by
  refine .of_transcripts (f := fun i t => if t.kind = "owner" ∧ t.closedAt = none ∧ kept ≠ some i then
    {t with closedAt := some now} else t) (fun i => ?_) (fun i x => ?_) rfl rfl
  · rw [closeOwnerChats,List.getElem?_mapIdx]
  · split <;> exact le_rfl

theorem createOwnerChat_extends (s : Tables) (title : Option String) (now : Time) :
    Extends s (s.createOwnerChat title now).1 :=
  (s.closeOwnerChats_extends now none).trans (createTranscript_extends ..)

theorem activateOwnerChat_extends {chatId id : ℕ} {now : Time}
    (h : s.activateOwnerChat chatId now = .ok (s',id)) : Extends s s' := by
  unfold activateOwnerChat at h
  split at h
  · cases h
  · split at h
    · cases h
      exact .refl s
    · cases h
      exact (s.closeOwnerChats_extends now _).trans (.setTranscript _ _ _ fun _ => le_rfl)

theorem getOrCreateActive_extends (s : Tables) (now : Time) :
    Extends s (s.getOrCreateActive now).1 := by
  unfold getOrCreateActive
  split
  · exact .refl s
  · exact createTranscript_extends ..

/-- A turn and the transcript that numbers it are all that `append_turn` writes. -/
structure Appended (s s' : Tables) (transcriptId : ℕ) (x : TranscriptRow)
    (f : TranscriptRow → TranscriptRow) (t : TurnRow) : Prop where
  before : s.transcripts[transcriptId]? = some x
  transcripts : s'.transcripts = s.transcripts.modify transcriptId f
  next : ∀ y, (f y).nextTurnSequence = x.nextTurnSequence + 1
  turns : s'.turns = s.turns ++ [t]
  turn : t.transcriptId = transcriptId ∧ t.sequence = x.nextTurnSequence + 1
  discoveries : s'.discoveries = s.discoveries

theorem appendTurn_rows {transcriptId turnId : ℕ} {actor : Actor} {blocks : List Json} {now : Time}
    (h : s.appendTurn transcriptId actor blocks now = .ok (s',turnId)) :
    ∃ x f t, Appended s s' transcriptId x f t := by
  unfold appendTurn at h
  split at h
  · cases h
  · next x hx =>
    cases h
    exact ⟨x,_,_,hx,rfl,fun _ => rfl,rfl,⟨rfl,rfl⟩,rfl⟩

namespace Appended

variable {transcriptId : ℕ} {x : TranscriptRow} {f : TranscriptRow → TranscriptRow} {t : TurnRow}

theorem lastSequence_same (h : Appended s s' transcriptId x f t) :
    s.lastSequence transcriptId = x.nextTurnSequence ∧
      s'.lastSequence transcriptId = x.nextTurnSequence + 1 := by
  rw [lastSequence,lastSequence,h.transcripts,getElem?_modify_self,h.before]
  exact ⟨rfl,h.next x⟩

theorem sequences (h : Appended s s' transcriptId x f t) (i : ℕ) :
    s.lastSequence i ≤ s'.lastSequence i := by
  by_cases hi : transcriptId = i
  · subst hi
    rw [h.lastSequence_same.1,h.lastSequence_same.2]
    exact Nat.le_succ _
  · rw [lastSequence,lastSequence,h.transcripts,getElem?_modify_ne _ _ hi]

/-- The new turn is numbered after all turns of its transcript. -/
theorem after (h : Appended s s' transcriptId x f t) :
    s.lastSequence t.transcriptId < t.sequence := by
  rw [h.turn.1,h.turn.2,h.lastSequence_same.1]
  exact Nat.lt_succ_self _

theorem numbered (h : Appended s s' transcriptId x f t) (hn : s.Numbered) : s'.Numbered where
  positive i u hu := by
    rw [h.turns,getElem?_insert] at hu
    split at hu
    · cases hu
      exact Nat.zero_lt_of_lt h.after
    · exact hn.positive i u hu
  counted i u hu := by
    rw [h.turns,getElem?_insert] at hu
    split at hu
    · cases hu
      rw [h.turn.1,h.turn.2,h.lastSequence_same.2]
    · exact (hn.counted i u hu).trans (h.sequences _)
  distinct i j u v hu hv htr hseq := by
    have hnew : ∀ (k : ℕ) (w : TurnRow), s.turns[k]? = some w → w.transcriptId = t.transcriptId →
        w.sequence ≠ t.sequence := fun k w hw hwt => by
      have hle := hn.counted k w hw
      rw [hwt] at hle
      exact Nat.ne_of_lt (hle.trans_lt h.after)
    rw [h.turns,getElem?_insert] at hu hv
    split at hu
    · cases hu
      split at hv
      · omega
      · exact absurd hseq.symm (hnew j v hv htr.symm)
    · split at hv
      · cases hv
        exact absurd hseq (hnew i u hu htr)
      · exact hn.distinct i j u v hu hv htr hseq

end Appended

theorem appendTurn_extends {transcriptId turnId : ℕ} {actor : Actor} {blocks : List Json} {now : Time}
    (h : s.appendTurn transcriptId actor blocks now = .ok (s',turnId)) : Extends s s' := by
  obtain ⟨x,f,t,ha⟩ := appendTurn_rows h
  refine ⟨ha.sequences,fun i u hu => ⟨u,?_,rfl,rfl,id⟩,fun i u hu => ?_,ha.numbered,
    fun _ => by rw [cursor,cursor,ha.discoveries]⟩
  · rw [ha.turns]
    exact getElem?_insert_of_some hu
  · rw [ha.turns,getElem?_insert] at hu
    split at hu
    · cases hu
      exact Or.inr ha.after
    · exact Or.inl ⟨u,hu⟩

theorem cursor_filter (s : Tables) (chatId t : ℕ) :
    ({s with discoveries := s.discoveries.filter fun r => r.transcriptId ≠ chatId}).cursor t ≤
      s.cursor t := by
  unfold cursor
  dsimp only
  rw [List.find?_filter]
  by_cases ht : t = chatId
  · rw [List.find?_eq_none.mpr fun r _ => by simp [ht]]
    exact Nat.zero_le _
  · refine le_of_eq (congrArg (fun p : DiscoveryStateRow → Bool =>
      ((s.discoveries.find? p).map (·.lastScannedSequence)).getD 0) (funext fun r => ?_))
    by_cases hr : r.transcriptId = t
    · simp [hr,ht]
    · simp [hr]

/-- The cursors of a discovery table whose rows are rewritten where they are. -/
theorem cursor_map (s : Tables) {f : DiscoveryStateRow → DiscoveryStateRow}
    (hf : ∀ r, (f r).transcriptId = r.transcriptId) (t : ℕ) :
    ({s with discoveries := s.discoveries.map f}).cursor t =
      ((s.discoveries.find? fun r => r.transcriptId == t).map fun r =>
        (f r).lastScannedSequence).getD 0 := by
  have hsame : (fun r : DiscoveryStateRow => r.transcriptId == t) ∘ f =
      fun r => r.transcriptId == t := by
    funext r
    rw [Function.comp,hf]
  rw [cursor,List.find?_map,hsame,Option.map_map]
  rfl

theorem eraseChat_extends (s : Tables) (chatId : ℕ) (now : Time) :
    Extends s (s.eraseChat chatId now) := by
  refine .of_rows (g := fun _ t => if t.transcriptId = chatId then
    {t with blocks := [textBlock "[Chat deleted by owner]"], deletedAt := some now} else t)
    (fun _ => le_rfl) (fun i => ?_) (fun i t => ?_) (s.cursor_filter chatId)
  · rw [eraseChat,List.getElem?_map]
  · split
    · exact ⟨rfl,rfl,fun h => (by cases h)⟩
    · exact ⟨rfl,rfl,id⟩

theorem deleteOwnerChat_extends {chatId id : ℕ} {now : Time}
    (h : s.deleteOwnerChat chatId now = .ok (s',id)) : Extends s s' := by
  unfold deleteOwnerChat at h
  split at h
  · cases h
  · extract_lets s₁ at h
    have h₁ : Extends s s₁ :=
      Extends.trans (.setTranscript _ _ _ fun _ => by exact le_rfl) (eraseChat_extends ..)
    split at h
    · rw [show s' = (s₁.getOrCreateActive now).1 from (congrArg Prod.fst (Except.ok.inj h)).symm]
      exact h₁.trans (s₁.getOrCreateActive_extends now)
    · split at h
      · cases h
        exact h₁.trans (createTranscript_extends ..)
      · cases h
        exact h₁.trans (.setTranscript _ _ _ fun _ => by exact le_rfl)

theorem appendOwnerAssertionTurn_extends {content : String} {now : Time} {transcriptId turnId : ℕ}
    (h : s.appendOwnerAssertionTurn content now = .ok (s',transcriptId,turnId)) : Extends s s' := by
  obtain ⟨⟨s₁,id⟩,ha,h⟩ := bind_ok h
  cases h
  exact ((createTranscript_extends ..).trans (appendTurn_extends ha)).trans
    (.setTranscript _ _ _ fun _ => by exact le_rfl)

/-- The cursor of a purged transcript goes back before the first turn that was redacted. -/
theorem invalidateTranscript_extends (now : Time) (s : Tables) (transcriptId sequence : ℕ) :
    Extends s (invalidateTranscript now s transcriptId sequence) := by
  unfold invalidateTranscript
  extract_lets chunkStart rebuildFrom
  refine Extends.trans ?_ (.setTranscript _ _ _ fun _ => by exact le_rfl)
  refine .of_same (fun _ => le_rfl) rfl fun t => ?_
  refine (s.cursor_map (fun r => ?_) t).trans_le ?_
  · split <;> rfl
  · unfold cursor
    cases s.discoveries.find? fun r => r.transcriptId == t with
    | none => exact le_rfl
    | some r =>
      simp only [Option.map_some,Option.getD_some]
      split
      · exact Nat.min_le_left _ _
      · exact le_rfl

theorem invalidateTranscriptDerivatives_extends (s : Tables) (turnIds : List ℕ) (now : Time) :
    Extends s (s.invalidateTranscriptDerivatives turnIds now) := by
  unfold invalidateTranscriptDerivatives
  split
  · exact .refl s
  · refine Extends.trans (Trace.foldl_rel .refl .trans _ (fun t transcriptId => ?_) _)
      (.of_eq (by rfl))
    split
    · exact .refl t
    · exact invalidateTranscript_extends ..

variable [PyRuntime]

theorem redactSourceTurns_extends (s : Tables) (operationId : OperationId) (content : String)
    (preferredTurnIds : List ℕ) (now : Time) :
    Extends s (s.redactSourceTurns operationId content preferredTurnIds now).1 := by
  unfold redactSourceTurns
  extract_lets considered changed
  refine .of_turns (g := fun id t => if changed.contains id then
    {t with
      blocks := (redactItems content t.blocks).1
      deletedAt := some now
      deletionOperationId := some operationId} else t) rfl (fun i => ?_) (fun i t => ?_) rfl
  · exact List.getElem?_mapIdx
  · split
    · exact ⟨rfl,rfl,fun h => (by cases h)⟩
    · exact ⟨rfl,rfl,id⟩

theorem redactEvidenceTurn_extends (operationId : OperationId) (now : Time)
    (content redactContent : Option String) (s : Tables) (row : CandidateRow) :
    Extends s (redactEvidenceTurn operationId now content redactContent s row) := by
  unfold redactEvidenceTurn
  split
  · exact .refl s
  · next id turn _ =>
    split
    · exact .refl s
    · extract_lets values r
      split
      · refine .of_turns (g := fun i => if id = i then fun t => {t with
          blocks := r.1
          deletedAt := some now
          deletionOperationId := some operationId} else fun t => t) rfl (fun i => ?_) (fun i t => ?_)
          rfl
        · rw [List.getElem?_modify]
          split <;> rfl
        · split
          · exact ⟨rfl,rfl,nofun⟩
          · exact ⟨rfl,rfl,fun h => h⟩
      · exact .refl s

theorem invalidateCandidates_extends (loaded : Tables → Tables) (s : Tables)
    (operationId : OperationId) (turnIds candidateIds : List ℕ)
    (content redactContent : Option String) (scrub : Bool) (now : Time) :
    Extends s (s.invalidateCandidates loaded operationId turnIds candidateIds content redactContent
      scrub now).1 := by
  unfold invalidateCandidates
  extract_lets read selected redacted evidenceTurns purged
  have hred : Extends s redacted := by
    dsimp only [redacted]
    split
    · exact Trace.foldl_rel .refl .trans _
        (fun t row => redactEvidenceTurn_extends operationId now content redactContent t row) _
    · exact .refl s
  have hpurged : purged.chronicle = redacted.chronicle :=
    Trace.foldl_invariant (I := fun t : Tables => t.chronicle = redacted.chronicle) _
      (fun t p _ ht => (purgeCandidate_chronicle operationId now scrub t p).trans ht) rfl
  refine hred.trans (.of_eq ?_)
  dsimp only
  split
  · exact hpurged
  · exact hpurged

theorem retireMutate_extends {loaded : Tables → Tables} {memoryId : Option ℕ}
    {content : Option String} {source : OwnerSource} {now : Time} {commandId : ℕ} {applied : Applied}
    (h : s.retireMutate loaded memoryId content source now commandId = .ok (s',applied)) :
    Extends s s' := by
  obtain ⟨target,_,h⟩ := bind_ok h
  split at h
  · obtain ⟨s₁,ha,h⟩ := bind_ok h
    cases h
    exact .of_eq (applyCommand_chronicle ha)
  · obtain ⟨⟨s₁,id,result⟩,hr,h⟩ := bind_ok h
    obtain ⟨s₂,ha,h⟩ := bind_ok h
    cases h
    refine (Extends.of_eq (retireRow_chronicle hr)).trans (Extends.trans ?_
      (.of_eq (applyCommand_chronicle ha)))
    exact (invalidateCandidates_extends loaded s₁ (.command commandId) (s₁.retiredSources id).1 []
      (s₁.retiredSources id).2 none false now).trans (.of_eq (by rfl))

theorem redactSources_extends {operationId : OperationId} {scope : String}
    {selected : Option String} {turnIds : List ℕ} {now : Time} {r : List ℕ}
    (h : s.redactSources operationId scope selected turnIds now = .ok (s',r)) : Extends s s' := by
  unfold redactSources at h
  split at h
  · cases h
    exact .refl s
  · split at h
    · cases h
      exact .refl s
    · extract_lets r at h
      split at h
      · cases h
      · rw [show s' = r.1 from (congrArg Prod.fst (Except.ok.inj h)).symm]
        exact redactSourceTurns_extends ..

theorem deletionSources_extends {operationId : OperationId} {scope : String} {target : Option ℕ}
    {selected : Option String} {now : Time} {d : DeletionSources}
    (h : s.deletionSources operationId scope target selected now = .ok (s',d)) : Extends s s' := by
  obtain ⟨⟨affected,preserved⟩,_,h⟩ := bind_ok h
  obtain ⟨⟨s₁,redacted⟩,hr,h⟩ := bind_ok h
  cases h
  exact redactSources_extends hr

omit [PyRuntime] in
theorem deleteRows_chronicle (s : Tables) (operationId : OperationId) (target : Option ℕ)
    (affected : List ℕ) (source : OwnerSource) (now : Time) :
    (s.deleteRows operationId target affected source now).1.chronicle = s.chronicle := by
  cases target <;> rfl

/-- What a deletion makes of the chronicle: the redacted turns lose their text, and their
transcripts what was derived of it. -/
theorem deleteMutate_extends {loaded : Tables → Tables} {memoryId : Option ℕ}
    {content : Option String} {scope : String} {source : OwnerSource} {now : Time} {commandId : ℕ}
    {applied : Applied}
    (h : s.deleteMutate loaded memoryId content scope source now commandId = .ok (s',applied)) :
    Extends s s' := by
  obtain ⟨target,_,h⟩ := bind_ok h
  split at h
  · obtain ⟨s₁,ha,h⟩ := bind_ok h
    cases h
    exact .of_eq (applyCommand_chronicle ha)
  · next target selected _ =>
    obtain ⟨⟨s₁,d⟩,hd,h⟩ := bind_ok h
    dsimp -zeta only at h
    have hpurge := invalidateCandidates_extends loaded s₁ (.command commandId) d.dependencies
      d.candidateIds (d.unsourced selected) selected true now
    revert hpurge h
    generalize s₁.invalidateCandidates loaded (.command commandId) d.dependencies d.candidateIds
      (d.unsourced selected) selected true now = r
    intro h hpurge
    obtain ⟨⟨affected,found⟩,_,h⟩ := bind_ok h
    dsimp -zeta only at h
    extract_lets preserved s₃ allRedacted s₄ s₅ receipt s₆ s₇ at h
    obtain ⟨s₈,ha,h⟩ := bind_ok h
    cases h
    have h₃ : Extends r.1 s₃ := .of_eq (by dsimp only [s₃]; split <;> rfl)
    have h₄ : Extends s₃ s₄ := invalidateTranscriptDerivatives_extends ..
    have h₅ : Extends s₄ s₅ := .of_eq (by dsimp only [s₅]; split <;> rfl)
    have h₇ : Extends s₅ s₇ := .of_eq (deleteRows_chronicle s₅ _ target _ _ _)
    have h₈ : Extends s₇ s' := .of_eq (applyCommand_chronicle ha)
    clear_value s₇ s₅ s₄ s₃
    exact (deletionSources_extends hd).trans (hpurge.trans (h₃.trans (h₄.trans (h₅.trans
      (h₇.trans h₈)))))

theorem confirmReview_extends {obligationId targetId : ℕ} {asserted : String} {now : Time}
    (h : s.confirmReview obligationId targetId asserted now = .ok s') : Extends s s' := by
  unfold confirmReview at h
  extract_lets fingerprint at h
  split at h
  · cases h
  · obtain ⟨⟨s₁,transcriptId,turnId⟩,ht,h⟩ := bind_ok h
    cases h
    exact (appendOwnerAssertionTurn_extends ht).trans (.of_eq (by rfl))

theorem resolveReviewMutate_extends {arguments : ResolveArguments} {now : Time}
    {r : Bool × Resolution} (h : s.resolveReviewMutate arguments now = .ok (s',r)) :
    Extends s s' := by
  unfold resolveReviewMutate at h
  split at h
  · cases h
  · split at h
    · cases h
      exact .refl s
    · split at h
      · cases h
      · split at h
        · cases h
        · split at h
          · cases h
          · obtain ⟨text,_,h⟩ := bind_ok h
            dsimp only at h
            split at h
            · cases h
              exact .refl s
            · split at h
              · cases h
                exact .of_eq (by rfl)
              · obtain ⟨asserted,_,h⟩ := bind_ok h
                obtain ⟨s₁,hc,h⟩ := bind_ok h
                cases h
                exact confirmReview_extends hc

theorem resolveCandidate_extends {arguments : ResolveArguments} {obligation : ObligationRow}
    {source : OwnerSource} {now : Time} {r : Resolution}
    (h : s.resolveCandidate arguments obligation source now = .ok (s',r)) : Extends s s' := by
  unfold resolveCandidate at h
  split at h
  · cases h
  · split at h
    · cases h
    · obtain ⟨text,_,h⟩ := bind_ok h
      dsimp only at h
      split at h
      · cases h
        exact .refl s
      · split at h
        · cases h
          exact .of_eq (settle_chronicle ..)
        · split at h
          · obtain ⟨s₁,hc,h⟩ := bind_ok h
            cases h
            obtain ⟨asserted,_,hc⟩ := bind_ok hc
            obtain ⟨⟨s₂,transcriptId,turnId⟩,ht,hc⟩ := bind_ok hc
            cases hc
            exact (appendOwnerAssertionTurn_extends ht).trans (.of_eq (by rfl))
          · cases h
            exact .of_eq (settle_chronicle ..)

theorem retryExplicitObligation_chronicle {arguments : ResolveArguments} {obligation : ObligationRow}
    {source : OwnerSource} {now : Time} {r : Resolution}
    (h : s.retryExplicitObligation arguments obligation source now = .ok (s',r)) :
    s'.chronicle = s.chronicle := by
  unfold retryExplicitObligation at h
  split at h
  · cases h
  · split at h
    · cases h
    · split at h
      · cases h
      · split at h
        · cases h
          rfl
        · split at h
          · cases h
            rfl
          · obtain ⟨text,_,h⟩ := bind_ok h
            dsimp only at h
            split at h
            · cases h
              rfl
            · split at h
              · cases h
                exact settle_chronicle ..
              · cases h
                rfl

theorem resolveObligationIn_extends {arguments : ResolveArguments} {source : OwnerSource}
    {now : Time} {r : Resolution}
    (h : s.resolveObligationIn arguments source now = .ok (s',r)) : Extends s s' := by
  unfold resolveObligationIn at h
  split at h
  · cases h
  · split at h
    · cases h
      exact .refl s
    · split at h
      · exact .of_eq (retryExplicitObligation_chronicle h)
      · split at h
        · cases h
        · exact resolveCandidate_extends h

omit [PyRuntime] in
theorem keepCurrent_chronicle (s : Tables) (obligationId conflictId : ℕ) (conflict : ConflictRow)
    (source : OwnerSource) (now : Time) :
    (s.keepCurrent obligationId conflictId conflict source now).chronicle = s.chronicle := by
  unfold keepCurrent
  extract_lets s₁
  have h₁ : s₁.chronicle = s.chronicle := rejectConflicting_chronicle ..
  clear_value s₁
  exact h₁

theorem resolveConflictMutate_chronicle {arguments : ResolveArguments} {changeType : String}
    {source : OwnerSource} {now : Time} {r : Bool × Resolution}
    (h : s.resolveConflictMutate arguments changeType source now = .ok (s',r)) :
    s'.chronicle = s.chronicle := by
  unfold resolveConflictMutate at h
  split at h
  · cases h
  · split at h
    · cases h
    · split at h
      · cases h
      · split at h
        · cases h
          rfl
        · split at h
          · cases h
          · obtain ⟨version,_,h⟩ := bind_ok h
            split at h
            · cases h
              rfl
            · obtain ⟨_,_,h⟩ := bind_ok h
              split at h
              · cases h
                exact keepCurrent_chronicle ..
              · obtain ⟨⟨s₁,q⟩,hq,h⟩ := bind_ok h
                cases h
                obtain ⟨replacement,_,hq⟩ := bind_ok hq
                obtain ⟨⟨s₂,queued⟩,hin,hq⟩ := bind_ok hq
                cases hq
                have hs₂ := queueExplicitContentCommandIn_chronicle hin
                refine (rejectConflicting_chronicle ..).trans ?_
                exact hs₂

end Tables

section

variable [PyRuntime]

theorem Body.extends {loaded : Tables → Tables} {s s' : Tables} {op : Op}
    (h : Body loaded s op s') : Extends s s' := by
  cases h with
  | createOwnerChat => exact s.createOwnerChat_extends _ _
  | activateOwnerChat h => exact Tables.activateOwnerChat_extends h
  | getOrCreateActive => exact s.getOrCreateActive_extends _
  | appendTurn h => exact Tables.appendTurn_extends h
  | deleteOwnerChat h => exact Tables.deleteOwnerChat_extends h
  | enqueueMany => exact .of_eq (s.enqueueMany_chronicle _ _)
  | intakeFailed => exact .of_eq (s.recordExplicitIntakeFailure_chronicle ..)
  | remember h => exact .of_eq (Tables.queueExplicitContentCommandIn_chronicle h)
  | correct h => exact .of_eq (Tables.queueExplicitContentCommandIn_chronicle h)
  | claimBatch => exact .of_eq (s.claimBatch_chronicle ..)
  | persistReading h => exact .of_eq (Tables.persistReading_chronicle h)
  | persistComparison h => exact .of_eq (Tables.persistComparison_chronicle h)
  | persistReconciliation h => exact .of_eq (Tables.persistReconciliation_chronicle h)
  | persistPolicy h => exact .of_eq (Tables.persistPolicy_chronicle h)
  | finishEpistemicRejection h => exact .of_eq (Tables.finish_chronicle h)
  | finishPolicyBlock h => exact .of_eq (Tables.finish_chronicle h)
  | requeueAfterVersionConflict => exact .of_eq (s.requeueAfterVersionConflict_chronicle ..)
  | releaseAfterConflict => exact .of_eq (s.releaseAfterConflict_chronicle ..)
  | releaseFailed => exact .of_eq (Tables.releaseFailed_chronicle ..)
  | publish h => exact .of_eq (Tables.publishAndSettle_chronicle h)
  | began => exact .of_eq (s.beginCommand_chronicle ..)
  | failed _ h => exact .of_eq (Tables.failCommand_chronicle h)
  | retire h => exact Tables.retireMutate_extends h
  | restore h => exact .of_eq (Tables.restoreMutate_chronicle h)
  | delete h => exact Tables.deleteMutate_extends h
  | resolveConflict h => exact .of_eq (Tables.resolveConflictMutate_chronicle h)
  | resolveReview h => exact Tables.resolveReviewMutate_extends h
  | resolveObligationIn h => exact Tables.resolveObligationIn_extends h

/-- Every operation extends the chronicle. -/
theorem stepLoaded_extends (loaded : Tables → Tables) (w : State) (op : Op) :
    Extends w.data (stepLoaded loaded w op).data := by
  have hrun : ∀ s', Committed loaded op w.data s' → Extends w.data s' := by
    intro s' hc
    induction hc with
    | refl => exact .refl _
    | tail _ hb ih => exact ih.trans hb.1.extends
  exact hrun _ (stepLoaded_committed loaded w op)

end

end Memory
end Atlas
