import Atlas.Memory.Closure
import Atlas.Memory.IndexCoverage

/-! The index over whole runs: every operation on the memory store, every chat that is begun, carried
on or deleted and every pass of the indexer keep it, so that it covers the transcripts at any time. -/
namespace Atlas
namespace Memory

open RowTable
open Actions (ActionRuntime)

/-- Turns were added at most, and the index was not written. -/
structure Adds (s s' : Tables) : Prop where
  turns : s.turns <+: s'.turns
  chunks : s'.chunks = s.chunks
  states : s'.indexStates = s.indexStates

namespace Adds

variable {s s' s'' : Tables}

theorem refl (s : Tables) : Adds s s := ⟨List.prefix_rfl,rfl,rfl⟩

theorem trans (h : Adds s s') (h' : Adds s' s'') : Adds s s'' :=
  ⟨h.turns.trans h'.turns,h'.chunks.trans h.chunks,h'.states.trans h.states⟩

theorem of_eq (h : s'.chronicle = s.chronicle) : Adds s s' := by
  simp only [Tables.chronicle,Prod.mk.injEq] at h
  exact ⟨h.2.1 ▸ List.prefix_rfl,h.2.2.1,h.2.2.2.1⟩

theorem undisturbed [ActionRuntime] (h : Adds s s') (hext : Extends s s') :
    Undisturbed (fun _ => False) s s' := by
  refine ⟨hext,h.chunks,h.states,fun i t t' ht ht' _ => ?_⟩
  obtain ⟨l,hl⟩ := h.turns
  rw [← hl,List.getElem?_append_left (List.getElem?_eq_some_iff.mp ht).1,ht] at ht'
  rw [Option.some.inj ht']

theorem setTranscript (s : Tables) (id : ℕ) (f : TranscriptRow → TranscriptRow) :
    Adds s (s.setTranscript id f) := ⟨List.prefix_rfl,rfl,rfl⟩

end Adds

namespace Tables

variable {s s' : Tables}

theorem createTranscript_adds (s : Tables) (kind : String) (title : Option String) (now : Time) :
    Adds s (s.createTranscript kind title now).1 := ⟨List.prefix_rfl,rfl,rfl⟩

theorem getOrCreateActive_adds (s : Tables) (now : Time) :
    Adds s (s.getOrCreateActive now).1 := by
  unfold getOrCreateActive
  split
  · exact .refl s
  · exact createTranscript_adds ..

theorem activateOwnerChat_adds {chatId id : ℕ} {now : Time}
    (h : s.activateOwnerChat chatId now = .ok (s',id)) : Adds s s' := by
  unfold activateOwnerChat at h
  split at h
  · cases h
  · split at h
    · cases h
      exact .refl s
    · cases h
      exact ⟨List.prefix_rfl,rfl,rfl⟩

theorem appendTurn_adds {transcriptId turnId : ℕ} {actor : Actor} {blocks : List Json} {now : Time}
    (h : s.appendTurn transcriptId actor blocks now = .ok (s',turnId)) : Adds s s' := by
  unfold appendTurn at h
  split at h
  · cases h
  · cases h
    exact ⟨List.prefix_append _ _,rfl,rfl⟩

theorem appendOwnerAssertionTurn_adds {content : String} {now : Time} {transcriptId turnId : ℕ}
    (h : s.appendOwnerAssertionTurn content now = .ok (s',transcriptId,turnId)) : Adds s s' := by
  obtain ⟨⟨s₁,id⟩,ha,h⟩ := bind_ok h
  cases h
  exact ((createTranscript_adds ..).trans (appendTurn_adds ha)).trans (.setTranscript ..)

variable [PyRuntime]

theorem confirmReview_adds {obligationId targetId : ℕ} {asserted : String} {now : Time}
    (h : s.confirmReview obligationId targetId asserted now = .ok s') : Adds s s' := by
  unfold confirmReview at h
  extract_lets fingerprint at h
  split at h
  · cases h
  · obtain ⟨⟨s₁,transcriptId,turnId⟩,ht,h⟩ := bind_ok h
    cases h
    exact (appendOwnerAssertionTurn_adds ht).trans (.of_eq (by rfl))

theorem resolveReviewMutate_adds {arguments : ResolveArguments} {now : Time}
    {r : Bool × Resolution} (h : s.resolveReviewMutate arguments now = .ok (s',r)) :
    Adds s s' := by
  unfold resolveReviewMutate at h
  split at h
  · cases h
  · split at h
    · cases h
      exact .refl s
    · split at h
      · cases h
      · split at h
        · cases h
        · split at h
          · cases h
          · obtain ⟨text,_,h⟩ := bind_ok h
            dsimp only at h
            split at h
            · cases h
              exact .refl s
            · split at h
              · cases h
                exact .of_eq (by rfl)
              · obtain ⟨asserted,_,h⟩ := bind_ok h
                obtain ⟨s₁,hc,h⟩ := bind_ok h
                cases h
                exact confirmReview_adds hc

theorem resolveCandidate_adds {arguments : ResolveArguments} {obligation : ObligationRow}
    {source : OwnerSource} {now : Time} {r : Resolution}
    (h : s.resolveCandidate arguments obligation source now = .ok (s',r)) : Adds s s' := by
  unfold resolveCandidate at h
  split at h
  · cases h
  · split at h
    · cases h
    · obtain ⟨text,_,h⟩ := bind_ok h
      dsimp only at h
      split at h
      · cases h
        exact .refl s
      · split at h
        · cases h
          exact .of_eq (settle_chronicle ..)
        · split at h
          · obtain ⟨s₁,hc,h⟩ := bind_ok h
            cases h
            obtain ⟨asserted,_,hc⟩ := bind_ok hc
            obtain ⟨⟨s₂,transcriptId,turnId⟩,ht,hc⟩ := bind_ok hc
            cases hc
            exact (appendOwnerAssertionTurn_adds ht).trans (.of_eq (by rfl))
          · cases h
            exact .of_eq (settle_chronicle ..)

theorem resolveObligationIn_adds {arguments : ResolveArguments} {source : OwnerSource}
    {now : Time} {r : Resolution}
    (h : s.resolveObligationIn arguments source now = .ok (s',r)) : Adds s s' := by
  unfold resolveObligationIn at h
  split at h
  · cases h
  · split at h
    · cases h
      exact .refl s
    · split at h
      · exact .of_eq (retryExplicitObligation_chronicle h)
      · split at h
        · cases h
        · exact resolveCandidate_adds h

end Tables

section

variable [ActionRuntime] {s s' : Tables} {bound : ℕ}

namespace Tables

/-! The turns that a deletion takes the texts of. -/

theorem redactSourceTurns_undisturbed (s : Tables) (operationId : OperationId) (content : String)
    (preferredTurnIds : List ℕ) (now : Time) :
    Undisturbed (· ∈ (s.redactSourceTurns operationId content preferredTurnIds now).2) s
      (s.redactSourceTurns operationId content preferredTurnIds now).1 := by
  refine ⟨s.redactSourceTurns_extends operationId content preferredTurnIds now,rfl,rfl,
    fun i t t' ht ht' hi => ?_⟩
  simp only [redactSourceTurns,List.getElem?_mapIdx,ht,Option.map_some,Option.some.injEq] at ht'
  rw [if_neg (by simpa [redactSourceTurns] using hi)] at ht'
  rw [ht']

theorem redactSources_undisturbed {operationId : OperationId} {scope : String}
    {selected : Option String} {turnIds redacted : List ℕ} {now : Time}
    (h : s.redactSources operationId scope selected turnIds now = .ok (s',redacted)) :
    Undisturbed (· ∈ redacted) s s' := by
  unfold redactSources at h
  split at h
  · cases h
    exact .of_eq rfl
  · split at h
    · cases h
      exact .of_eq rfl
    · extract_lets r at h
      split at h
      · cases h
      · have hr := Except.ok.inj h
        rw [show s' = r.1 from (congrArg Prod.fst hr).symm,
          show redacted = r.2 from (congrArg Prod.snd hr).symm]
        exact redactSourceTurns_undisturbed ..

theorem deletionSources_undisturbed {operationId : OperationId} {scope : String}
    {target : Option ℕ} {selected : Option String} {now : Time} {d : DeletionSources}
    (h : s.deletionSources operationId scope target selected now = .ok (s',d)) :
    Undisturbed (· ∈ d.redacted) s s' := by
  obtain ⟨⟨affected,preserved⟩,_,h⟩ := bind_ok h
  obtain ⟨⟨s₁,redacted⟩,hr,h⟩ := bind_ok h
  cases h
  exact redactSources_undisturbed hr

/-- The turns that were deleted from one store to the next. -/
def Withdrawn (s s' : Tables) (i : ℕ) : Prop :=
  (s.turns[i]?).any (·.deletedAt.isNone) = true ∧ (s'.turns[i]?).any (·.deletedAt.isSome) = true

theorem Withdrawn.trans_undisturbed {s'' : Tables} (h : Undisturbed (Withdrawn s s') s s')
    (h' : Undisturbed (Withdrawn s' s'') s' s'') : Undisturbed (Withdrawn s s'') s s'' := by
  refine ⟨h.grown.trans h'.grown,h'.chunks.trans h.chunks,h'.states.trans h.states,
    fun i t t'' ht ht'' hw => ?_⟩
  obtain ⟨t',ht',hk⟩ := h.grown.turns i t ht
  obtain ⟨u,hu,hk'⟩ := h'.grown.turns i t' ht'
  cases Option.some.inj (ht''.symm.trans hu)
  have hdead : ∀ {a b : TurnRow}, a.Kept b → a.deletedAt.isSome = true → b.deletedAt.isSome = true := by
    intro a b hab ha
    cases hb : b.deletedAt with
    | none =>
      rw [hab.deleted hb] at ha
      cases ha
    | some _ => rfl
  have hlive : ∀ {a b : TurnRow}, a.Kept b → b.deletedAt.isNone = true → a.deletedAt.isNone = true := by
    intro a b hab hb
    rw [Option.isNone_iff_eq_none] at hb ⊢
    exact hab.deleted hb
  rw [h'.texts i t' t'' ht' ht'' fun hw' => hw ?_,h.texts i t t' ht ht' fun hw' => hw ?_]
  · simp only [Withdrawn,ht,ht',ht'',Option.any_some] at hw' ⊢
    exact ⟨hw'.1,hdead hk' hw'.2⟩
  · simp only [Withdrawn,ht,ht',ht'',Option.any_some] at hw' ⊢
    exact ⟨hlive hk hw'.1,hw'.2⟩

theorem redactEvidenceTurn_undisturbed (operationId : OperationId) (now : Time)
    (content redactContent : Option String) (s : Tables) (row : CandidateRow) :
    Undisturbed (Withdrawn s (redactEvidenceTurn operationId now content redactContent s row)) s
      (redactEvidenceTurn operationId now content redactContent s row) := by
  have hext := redactEvidenceTurn_extends operationId now content redactContent s row
  revert hext
  unfold redactEvidenceTurn
  split
  · exact fun _ => .of_eq rfl
  · next id turn hfound =>
    split
    · exact fun _ => .of_eq rfl
    · next hlive =>
      extract_lets values r
      split
      · intro hext
        refine ⟨hext,rfl,rfl,fun i t t' ht ht' hw => ?_⟩
        by_cases hi : id = i
        · subst hi
          refine absurd ⟨?_,?_⟩ hw
          · obtain ⟨e,_,he⟩ := Option.bind_eq_some_iff.mp hfound
            obtain ⟨u,hu,hp⟩ := Option.map_eq_some_iff.mp he
            obtain ⟨rfl,rfl⟩ := Prod.mk.inj hp
            simpa [hu] using hlive
          · simp [ht]
        · rw [show ({s with turns := s.turns.modify id _} : Tables).turns[i]? = s.turns[i]? from
            getElem?_modify_ne _ _ hi,ht] at ht'
          rw [Option.some.inj ht']
      · exact fun _ => .of_eq rfl

/-- The purge of candidates takes the texts of the evidence turns that it names. -/
theorem invalidateCandidates_undisturbed (loaded : Tables → Tables) (s : Tables)
    (operationId : OperationId) (turnIds candidateIds : List ℕ)
    (content redactContent : Option String) (scrub : Bool) (now : Time) :
    Undisturbed (· ∈ (s.invalidateCandidates loaded operationId turnIds candidateIds content
      redactContent scrub now).2.2) s (s.invalidateCandidates loaded operationId turnIds
        candidateIds content redactContent scrub now).1 := by
  unfold invalidateCandidates
  extract_lets read selected redacted evidenceTurns purged
  have hred : Undisturbed (Withdrawn s redacted) s redacted := by
    dsimp only [redacted]
    split
    · exact Trace.foldl_rel (R := fun u v => Undisturbed (Withdrawn u v) u v)
        (fun _ => .of_eq rfl) Withdrawn.trans_undisturbed _
        (fun t row => redactEvidenceTurn_undisturbed operationId now content redactContent t row) _
    · exact .of_eq rfl
  have hpurged : purged.chronicle = redacted.chronicle :=
    Trace.foldl_invariant (I := fun t : Tables => t.chronicle = redacted.chronicle) _
      (fun t p _ ht => (purgeCandidate_chronicle operationId now scrub t p).trans ht) rfl
  have hlast : Undisturbed (fun _ => False) redacted
      (if scrub then purged.tombstoneCandidateDerivatives operationId selected now else purged) := by
    refine .of_eq ?_
    split
    · exact hpurged
    · exact hpurged
  refine (hred.trans hlast).mono fun i hi => ?_
  have hw : Withdrawn s redacted i := hi.resolve_right id
  have hlt : i < s.turns.length := by
    obtain ⟨t,ht,_⟩ := (Option.any_eq_true _ _).mp hw.1
    exact (List.getElem?_eq_some_iff.mp ht).1
  exact List.mem_filter.mpr ⟨List.mem_range.mpr hlt,by simp [hw.1,hw.2]⟩

/-! What the operations that take texts make of the index. -/

variable {D : ℕ → Prop}

theorem Indexed.undisturbed (hs : s.Indexed bound fun _ => False) (h : Undisturbed (fun _ => False) s s') :
    s'.Indexed bound fun _ => False :=
  (h.indexed hs).mono fun _ _ _ hd => hd.elim id id

theorem Indexed.retireMutate {loaded : Tables → Tables} {memoryId : Option ℕ}
    {content : Option String} {source : OwnerSource} {now : Time} {commandId : ℕ}
    {applied : Applied} (hs : s.Indexed bound fun _ => False)
    (h : s.retireMutate loaded memoryId content source now commandId = .ok (s',applied)) :
    s'.Indexed bound fun _ => False := by
  obtain ⟨target,_,h⟩ := bind_ok h
  split at h
  · obtain ⟨s₁,ha,h⟩ := bind_ok h
    cases h
    exact hs.undisturbed (.of_eq (applyCommand_chronicle ha))
  · obtain ⟨⟨s₁,id,result⟩,hr,h⟩ := bind_ok h
    obtain ⟨s₂,ha,h⟩ := bind_ok h
    cases h
    have h₁ := hs.undisturbed (.of_eq (retireRow_chronicle hr))
    -- A retirement redacts nothing.
    have hcandidates : (s₁.invalidateCandidates loaded (.command commandId) (s₁.retiredSources id).1
        [] (s₁.retiredSources id).2 none false now).1.chronicle = s₁.chronicle :=
      Trace.foldl_invariant (I := fun t : Tables => t.chronicle = s₁.chronicle) _
        (fun t p _ ht => (purgeCandidate_chronicle _ now false t p).trans ht) rfl
    have h₂ := h₁.undisturbed (.of_eq hcandidates)
    exact h₂.undisturbed (.of_eq ((applyCommand_chronicle ha).trans rfl))

theorem Indexed.deleteMutate {loaded : Tables → Tables} {memoryId : Option ℕ}
    {content : Option String} {scope : String} {source : OwnerSource} {now : Time} {commandId : ℕ}
    {applied : Applied} (hs : s.Indexed bound fun _ => False)
    (h : s.deleteMutate loaded memoryId content scope source now commandId = .ok (s',applied)) :
    s'.Indexed bound fun _ => False := by
  obtain ⟨target,_,h⟩ := bind_ok h
  split at h
  · obtain ⟨s₁,ha,h⟩ := bind_ok h
    cases h
    exact hs.undisturbed (.of_eq (applyCommand_chronicle ha))
  · next target selected _ =>
    obtain ⟨⟨s₁,d⟩,hd,h⟩ := bind_ok h
    dsimp -zeta only at h
    have hpurge := invalidateCandidates_undisturbed loaded s₁ (.command commandId) d.dependencies
      d.candidateIds (d.unsourced selected) selected true now
    revert hpurge h
    generalize s₁.invalidateCandidates loaded (.command commandId) d.dependencies d.candidateIds
      (d.unsourced selected) selected true now = r
    intro h hpurge
    obtain ⟨⟨affected,found⟩,_,h⟩ := bind_ok h
    dsimp -zeta only at h
    extract_lets preserved s₃ allRedacted s₄ s₅ receipt s₆ s₇ at h
    obtain ⟨s₈,ha,h⟩ := bind_ok h
    cases h
    have h₃ : s₃.chronicle = r.1.chronicle := by dsimp only [s₃]; split <;> rfl
    have hdirty := (Undisturbed.of_eq (D := fun _ => False) h₃).indexed
      (hpurge.indexed ((deletionSources_undisturbed hd).indexed hs))
    have h₄ : s₄.Indexed bound fun _ => False := hdirty.invalidateTranscriptDerivatives now (by
      intro i t _ hi
      rw [mem_addMembers]
      rcases hi with ((hi | hi) | hi) | hi
      · exact hi.elim
      · exact Or.inl hi
      · exact Or.inr hi
      · exact hi.elim)
    have h₅ : s₅.chronicle = s₄.chronicle := by dsimp only [s₅]; split <;> rfl
    have h₇ : s₇.chronicle = s₅.chronicle := deleteRows_chronicle s₅ _ target _ _ _
    have h₈ := applyCommand_chronicle ha
    clear_value s₇ s₅ s₄ s₃
    exact h₄.undisturbed (.of_eq (h₈.trans (h₇.trans h₅)))

theorem Indexed.eraseChat (hs : s.Indexed bound fun _ => False) (chatId : ℕ) (now : Time) :
    (s.eraseChat chatId now).Indexed bound fun _ => False := by
  have hext := s.eraseChat_extends chatId now
  -- First the texts of the chat go, then all that was made of them.
  let u : Tables := {s.eraseChat chatId now with chunks := s.chunks, indexStates := s.indexStates}
  have hu : Undisturbed (fun i => ∃ t, s.turns[i]? = some t ∧ t.transcriptId = chatId) s u := by
    refine ⟨?_,rfl,rfl,fun i t t' ht ht' hi => ?_⟩
    · refine ⟨hext.sequences,hext.turns,hext.added,fun hn => ?_,hext.cursors⟩
      obtain ⟨hpositive,hcounted,hdistinct⟩ := hext.numbered hn
      exact ⟨hpositive,hcounted,hdistinct⟩
    · have hrow : u.turns[i]? = some t := by
        show (s.turns.map _)[i]? = _
        rw [List.getElem?_map,ht,Option.map_some,if_neg fun he => hi ⟨t,ht,he⟩]
      rw [Option.some.inj (hrow.symm.trans ht')]
  have hdirty := hu.indexed hs
  have hlater : Extends u (s.eraseChat chatId now) :=
    ⟨fun _ => le_rfl,fun i t ht => ⟨t,ht,rfl,rfl,id⟩,fun i t ht => Or.inl ⟨t,ht⟩,
      fun ⟨hp,hc,hd⟩ => ⟨hp,hc,hd⟩,fun _ => le_rfl⟩
  have hcut := hdirty.cut chatId 0 hlater rfl ?_ ?_ ?_ (fun _ _ _ _ => Nat.zero_le _)
    fun _ _ _ _ _ => Nat.zero_le _
  · refine hcut.mono fun i t' ht' hd => ?_
    obtain ⟨hd,hout⟩ := hd
    obtain ⟨t,ht,he⟩ := hd.resolve_left id
    obtain ⟨u',hu',hk⟩ := hext.turns i t ht
    exact hout u' hu' (hk.transcriptId.trans he)
  · show s.chunks.filter _ = s.chunks.filter _
    apply List.filter_congr
    intro c _
    by_cases hc : c.transcriptId = chatId <;> simp [hc]
  · intro t ht
    show (((s.indexStates.filter fun r => r.transcriptId ≠ chatId).find?
      fun r => r.transcriptId == t).map _).getD 0 = _
    rw [List.find?_filter]
    show _ = ((s.indexStates.find? fun r => r.transcriptId == t).map (·.lastIndexedSequence)).getD 0
    congr 3
    funext r
    by_cases hr : r.transcriptId = t <;> simp [hr,ht]
  · show (((s.indexStates.filter fun r => r.transcriptId ≠ chatId).find?
      fun r => r.transcriptId == chatId).map _).getD 0 = _
    rw [List.find?_filter,List.find?_eq_none.mpr (by simp)]
    simp

theorem Indexed.deleteOwnerChat {chatId id : ℕ} {now : Time} (hs : s.Indexed bound fun _ => False)
    (h : s.deleteOwnerChat chatId now = .ok (s',id)) : s'.Indexed bound fun _ => False := by
  unfold Tables.deleteOwnerChat at h
  split at h
  · cases h
  · extract_lets s₁ at h
    have h₁ : s₁.Indexed bound fun _ => False := by
      apply Indexed.eraseChat
      exact hs.undisturbed ((Adds.setTranscript ..).undisturbed
        (.setTranscript _ _ _ fun _ => by exact le_rfl))
    split at h
    · rw [show s' = (s₁.getOrCreateActive now).1 from (congrArg Prod.fst (Except.ok.inj h)).symm]
      exact h₁.undisturbed ((s₁.getOrCreateActive_adds now).undisturbed
        (s₁.getOrCreateActive_extends now))
    · split at h
      · cases h
        exact h₁.undisturbed ((createTranscript_adds ..).undisturbed (createTranscript_extends ..))
      · cases h
        exact h₁.undisturbed ((Adds.setTranscript ..).undisturbed
          (.setTranscript _ _ _ fun _ => by exact le_rfl))

/-! What a pass of the indexer makes of it. -/

omit [ActionRuntime] in
theorem stateForUpdate_lastIndexed (s : Tables) (transcriptId t : ℕ) :
    (s.stateForUpdate transcriptId).lastIndexed t = s.lastIndexed t := by
  unfold stateForUpdate
  split
  · rfl
  · next h =>
    rw [lastIndexed,lastIndexed,List.find?_append]
    cases hf : s.indexStates.find? fun r => r.transcriptId == t with
    | some r => rfl
    | none =>
      by_cases ht : transcriptId = t <;> simp [ht]

omit [ActionRuntime] in
theorem stateForUpdate_any (s : Tables) (transcriptId : ℕ) :
    ∃ r, (s.stateForUpdate transcriptId).indexStates.find?
      (fun r => r.transcriptId == transcriptId) = some r := by
  rw [← Option.isSome_iff_exists,List.find?_isSome]
  unfold stateForUpdate
  split
  · next h => simpa using h
  · exact ⟨⟨transcriptId,0⟩,by simp,by simp⟩

omit [ActionRuntime] in
theorem setIndexed_lastIndexed {transcriptId n : ℕ} {r : IndexStateRow}
    (hr : s.indexStates.find? (fun r => r.transcriptId == transcriptId) = some r) (t : ℕ) :
    (s.setIndexed transcriptId n).lastIndexed t =
      if t = transcriptId then n else s.lastIndexed t := by
  have hmap := s.lastIndexed_map (f := fun r => if r.transcriptId = transcriptId then
    {r with lastIndexedSequence := n} else r) (fun r => by split <;> rfl) t
  rw [show s.setIndexed transcriptId n = {s with indexStates := s.indexStates.map _} from rfl,hmap]
  have hfound : ∀ row : IndexStateRow,
      (s.indexStates.find? fun row => row.transcriptId == t) = some row → row.transcriptId = t :=
    fun row h => by simpa using List.find?_some h
  split
  · next ht =>
    subst ht
    rw [hr]
    simp [hfound r hr]
  · next ht =>
    rw [lastIndexed]
    cases hf : s.indexStates.find? fun row => row.transcriptId == t with
    | none => rfl
    | some row => simp [hfound row hf,ht]

omit [ActionRuntime] in
theorem length_intercalate (sep : String) (texts : List String) :
    (sep.intercalate texts).length = Packing.span String.length sep.length texts := by
  induction texts with
  | nil => rfl
  | cons x texts ih =>
    cases texts with
    | nil => simp [Packing.span]
    | cons y texts =>
      rw [String.intercalate_cons_cons,String.length_append,String.length_append,ih]
      simp [Packing.span,Nat.mul_add]
      omega

omit [ActionRuntime] in
/-- The first and the last of a list in its order. -/
theorem between_ends {α : Type*} {f : α → ℕ} {l : List α} (hl : l.Pairwise fun a b => f a < f b)
    {first last x : α} (hfirst : l.head? = some first) (hlast : l.getLast? = some last)
    (hx : x ∈ l) : f first ≤ f x ∧ f x ≤ f last := by
  constructor
  · obtain ⟨rest,rfl⟩ := List.head?_eq_some_iff.mp hfirst
    rcases List.mem_cons.mp hx with rfl | hx
    · exact le_rfl
    · exact ((List.pairwise_cons.mp hl).1 x hx).le
  · obtain ⟨rest,rfl⟩ := List.getLast?_eq_some_iff.mp hlast
    rcases List.mem_append.mp hx with hx | hx
    · exact ((List.pairwise_append.mp hl).2.2 x hx last (by simp)).le
    · rw [List.mem_singleton.mp hx]

omit [ActionRuntime] in
/-- A list that is cut in its order: what stands before a piece and what stands behind it. -/
theorem mem_piece {α : Type*} {f : α → ℕ} {l piece before after : List α}
    (hl : l.Pairwise fun a b => f a < f b) (hsplit : l = before ++ piece ++ after) {x first last : α}
    (hx : x ∈ l) (hfirst : first ∈ piece) (hlast : last ∈ piece) (h₁ : f first ≤ f x)
    (h₂ : f x ≤ f last) : x ∈ piece := by
  subst hsplit
  obtain ⟨hleft,_,hright⟩ := List.pairwise_append.mp hl
  obtain ⟨_,_,hbefore⟩ := List.pairwise_append.mp hleft
  rcases List.mem_append.mp hx with hx | hx
  · rcases List.mem_append.mp hx with hx | hx
    · have := hbefore x hx first hfirst
      omega
    · exact hx
  · have := hright last (List.mem_append_right _ hlast) x hx
    omega

/-- The chunks that rows are packed into: they follow each other, each tells the turns of its range,
and none of the texts is left out. -/
theorem chunkRows_tell {transcriptId lo hi : ℕ} {rows : TurnRows} (maxChars : ℕ)
    (hordered : rows.Pairwise fun a b => a.2.sequence < b.2.sequence)
    (hrows : ∀ (i : ℕ) (t : TurnRow), (i,t) ∈ rows ↔ s.turns[i]? = some t ∧
      t.transcriptId = transcriptId ∧ lo < t.sequence ∧ t.sequence ≤ hi) :
    let new := (chunkRows maxChars rows).map (chunkOf transcriptId)
    (new.Pairwise fun a b => a.endSequence < b.startSequence) ∧
      (∀ c ∈ new, c.transcriptId = transcriptId ∧ lo < c.startSequence ∧
        c.startSequence ≤ c.endSequence ∧ (∃ p ∈ rows, c.endSequence = p.2.sequence) ∧
        (c.startSequence = c.endSequence ∨ c.content.length ≤ maxChars) ∧ ∃ l, s.Tells c l) ∧
      ∀ p ∈ rows, turnText p.2 ≠ "" → ∃ c ∈ new, c.Spans p.2 := by
  intro new
  obtain ⟨kept,hkept⟩ : ∃ kept, kept = rows.filter fun r => turnText r.2 ≠ "" := ⟨_,rfl⟩
  obtain ⟨packs,hpacks⟩ : ∃ packs, packs =
      Packing.pack (fun r : ℕ × TurnRow => (turnText r.2).length) 2 maxChars [] 0 kept := ⟨_,rfl⟩
  have hflat : packs.flatten = kept := by
    rw [hpacks,Packing.flatten_pack]
    rfl
  have hsorted : kept.Pairwise fun a b => a.2.sequence < b.2.sequence := by
    rw [hkept]
    exact hordered.sublist List.filter_sublist
  have hmem : ∀ p, p ∈ kept ↔ p ∈ rows ∧ turnText p.2 ≠ "" := by
    intro p
    rw [hkept,List.mem_filter]
    simp
  have hnew : new = packs.map fun ch => chunkOf transcriptId
      (ch,"\n\n".intercalate (ch.map fun r => turnText r.2)) := by
    show ((chunkRows maxChars rows).map _) = _
    rw [chunkRows,← hkept,← hpacks,List.map_map]
    rfl
  -- The first and the last row of a pack.
  have hends : ∀ ch ∈ packs, ∃ first ∈ ch, ∃ last ∈ ch, ch.head? = some first ∧
      ch.getLast? = some last := by
    intro ch hch
    have hne : ch ≠ [] := Packing.ne_nil_of_mem_pack _ _ _ (hpacks ▸ hch)
    exact ⟨ch.head hne,List.head_mem hne,ch.getLast hne,List.getLast_mem hne,
      List.head?_eq_some_head hne,List.getLast?_eq_some_getLast hne⟩
  have hin : ∀ ch ∈ packs, ∀ p ∈ ch, p ∈ kept := by
    intro ch hch p hp
    rw [← hflat]
    exact List.mem_flatten.mpr ⟨ch,hch,hp⟩
  have hparts := hsorted
  rw [← hflat,List.pairwise_flatten] at hparts
  obtain ⟨hinner,houter⟩ := hparts
  rw [hnew]
  refine ⟨?_,?_,?_⟩
  · rw [List.pairwise_map]
    refine houter.imp_of_mem fun {a b} ha hb hab => ?_
    obtain ⟨_,_,last,hlast,_,hl⟩ := hends a ha
    obtain ⟨first,hfirst,_,_,hf,_⟩ := hends b hb
    simpa [chunkOf,hl,hf] using hab last hlast first hfirst
  · intro c hc
    obtain ⟨ch,hch,rfl⟩ := List.mem_map.mp hc
    obtain ⟨first,hfirst,last,hlast,hf,hl⟩ := hends ch hch
    have hstart : (chunkOf transcriptId (ch,"\n\n".intercalate
        (ch.map fun r => turnText r.2))).startSequence = first.2.sequence := by simp [chunkOf,hf]
    have hend : (chunkOf transcriptId (ch,"\n\n".intercalate
        (ch.map fun r => turnText r.2))).endSequence = last.2.sequence := by simp [chunkOf,hl]
    have hrow : ∀ p ∈ ch, s.turns[p.1]? = some p.2 ∧ p.2.transcriptId = transcriptId ∧
        lo < p.2.sequence ∧ p.2.sequence ≤ hi := fun p hp =>
      (hrows p.1 p.2).mp ((hmem p).mp (hin ch hch p hp)).1
    refine ⟨rfl,?_,?_,⟨last,((hmem last).mp (hin ch hch last hlast)).1,hend⟩,
      ?_,ch.map fun r => (r.2.sequence,turnText r.2),?_,fun p => ?_,?_,?_,?_⟩
    · rw [hstart]
      exact (hrow first hfirst).2.2.1
    · rw [hstart,hend]
      exact (between_ends (hinner ch hch) hf hl hfirst).2
    · have hempty : Packing.span (fun r : ℕ × TurnRow => (turnText r.2).length) 2 [] ≤ 0 := by
        simp [Packing.span]
      rcases Packing.span_of_mem_pack (fun r : ℕ × TurnRow => (turnText r.2).length) 2
        maxChars hempty (Or.inl (by simp)) (hpacks ▸ hch) with hone | hspan
      · -- A pack of one row begins where it ends.
        obtain ⟨r,rfl⟩ : ∃ r, ch = [r] := by
          cases ch with
          | nil => cases hfirst
          | cons r rest => exact ⟨r,by simpa using hone⟩
        left
        rw [hstart,hend,List.mem_singleton.mp hfirst,List.mem_singleton.mp hlast]
      · right
        simp only [chunkOf]
        rw [length_intercalate,show "\n\n".length = 2 from rfl]
        simpa [Packing.span,Function.comp_def] using hspan
    · rw [List.pairwise_map]
      exact hinner ch hch
    · constructor
      · intro hp
        obtain ⟨r,hr,rfl⟩ := List.mem_map.mp hp
        obtain ⟨ht,hτ,_⟩ := hrow r hr
        refine ⟨((hmem r).mp (hin ch hch r hr)).2,r.1,r.2,ht,⟨hτ,?_,?_⟩,rfl⟩
        · rw [hstart]
          exact (between_ends (hinner ch hch) hf hl hr).1
        · rw [hend]
          exact (between_ends (hinner ch hch) hf hl hr).2
      · rintro ⟨htext,i,t,ht,⟨hτ,h₁,h₂⟩,rfl⟩
        rw [hstart] at h₁
        rw [hend] at h₂
        have hkeep : (i,t) ∈ kept := by
          refine (hmem _).mpr ⟨(hrows i t).mpr ⟨ht,hτ,?_,?_⟩,htext⟩
          · exact (hrow first hfirst).2.2.1.trans_le h₁
          · exact h₂.trans (hrow last hlast).2.2.2
        obtain ⟨before,after,hsplit⟩ := List.append_of_mem hch
        have hcut : kept = before.flatten ++ ch ++ after.flatten := by
          rw [← hflat,hsplit]
          simp
        exact List.mem_map.mpr ⟨(i,t),mem_piece hsorted hcut hkeep hfirst hlast h₁ h₂,rfl⟩
    · simp [List.head?_map,hf,hstart]
    · simp [List.getLast?_map,hl,hend]
    · simp [chunkOf,Function.comp_def]
  · intro p hp htext
    have hkeep := (hmem p).mpr ⟨hp,htext⟩
    rw [← hflat] at hkeep
    obtain ⟨ch,hch,hpch⟩ := List.mem_flatten.mp hkeep
    obtain ⟨first,hfirst,last,hlast,hf,hl⟩ := hends ch hch
    refine ⟨_,List.mem_map_of_mem hch,((hrows p.1 p.2).mp hp).2.1,?_,?_⟩
    · simpa [chunkOf,hf] using (between_ends (hinner ch hch) hf hl hpch).1
    · simpa [chunkOf,hl] using (between_ends (hinner ch hch) hf hl hpch).2

omit [ActionRuntime] in
theorem stateForUpdate_extends (s : Tables) (transcriptId : ℕ) :
    Extends s (s.stateForUpdate transcriptId) := by
  unfold stateForUpdate
  split
  · exact .refl s
  · exact .of_same (fun _ => le_rfl) rfl fun _ => le_rfl

omit [ActionRuntime] in
theorem setIndexed_extends (s : Tables) (chunks : List IndexChunkRow) (transcriptId n : ℕ) :
    Extends s ({s with chunks := chunks}.setIndexed transcriptId n) :=
  .of_same (fun _ => le_rfl) rfl fun _ => le_rfl

/-- A place for the cursor is made. -/
theorem Indexed.stateForUpdate (hs : s.Indexed bound fun _ => False) (transcriptId : ℕ) :
    (s.stateForUpdate transcriptId).Indexed bound fun _ => False := by
  have hlast := s.stateForUpdate_lastIndexed transcriptId
  have hturns : (s.stateForUpdate transcriptId).turns = s.turns := by
    unfold Tables.stateForUpdate
    split <;> rfl
  have hchunks : (s.stateForUpdate transcriptId).chunks = s.chunks ++ [] := by
    rw [List.append_nil]
    unfold Tables.stateForUpdate
    split <;> rfl
  refine hs.advance (s.stateForUpdate_extends transcriptId) hturns hchunks (fun t _ => hlast t)
    ((hlast 0).trans_le (hs.behind 0)) (hlast 0).ge (by simp) List.Pairwise.nil ?_
  intro i t _ _ _ hlt hle
  rw [hlast] at hle
  omega

omit [ActionRuntime] in
/-- The rows that a pass reads of a transcript. -/
theorem mem_unindexed {transcriptId last through i : ℕ} {t : TurnRow} :
    (i,t) ∈ (s.turnsInOrder fun t => t.transcriptId == transcriptId &&
      decide (last < t.sequence) && decide (t.sequence ≤ through)) ↔
      s.turns[i]? = some t ∧ t.transcriptId = transcriptId ∧ last < t.sequence ∧
        t.sequence ≤ through := by
  rw [mem_turnsInOrder]
  simp [and_assoc]

omit [ActionRuntime] in
theorem nodup_turnsInOrder (s : Tables) (p : TurnRow → Bool) : (s.turnsInOrder p).Nodup := by
  apply (List.perm_insertionSort _ _).nodup_iff.mpr
  apply (nodup_ids p s.turns).filterMap
  intro i j b hi hj
  obtain ⟨_,_,rfl⟩ := Option.map_eq_some_iff.mp hi
  obtain ⟨_,_,hb⟩ := Option.map_eq_some_iff.mp hj
  exact (Prod.mk.inj hb).1.symm

omit [ActionRuntime] in
/-- Rows that were numbered stand in the order of their numbers. -/
theorem ordered_unindexed (hs : s.Numbered) (transcriptId last through : ℕ) :
    (s.turnsInOrder fun t => t.transcriptId == transcriptId && decide (last < t.sequence) &&
      decide (t.sequence ≤ through)).Pairwise fun a b => a.2.sequence < b.2.sequence := by
  have hnodup := s.nodup_turnsInOrder fun t => t.transcriptId == transcriptId &&
    decide (last < t.sequence) && decide (t.sequence ≤ through)
  have hle := s.pairwise_turnsInOrder fun t => t.transcriptId == transcriptId &&
    decide (last < t.sequence) && decide (t.sequence ≤ through)
  refine (hle.and hnodup).imp_of_mem fun {a b} ha hb hab => ?_
  obtain ⟨i,t⟩ := a
  obtain ⟨j,u⟩ := b
  obtain ⟨ht,htτ,_⟩ := mem_unindexed.mp ha
  obtain ⟨hu,huτ,_⟩ := mem_unindexed.mp hb
  refine lt_of_le_of_ne hab.1 fun he => hab.2 ?_
  obtain rfl := hs.distinct i j t u ht hu (htτ.trans huτ.symm) he
  rw [Option.some.inj (ht.symm.trans hu)]

theorem Indexed.indexTranscript (hs : s.Indexed bound fun _ => False) (transcriptId : ℕ)
    {throughSequence : ℕ} (hle : throughSequence ≤ s.lastSequence transcriptId) :
    (s.indexTranscript bound transcriptId throughSequence).1.Indexed bound fun _ => False := by
  unfold Tables.indexTranscript
  split
  · exact hs
  split
  · exact hs
  extract_lets s₁ last rows
  have h₁ : s₁.Indexed bound fun _ => False := hs.stateForUpdate transcriptId
  have hle₁ : throughSequence ≤ s₁.lastSequence transcriptId :=
    hle.trans ((s.stateForUpdate_extends transcriptId).sequences transcriptId)
  obtain ⟨state,hstate⟩ := s.stateForUpdate_any transcriptId
  split
  · exact h₁
  next hlt =>
  have hlt : last < throughSequence := Nat.lt_of_not_le hlt
  have hset : ∀ (chunks : List IndexChunkRow) (n t : ℕ),
      ({s₁ with chunks := chunks}.setIndexed transcriptId n).lastIndexed t =
        if t = transcriptId then n else s₁.lastIndexed t := fun chunks n t =>
    setIndexed_lastIndexed (s := {s₁ with chunks := chunks}) hstate t
  split
  · -- Nothing to read: the cursor moves to the bound.
    next hnone =>
    have hnil : rows = [] := List.getLast?_eq_none_iff.mp hnone
    have hcur := hset s₁.chunks throughSequence transcriptId
    rw [if_pos rfl] at hcur
    refine h₁.advance (s₁.setIndexed_extends s₁.chunks transcriptId throughSequence) rfl
      (List.append_nil _).symm (fun t ht => ?_) (hcur.trans_le hle₁) (hlt.le.trans hcur.ge)
      (by simp) List.Pairwise.nil ?_
    · exact (hset s₁.chunks throughSequence t).trans (if_neg ht)
    · intro i t ht hτ _ hlast hseq
      rw [hcur] at hseq
      have hmem : (i,t) ∈ rows := mem_unindexed.mpr ⟨ht,hτ,hlast,hseq⟩
      rw [hnil] at hmem
      cases hmem
  · next row hrow =>
    have hmem : row ∈ rows := List.mem_of_getLast? hrow
    have hsorted : rows.Pairwise fun a b => a.2.sequence < b.2.sequence :=
      ordered_unindexed h₁.numbered transcriptId last throughSequence
    have hread : ∀ (i : ℕ) (t : TurnRow), (i,t) ∈ rows ↔ s₁.turns[i]? = some t ∧
        t.transcriptId = transcriptId ∧ last < t.sequence ∧ t.sequence ≤ throughSequence :=
      fun _ _ => mem_unindexed
    obtain ⟨_,_,hrowlast,hrowle⟩ := (hread row.1 row.2).mp hmem
    obtain ⟨hordered,hnew,hcovered⟩ := chunkRows_tell bound hsorted hread
    have hend : ∀ p ∈ rows, p.2.sequence ≤ row.2.sequence := by
      intro p hp
      cases hf : rows.head? with
      | none =>
        rw [List.head?_eq_none_iff] at hf
        rw [hf] at hp
        cases hp
      | some first =>
        exact (between_ends (f := fun p : ℕ × TurnRow => p.2.sequence) hsorted hf hrow hp).2
    have hcur := hset (s₁.chunks ++ (chunkRows bound rows).map (chunkOf transcriptId))
      row.2.sequence transcriptId
    rw [if_pos rfl] at hcur
    refine h₁.advance (s₁.setIndexed_extends _ transcriptId row.2.sequence) rfl rfl
      (fun t ht => ?_) (hcur.trans_le (hrowle.trans hle₁)) (hrowlast.le.trans hcur.ge)
      (fun c hc => ?_) hordered ?_
    · exact (hset _ row.2.sequence t).trans (if_neg ht)
    · obtain ⟨hτ,hstart,hproper,⟨p,hp,hpend⟩,hfits,l,hl⟩ := hnew c hc
      refine ⟨hτ,hstart,hproper,?_,hfits,l,hl⟩
      rw [hcur,hpend]
      exact hend p hp
    · intro i t ht hτ htext hlast hseq
      rw [hcur] at hseq
      exact hcovered (i,t) ((hread i t).mpr ⟨ht,hτ,hlast,hseq.trans hrowle⟩) htext

omit [ActionRuntime] in
/-- What is left of a transcript may be indexed up to its last turn. -/
theorem activeCutoff_le (hs : s.Numbered) {transcriptId : ℕ} {x : TranscriptRow}
    (hx : s.transcripts[transcriptId]? = some x) (tailExchanges : ℕ) :
    s.activeCutoff transcriptId x tailExchanges ≤ s.lastSequence transcriptId := by
  have hlast : s.lastSequence transcriptId = x.nextTurnSequence := by
    rw [Tables.lastSequence,hx]
    rfl
  unfold activeCutoff
  split
  · exact hlast.ge
  · extract_lets owner
    split
    · exact Nat.zero_le _
    · cases hl : least owner with
      | none => simp
      | some n =>
        have hmem := List.mem_reverse.mp (List.mem_of_mem_take (least_some hl).1)
        obtain ⟨⟨i,t⟩,hit,rfl⟩ := List.mem_map.mp hmem
        obtain ⟨ht,hp⟩ := mem_turnsInOrder.mp hit
        simp only [Bool.and_eq_true,beq_iff_eq] at hp
        have hcount := hs.counted i t ht
        rw [hp.1] at hcount
        exact (Nat.sub_le _ _).trans hcount

/-- No turn of a transcript up to a bound is left to be indexed. -/
def IndexedTo (s : Tables) (transcriptId through : ℕ) : Prop :=
  ∀ (i : ℕ) (t : TurnRow), s.turns[i]? = some t → t.transcriptId = transcriptId →
    t.sequence ≤ through → t.sequence ≤ s.lastIndexed transcriptId

/-- What the indexing of one transcript leaves alone. -/
structure Carried (s s' : Tables) : Prop where
  turns : s'.turns = s.turns
  transcripts : s'.transcripts = s.transcripts
  chunks : s.chunks <+: s'.chunks
  forward : ∀ t, s.lastIndexed t ≤ s'.lastIndexed t

namespace Carried

variable {s'' : Tables} {transcriptId through : ℕ}

omit [ActionRuntime]

theorem refl (s : Tables) : Carried s s := ⟨rfl,rfl,List.prefix_rfl,fun _ => le_rfl⟩

theorem trans (h : Carried s s') (h' : Carried s' s'') : Carried s s'' :=
  ⟨h'.turns.trans h.turns,h'.transcripts.trans h.transcripts,h.chunks.trans h'.chunks,
    fun t => (h.forward t).trans (h'.forward t)⟩

theorem reached (h : Carried s s') (hr : s.IndexedTo transcriptId through) :
    s'.IndexedTo transcriptId through := by
  intro i t ht hτ hle
  rw [h.turns] at ht
  exact (hr i t ht hτ hle).trans (h.forward transcriptId)

theorem activeCutoff (h : Carried s s') (transcriptId : ℕ) (x : TranscriptRow) (tail : ℕ) :
    s'.activeCutoff transcriptId x tail = s.activeCutoff transcriptId x tail := by
  unfold Tables.activeCutoff turnsInOrder
  rw [h.turns]

end Carried

omit [ActionRuntime] in
theorem stateForUpdate_carried (s : Tables) (transcriptId : ℕ) :
    Carried s (s.stateForUpdate transcriptId) := by
  have hlast := s.stateForUpdate_lastIndexed transcriptId
  refine ⟨?_,?_,?_,fun t => (hlast t).ge⟩
  all_goals unfold stateForUpdate
  · split <;> rfl
  · split <;> rfl
  · split <;> exact List.prefix_rfl

/-- The indexing of a transcript goes up to its bound; where nothing is left it enters nothing. -/
structure Passed (s : Tables) (transcriptId through : ℕ) (r : Tables × ℕ × ℕ) : Prop where
  carried : Carried s r.1
  reached : (s.transcripts[transcriptId]?).isSome = true → s.Numbered →
    r.1.IndexedTo transcriptId through
  idle : s.IndexedTo transcriptId through → r.1.chunks = s.chunks ∧ r.2 = (0,0)

theorem indexTranscript_passed (s : Tables) (maxChars transcriptId through : ℕ) :
    Passed s transcriptId through (s.indexTranscript maxChars transcriptId through) := by
  unfold Tables.indexTranscript
  split
  · next h0 =>
    refine ⟨.refl s,fun _ hn i t ht _ hle => ?_,fun _ => ⟨rfl,rfl⟩⟩
    have := hn.positive i t ht
    omega
  split
  · next hnone =>
    refine ⟨.refl s,fun hsome => ?_,fun _ => ⟨rfl,rfl⟩⟩
    rw [Option.isNone_iff_eq_none.mp hnone] at hsome
    cases hsome
  extract_lets s₁ last rows
  have h₁ : Carried s s₁ := s.stateForUpdate_carried transcriptId
  have hchunks₁ : s₁.chunks = s.chunks := by
    dsimp only [s₁]
    unfold stateForUpdate
    split <;> rfl
  obtain ⟨state,hstate⟩ := s.stateForUpdate_any transcriptId
  have hset : ∀ (chunks : List IndexChunkRow) (n t : ℕ),
      ({s₁ with chunks := chunks}.setIndexed transcriptId n).lastIndexed t =
        if t = transcriptId then n else s₁.lastIndexed t := fun chunks n t =>
    setIndexed_lastIndexed (s := {s₁ with chunks := chunks}) hstate t
  split
  · next hle =>
    exact ⟨h₁,fun _ _ i t _ _ hseq => hseq.trans hle,fun _ => ⟨hchunks₁,rfl⟩⟩
  next hlt =>
  have hlt : last < through := Nat.lt_of_not_le hlt
  have hmove : ∀ chunks n, last ≤ n → s₁.chunks <+: chunks →
      Carried s₁ ({s₁ with chunks := chunks}.setIndexed transcriptId n) := by
    intro chunks n hle hpre
    refine ⟨rfl,rfl,hpre,fun t => ?_⟩
    rw [hset chunks n t]
    split
    · next ht =>
      rw [ht]
      exact hle
    · exact le_rfl
  split
  · next hnone =>
    refine ⟨h₁.trans (hmove s₁.chunks through hlt.le List.prefix_rfl),fun _ _ i t _ _ hseq => ?_,
      fun _ => ⟨hchunks₁,rfl⟩⟩
    exact hseq.trans ((hset s₁.chunks through transcriptId).trans (if_pos rfl)).ge
  · next row hrow =>
    obtain ⟨hrowturn,hτ,hrowlast,hrowle⟩ := mem_unindexed.mp (List.mem_of_getLast? hrow)
    refine ⟨h₁.trans (hmove _ row.2.sequence hrowlast.le (List.prefix_append _ _)),?_,fun hr => ?_⟩
    · intro _ _ i t ht htτ hseq
      refine Nat.le_trans ?_ ((hset _ row.2.sequence transcriptId).trans (if_pos rfl)).ge
      by_cases hold : t.sequence ≤ last
      · exact hold.trans hrowlast.le
      · have hmem : (i,t) ∈ rows := mem_unindexed.mpr ⟨ht,htτ,Nat.lt_of_not_le hold,hseq⟩
        obtain ⟨before,hbefore⟩ := List.getLast?_eq_some_iff.mp hrow
        have hsorted := pairwise_turnsInOrder s₁ fun t => t.transcriptId == transcriptId &&
          decide (last < t.sequence) && decide (t.sequence ≤ through)
        rw [show s₁.turnsInOrder _ = rows from rfl,hbefore] at hsorted
        rw [hbefore] at hmem
        rcases List.mem_append.mp hmem with hmem | hmem
        · exact (List.pairwise_append.mp hsorted).2.2 _ hmem row (by simp)
        · rw [← List.mem_singleton.mp hmem]
    · -- A row that is read was not reached.
      have hreach := h₁.reached hr row.1 row.2 hrowturn hτ hrowle
      exact absurd hrowlast (Nat.not_lt_of_le hreach)

omit [ActionRuntime] in
theorem mem_transcriptsInOrder {id : ℕ} {x : TranscriptRow} :
    (id,x) ∈ s.transcriptsInOrder ↔ s.transcripts[id]? = some x := by
  rw [transcriptsInOrder,List.mem_insertionSort,List.mem_map]
  constructor
  · rintro ⟨p,hp,he⟩
    obtain ⟨rfl,rfl⟩ := Prod.mk.inj he
    exact List.mem_zipIdx_iff_getElem?.mp hp
  · intro h
    exact ⟨(x,id),List.mem_zipIdx_iff_getElem?.mpr h,rfl⟩

theorem indexOne_fst (maxChars tail : ℕ) (r : Tables × IndexRunResult) (p : ℕ × TranscriptRow) :
    (indexOne maxChars tail r p).1 =
      (r.1.indexTranscript maxChars p.1 (r.1.activeCutoff p.1 p.2 tail)).1 := by
  unfold indexOne
  dsimp only
  split <;> rfl

theorem foldl_indexOne_carried (maxChars tail : ℕ) (l : List (ℕ × TranscriptRow))
    (r : Tables × IndexRunResult) : Carried r.1 (l.foldl (indexOne maxChars tail) r).1 := by
  refine Trace.foldl_rel (R := fun u v : Tables × IndexRunResult => Carried u.1 v.1)
    (fun u => .refl u.1) .trans l (fun u p => ?_) r
  rw [indexOne_fst]
  exact (u.1.indexTranscript_passed maxChars p.1 _).carried

/-- The transcripts of a pass, one after another. -/
theorem Indexed.foldl_indexOne {tail : ℕ} {l : List (ℕ × TranscriptRow)} {r : Tables × IndexRunResult}
    (hr : r.1.Indexed bound fun _ => False) (hc : Carried s r.1)
    (hl : ∀ p ∈ l, s.transcripts[p.1]? = some p.2) :
    let r' := l.foldl (indexOne bound tail) r
    (r'.1.Indexed bound fun _ => False) ∧
      ∀ p ∈ l, r'.1.IndexedTo p.1 (s.activeCutoff p.1 p.2 tail) := by
  induction l generalizing r with
  | nil => exact ⟨hr,by simp⟩
  | cons p l ih =>
    have hrow : r.1.transcripts[p.1]? = some p.2 := by
      rw [hc.transcripts]
      exact hl p List.mem_cons_self
    have hpassed := r.1.indexTranscript_passed bound p.1 (r.1.activeCutoff p.1 p.2 tail)
    have hnext := hr.indexTranscript p.1 (activeCutoff_le hr.numbered hrow tail)
    have hreached := hpassed.reached (by simp [hrow]) hr.numbered
    have hcarried := hc.trans hpassed.carried
    rw [← indexOne_fst] at hnext hreached hcarried
    rw [hc.activeCutoff] at hreached
    obtain ⟨h₁,h₂⟩ := ih hnext hcarried fun q hq => hl q (List.mem_cons_of_mem _ hq)
    exact ⟨h₁,List.forall_mem_cons.mpr
      ⟨(foldl_indexOne_carried bound tail l (indexOne bound tail r p)).reached hreached,h₂⟩⟩

omit [ActionRuntime] in
instance (c : IndexChunkRow) (t : TurnRow) : Decidable (c.Spans t) :=
  inferInstanceAs (Decidable (_ ∧ _ ∧ _))

/-- A turn that is covered lies in one chunk only. -/
theorem Indexed.one (hs : s.Indexed bound fun _ => False) {i : ℕ} {t : TurnRow}
    (ht : s.turns[i]? = some t) (htext : turnText t ≠ "")
    (hle : t.sequence ≤ s.lastIndexed t.transcriptId) :
    ∃ c, s.chunks.filter (fun c => c.Spans t) = [c] := by
  obtain ⟨c,hc,hspans⟩ := hs.covered i t ht htext hle id
  have hmem : c ∈ s.chunks.filter fun c => c.Spans t := List.mem_filter.mpr ⟨hc,by simpa using hspans⟩
  have hsorted : (s.chunks.filter fun c => c.Spans t).Pairwise
      fun a b => a.endSequence < b.startSequence := by
    refine (hs.ordered t.transcriptId).sublist ?_
    have hsub : s.chunks.filter (fun c => c.Spans t) =
        (s.chunks.filter (·.transcriptId == t.transcriptId)).filter fun c => c.Spans t := by
      rw [List.filter_filter]
      apply List.filter_congr
      intro c _
      by_cases h : c.Spans t
      · simp [h,h.1]
      · simp [h]
    rw [hsub]
    exact List.filter_sublist
  cases hl : s.chunks.filter fun c => c.Spans t with
  | nil =>
    rw [hl] at hmem
    cases hmem
  | cons a rest =>
    cases rest with
    | nil => exact ⟨a,rfl⟩
    | cons b rest =>
      -- Two of them would overlap at the turn.
      have hin : ∀ x ∈ a :: b :: rest, x.Spans t := by
        intro x hx
        rw [← hl,List.mem_filter] at hx
        exact of_decide_eq_true hx.2
      have ha := hin a (by simp)
      have hb := hin b (by simp)
      rw [hl] at hsorted
      have hlt := (List.pairwise_cons.mp hsorted).1 b List.mem_cons_self
      have h₁ := ha.2.2
      have h₂ := hb.2.1
      omega

/-- Where every transcript was indexed up to its bound a pass finds nothing. -/
theorem foldl_indexOne_idle {maxChars tail : ℕ} {l : List (ℕ × TranscriptRow)}
    {r : Tables × IndexRunResult} (hc : Carried s r.1) (hchunks : r.1.chunks = s.chunks)
    (hl : ∀ p ∈ l, s.IndexedTo p.1 (s.activeCutoff p.1 p.2 tail)) :
    let r' := l.foldl (indexOne maxChars tail) r
    r'.1.chunks = s.chunks ∧ r'.2 = r.2 := by
  induction l generalizing r with
  | nil => exact ⟨hchunks,rfl⟩
  | cons p l ih =>
    obtain ⟨hp,hl⟩ := List.forall_mem_cons.mp hl
    have hpassed := r.1.indexTranscript_passed maxChars p.1 (r.1.activeCutoff p.1 p.2 tail)
    rw [hc.activeCutoff] at hpassed
    obtain ⟨hsame,hcounts⟩ := hpassed.idle (hc.reached hp)
    have hone : indexOne maxChars tail r p =
        ((r.1.indexTranscript maxChars p.1 (s.activeCutoff p.1 p.2 tail)).1,r.2) := by
      unfold indexOne
      rw [hc.activeCutoff]
      simp [hcounts]
    rw [List.foldl_cons,hone]
    exact ih (hc.trans hpassed.carried) (hsame.trans hchunks) hl

end Tables

/-! The index over the runs of the store. -/

theorem Body.indexed {loaded : Tables → Tables} {op : Op} (hs : s.Indexed bound fun _ => False)
    (h : Body loaded s op s') : s'.Indexed bound fun _ => False := by
  have hsame : s'.chronicle = s.chronicle → s'.Indexed bound fun _ => False := fun he =>
    hs.undisturbed (.of_eq he)
  have hext := h.extends
  have hadds : Adds s s' → s'.Indexed bound fun _ => False := fun ha =>
    hs.undisturbed (ha.undisturbed hext)
  cases h with
  | createOwnerChat => exact hadds ⟨List.prefix_rfl,rfl,rfl⟩
  | activateOwnerChat h => exact hadds (Tables.activateOwnerChat_adds h)
  | getOrCreateActive => exact hadds (s.getOrCreateActive_adds _)
  | appendTurn h => exact hadds (Tables.appendTurn_adds h)
  | deleteOwnerChat h => exact hs.deleteOwnerChat h
  | enqueueMany => exact hsame (s.enqueueMany_chronicle _ _)
  | intakeFailed => exact hsame (s.recordExplicitIntakeFailure_chronicle ..)
  | remember h => exact hsame (Tables.queueExplicitContentCommandIn_chronicle h)
  | correct h => exact hsame (Tables.queueExplicitContentCommandIn_chronicle h)
  | claimBatch => exact hsame (s.claimBatch_chronicle ..)
  | persistReading h => exact hsame (Tables.persistReading_chronicle h)
  | persistComparison h => exact hsame (Tables.persistComparison_chronicle h)
  | persistReconciliation h => exact hsame (Tables.persistReconciliation_chronicle h)
  | persistPolicy h => exact hsame (Tables.persistPolicy_chronicle h)
  | finishEpistemicRejection h => exact hsame (Tables.finish_chronicle h)
  | finishPolicyBlock h => exact hsame (Tables.finish_chronicle h)
  | requeueAfterVersionConflict => exact hsame (s.requeueAfterVersionConflict_chronicle ..)
  | releaseAfterConflict => exact hsame (s.releaseAfterConflict_chronicle ..)
  | releaseFailed => exact hsame (Tables.releaseFailed_chronicle ..)
  | publish h => exact hsame (Tables.publishAndSettle_chronicle h)
  | began => exact hsame (s.beginCommand_chronicle ..)
  | failed _ h => exact hsame (Tables.failCommand_chronicle h)
  | retire h => exact hs.retireMutate h
  | restore h => exact hsame (Tables.restoreMutate_chronicle h)
  | delete h => exact hs.deleteMutate h
  | resolveConflict h => exact hsame (Tables.resolveConflictMutate_chronicle h)
  | resolveReview h => exact hadds (Tables.resolveReviewMutate_adds h)
  | resolveObligationIn h => exact hadds (Tables.resolveObligationIn_adds h)

theorem stepLoaded_indexed (loaded : Tables → Tables) {w : State} (op : Op)
    (hw : w.data.Indexed bound fun _ => False) :
    (stepLoaded loaded w op).data.Indexed bound fun _ => False := by
  have hrun : ∀ s', Committed loaded op w.data s' → s'.Indexed bound fun _ => False := by
    intro s' hc
    induction hc with
    | refl => exact hw
    | tail _ hb ih => exact hb.1.indexed ih
  exact hrun _ (stepLoaded_committed loaded w op)

/-- The store with the bounds that passes of the indexer have read. -/
structure IndexedMemory where
  store : State
  cutoffs : List (ℕ × ℕ) := []

inductive IndexerStep where
  | store (loaded : Tables → Tables) (op : Op)
  | cutoff (transcriptId tailExchanges : ℕ)
  | index (k : ℕ)

namespace IndexedMemory

/-- A pass reads the bound of a transcript and indexes it later, while the store is used. -/
def step (chunkChars : ℕ) (m : IndexedMemory) : IndexerStep → IndexedMemory
  | .store loaded op => {m with store := stepLoaded loaded m.store op}
  | .cutoff transcriptId tailExchanges =>
      match m.store.data.transcripts[transcriptId]? with
      | none => m
      | some x => {m with cutoffs := m.cutoffs ++
          [(transcriptId,m.store.data.activeCutoff transcriptId x tailExchanges)]}
  | .index k =>
      match m.cutoffs[k]? with
      | none => m
      | some (transcriptId,through) => {m with store := (transact m.store fun s =>
          .ok (s.indexTranscript (max 500 chunkChars) transcriptId through)).1}

/-- What the store and the passes come to from the empty store. -/
def run (chunkChars : ℕ) (steps : List IndexerStep) : IndexedMemory :=
  steps.foldl (step chunkChars) {store := emptyStore}

/-- The index covers what it has seen, and no pass goes beyond the turns that there are. -/
structure Kept (bound : ℕ) (m : IndexedMemory) : Prop where
  indexed : m.store.data.Indexed bound fun _ => False
  cutoffs : ∀ p ∈ m.cutoffs, p.2 ≤ m.store.data.lastSequence p.1

variable {chunkChars : ℕ} {m : IndexedMemory}

theorem Kept.step (h : Kept (max 500 chunkChars) m) (a : IndexerStep) :
    Kept (max 500 chunkChars) (m.step chunkChars a) := by
  cases a with
  | store loaded op =>
    refine ⟨stepLoaded_indexed loaded op h.indexed,fun p hp => ?_⟩
    exact (h.cutoffs p hp).trans ((stepLoaded_extends loaded m.store op).sequences p.1)
  | cutoff transcriptId tail =>
    unfold IndexedMemory.step
    dsimp only
    split
    · exact h
    · next x hx =>
      refine ⟨h.indexed,fun p hp => ?_⟩
      rcases List.mem_append.mp hp with hp | hp
      · exact h.cutoffs p hp
      · rw [List.mem_singleton.mp hp]
        exact Tables.activeCutoff_le h.indexed.numbered hx tail
  | index k =>
    unfold IndexedMemory.step
    dsimp only
    split
    · exact h
    · next transcriptId through hk =>
      rcases transact_cases m.store fun s =>
          .ok (s.indexTranscript (max 500 chunkChars) transcriptId through) with
        ⟨e,he⟩ | ⟨s',counts,hs',_,he⟩
      · rw [he]
        exact h
      · rw [he]
        have hrun := Except.ok.inj hs'
        have hle := h.cutoffs _ (List.mem_of_getElem? hk)
        have hnext := h.indexed.indexTranscript transcriptId hle
        have hpassed := m.store.data.indexTranscript_passed (max 500 chunkChars) transcriptId through
        rw [hrun] at hnext hpassed
        refine ⟨hnext,fun p hp => ?_⟩
        show p.2 ≤ s'.lastSequence p.1
        rw [Tables.lastSequence,hpassed.carried.transcripts]
        exact h.cutoffs p hp

theorem run_kept (chunkChars : ℕ) (steps : List IndexerStep) :
    Kept (max 500 chunkChars) (run chunkChars steps) := by
  refine Trace.foldl_invariant (I := Kept (max 500 chunkChars)) steps (fun m a _ h => h.step a) ?_
  refine ⟨⟨⟨by simp [emptyStore],by simp [emptyStore],by simp [emptyStore]⟩,?_,?_,?_,?_,?_,?_,?_⟩,?_⟩
  all_goals simp [emptyStore,Tables.lastIndexed]

/-- At any time the chunks of a transcript follow each other, each tells the texts of its turns as
they are now, and every text up to the cursor lies in one chunk. -/
theorem index_covers (chunkChars : ℕ) (steps : List IndexerStep) :
    let s := (run chunkChars steps).store.data
    (∀ transcriptId, (s.chunks.filter (·.transcriptId == transcriptId)).Pairwise
      fun a b => a.endSequence < b.startSequence) ∧
    (∀ c ∈ s.chunks, c.startSequence ≤ c.endSequence ∧
      c.endSequence ≤ s.lastIndexed c.transcriptId ∧
      (c.startSequence = c.endSequence ∨ c.content.length ≤ max 500 chunkChars) ∧
      ∃ l, s.Tells c l) ∧
    ∀ (i : ℕ) (t : TurnRow), s.turns[i]? = some t → turnText t ≠ "" →
      t.sequence ≤ s.lastIndexed t.transcriptId →
      ∃ c, s.chunks.filter (fun c => c.Spans t) = [c] := by
  have h := (run_kept chunkChars steps).indexed
  refine ⟨h.ordered,fun c hc => ⟨h.proper c hc,h.within c hc,h.fits c hc,?_⟩,
    fun i t ht htext hle => h.one ht htext hle⟩
  exact h.told c hc fun _ _ _ _ hd => hd

/-- After a pass no text that it may index is left out, and what was indexed before stays; a second
pass enters nothing. -/
theorem pass_complete (chunkChars tail : ℕ) (steps : List IndexerStep) :
    let s := (run chunkChars steps).store.data
    let s' := (s.indexRunOnce chunkChars tail).1
    let again := s'.indexRunOnce chunkChars tail
    (s'.turns = s.turns ∧ s'.transcripts = s.transcripts ∧ s.chunks <+: s'.chunks) ∧
    (∀ (i : ℕ) (t : TurnRow) (x : TranscriptRow), s'.turns[i]? = some t → turnText t ≠ "" →
      s'.transcripts[t.transcriptId]? = some x →
      t.sequence ≤ s'.activeCutoff t.transcriptId x tail →
      ∃ c, s'.chunks.filter (fun c => c.Spans t) = [c]) ∧
    again.1.chunks = s'.chunks ∧ again.2 = {transcriptsSeen := s.transcripts.length} := by
  intro s s' again
  have h := (run_kept chunkChars steps).indexed
  have hc : Tables.Carried s s' := Tables.foldl_indexOne_carried (max 500 chunkChars) tail
    s.transcriptsInOrder (s,{transcriptsSeen := s.transcripts.length})
  have hrows : ∀ p ∈ s.transcriptsInOrder, s.transcripts[p.1]? = some p.2 := fun p hp =>
    Tables.mem_transcriptsInOrder.mp hp
  obtain ⟨h',hreached⟩ : (s'.Indexed (max 500 chunkChars) fun _ => False) ∧
      ∀ p ∈ s.transcriptsInOrder, s'.IndexedTo p.1 (s.activeCutoff p.1 p.2 tail) :=
    h.foldl_indexOne (r := (s,{transcriptsSeen := s.transcripts.length})) (.refl _) hrows
  have hall : ∀ (id : ℕ) (x : TranscriptRow), s'.transcripts[id]? = some x →
      s'.IndexedTo id (s'.activeCutoff id x tail) := by
    intro id x hx
    rw [hc.transcripts] at hx
    rw [hc.activeCutoff]
    exact hreached (id,x) (Tables.mem_transcriptsInOrder.mpr hx)
  refine ⟨⟨hc.turns,hc.transcripts,hc.chunks⟩,fun i t x ht htext hx hle => ?_,?_⟩
  · exact Tables.Indexed.one h' ht htext (hall _ x hx i t ht rfl hle)
  · rw [← hc.transcripts]
    exact Tables.foldl_indexOne_idle (r := (s',{transcriptsSeen := s'.transcripts.length}))
      (.refl s') rfl fun p hp => hall p.1 p.2 (Tables.mem_transcriptsInOrder.mp hp)

end IndexedMemory

end

end Memory
end Atlas
