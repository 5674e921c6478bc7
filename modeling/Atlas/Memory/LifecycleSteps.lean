import Atlas.Memory.IntakeSteps

/-! Retirement, restoration and deletion as runs of the candidate automaton: a purge ends
every candidate it selects, settles it, and closes its attempts and obligations. -/
namespace Atlas
namespace Memory

open RowTable

theorem TurnsKept.modify (t : List TurnRow) (i : ℕ) (f : TurnRow → TurnRow)
    (h : ∀ x, (f x).transcriptId = x.transcriptId ∧ (f x).actor = x.actor ∧
      ((f x).deletedAt = none → x.deletedAt = none)) : TurnsKept t (t.modify i f) := by
  intro j x hx
  by_cases hj : i = j
  · subst hj
    exact ⟨f x,by rw [getElem?_modify_self,hx]; rfl,h x⟩
  · exact ⟨x,by rw [getElem?_modify_ne t f hj,hx],rfl,rfl,id⟩

theorem TurnsKept.mapIdx (t : List TurnRow) (f : ℕ → TurnRow → TurnRow)
    (h : ∀ i x, (f i x).transcriptId = x.transcriptId ∧ (f i x).actor = x.actor ∧
      ((f i x).deletedAt = none → x.deletedAt = none)) : TurnsKept t (t.mapIdx f) :=
  fun i x hx => ⟨f i x,by rw [List.getElem?_mapIdx,hx]; rfl,h i x⟩

namespace Tables

variable {P : Policy} {s s' : Tables}

theorem nodup_readSelected [PyRuntime] (s : Tables) (turnIds candidateIds : List ℕ)
    (content : Option String) : ((s.readSelected turnIds candidateIds content).map (·.1)).Nodup := by
  have hsub : (s.readSelected turnIds candidateIds content).map (·.1) =
      s.selectedCandidates turnIds candidateIds content := by
    unfold readSelected
    rw [List.map_filterMap]
    refine (List.filterMap_congr fun id hid => ?_).trans List.filterMap_some
    have hany := (List.mem_filter.mp hid).2
    cases hrow : s.candidates[id]? with
    | none => simp [hrow] at hany
    | some row => rfl
  rw [hsub]
  exact List.nodup_range.filter _

theorem readSelected_spec [PyRuntime] {turnIds candidateIds : List ℕ} {content : Option String}
    {p : ℕ × CandidateRow} (h : p ∈ s.readSelected turnIds candidateIds content) :
    s.candidates[p.1]? = some p.2 := by
  obtain ⟨id,_,hid⟩ := List.mem_filterMap.mp h
  cases hrow : s.candidates[id]? with
  | none => simp [hrow] at hid
  | some row =>
    rw [hrow] at hid
    cases hid
    exact hrow

theorem flush_purged (row : CandidateRow) (operationId : OperationId) (now : Time) :
    row.flush (row.purged operationId now) row = row.purged operationId now := by
  simp [CandidateRow.flush,CandidateRow.purged,CandidateRow.cleared]

theorem flush_scrubbed (row : CandidateRow) : row.flush row.scrubbed row = row.scrubbed := by
  simp [CandidateRow.flush,CandidateRow.scrubbed]

theorem purged_version (row : CandidateRow) (operationId : OperationId) (now : Time) :
    (row.invalidatedAt = none ∧
      (row.purged operationId now).stateVersion = row.stateVersion + 1) ∨
    (row.invalidatedAt ≠ none ∧ (row.purged operationId now).stateVersion = row.stateVersion) := by
  cases h : row.invalidatedAt with
  | none => simp [CandidateRow.purged,h]
  | some t => simp [CandidateRow.purged,h]

/-- A selected candidate, found as it was read, is invalidated, settled and scrubbed. -/
theorem purgeCandidate_chain {c : ℕ} {row : CandidateRow} (hrow : s.candidates[c]? = some row)
    (hm : row.status = .invalidated ∨ P.moves row.status .invalidated) (operationId : OperationId)
    (now : Time) (scrub : Bool) :
    Chain P s (purgeCandidate operationId now scrub s (c,row)) := by
  have hchange : RowChange P c row (row.purged operationId now) s (s.setCandidate c fun current =>
      row.flush (row.purged operationId now) current) :=
    { change := by
        have h := Changes.modify hrow fun current => row.flush (row.purged operationId now) current
        rwa [flush_purged] at h
      evidence := rfl
      turns := rfl
      obligations := .refl _
      columns := .invalidate rfl hm (fun hc => hc) (fun _ => Option.some_ne_none now) rfl rfl
      attempts := by
        rcases purged_version row operationId now with ⟨_,hv⟩ | ⟨hi,hv⟩
        · exact .bump (by omega) (.refl _) rfl
        · exact .still hv (Or.inr hi) (.refl _) rfl }
  have hpurged := hchange.settle now none (some "evidence_purged") (some "evidence_purged")
  have hafter := hchange.change.after
  unfold purgeCandidate
  split
  · refine Relation.ReflTransGen.trans (.single hpurged) (.single ?_)
    have hrow' : (((s.setCandidate c fun current => row.flush (row.purged operationId now) current
        ).settleExplicitObligation c now none (some "evidence_purged")
          (some "evidence_purged")).candidates)[c]? = some (row.purged operationId now) := by
      rw [settle_candidates]
      exact hafter
    have hscrub := Changes.modify hrow' fun current =>
      (row.purged operationId now).flush (row.purged operationId now).scrubbed current
    rw [flush_scrubbed] at hscrub
    apply RowChange.stays
    · exact ⟨hscrub,rfl,rfl,.refl _,
        .invalidate rfl (Or.inl rfl) (fun _ => rfl) id rfl rfl,.still rfl (Or.inl nofun) (.refl _) rfl⟩
    · rfl
  · exact .single hpurged

theorem purgeCandidate_frame (operationId : OperationId) (now : Time) (scrub : Bool) (s : Tables)
    (p : ℕ × CandidateRow) {j : ℕ} (h : j ≠ p.1) :
    (purgeCandidate operationId now scrub s p).candidates[j]? = s.candidates[j]? := by
  unfold purgeCandidate
  extract_lets s₁
  have hs₁ : s₁.candidates[j]? = s.candidates[j]? := setCandidate_settle_frame s p.1 _ now none _ _ h
  split
  · rw [← hs₁]
    exact getElem?_modify_ne _ _ (Ne.symm h)
  · exact hs₁

theorem tombstoneCandidateDerivatives_frame (s : Tables) (operationId : OperationId)
    (candidateIds : List ℕ) (now : Time) :
    Frame s (s.tombstoneCandidateDerivatives operationId candidateIds now) := by
  refine ⟨rfl,rfl,.refl _,.map _ _ fun a => ?_,rfl,.map _ _ fun o => ?_⟩
  · split
    · exact ⟨rfl,rfl,nofun⟩
    · exact ⟨rfl,rfl,fun hn => ⟨hn,rfl⟩⟩
  · split
    · split
      · exact ObligationRow.Resolves.keeps ⟨rfl,fun _ => rfl⟩
      · exact ⟨fun _ => rfl,id⟩
    · exact ⟨fun _ => rfl,id⟩

theorem redactSourceTurns_frame [PyRuntime] (s : Tables) (operationId : OperationId)
    (content : String) (preferred : List ℕ) (now : Time) :
    Frame s (s.redactSourceTurns operationId content preferred now).1 := by
  unfold redactSourceTurns
  extract_lets considered changed
  refine ⟨rfl,rfl,.mapIdx _ _ fun i x => ?_,.refl _,rfl,.refl _⟩
  by_cases h : changed.contains i = true
  · rw [if_pos h]
    exact ⟨rfl,rfl,nofun⟩
  · rw [if_neg h]
    exact ⟨rfl,rfl,id⟩

variable [PyRuntime]

theorem redactEvidenceTurn_frame (operationId : OperationId) (now : Time)
    (content redactContent : Option String) (s : Tables) (row : CandidateRow) :
    Frame s (redactEvidenceTurn operationId now content redactContent s row) := by
  unfold redactEvidenceTurn
  split
  · exact .refl s
  · split
    · exact .refl s
    · extract_lets values r
      split
      · exact ⟨rfl,rfl,.modify _ _ _ fun _ => ⟨rfl,rfl,nofun⟩,.refl _,rfl,.refl _⟩
      · exact .refl s

theorem redacted_frame (operationId : OperationId) (now : Time)
    (content redactContent : Option String) (s : Tables) (rows : List CandidateRow) :
    Frame s (rows.foldl (redactEvidenceTurn operationId now content redactContent) s) := by
  induction rows generalizing s with
  | nil => exact .refl s
  | cons row rows ih => exact (redactEvidenceTurn_frame operationId now content redactContent s row).trans (ih _)

/-- A purge whose reads saw the selected candidates as they are. -/
theorem invalidateCandidates_chain {loaded : Tables → Tables} {operationId : OperationId}
    {turnIds candidateIds : List ℕ} {content redactContent : Option String} {scrub : Bool} {now : Time}
    (hread : ∀ p ∈ (loaded s).readSelected turnIds candidateIds content,
      s.candidates[p.1]? = some p.2) (hm : ∀ a, P.moves a .invalidated) :
    Chain P s (s.invalidateCandidates loaded operationId turnIds candidateIds content redactContent
      scrub now).1 := by
  unfold invalidateCandidates
  extract_lets read selected redacted evidenceTurns purged
  have hred : Frame s redacted := by
    dsimp only [redacted]
    split
    · exact redacted_frame ..
    · exact .refl s
  have hpurge : Chain P redacted purged := by
    refine Chain.foldl (k := Prod.fst) (Q := fun p row => row = p.2) read
      (nodup_readSelected _ _ _ _) ?_ ?_ fun p hp => ⟨p.2,?_,rfl⟩
    · rintro t ⟨c,row⟩ _ row' hrow rfl
      exact purgeCandidate_chain hrow (Or.inr (hm _)) operationId now scrub
    · exact fun t p _ j hj => purgeCandidate_frame operationId now scrub t p hj
    · rw [hred.candidates]
      exact hread p hp
  refine hred.chain.trans (hpurge.trans ?_)
  dsimp only
  split
  · exact (tombstoneCandidateDerivatives_frame _ _ _ now).chain
  · exact .refl

omit [PyRuntime] in
theorem resolveCommandObligation_frame {commandId : ℕ} {code : String} {resolution : ResolutionJson}
    {now : Time} (h : s.resolveCommandObligation commandId code resolution now = .ok s') :
    Frame s s' := by
  obtain ⟨id?,_,h⟩ := map_ok h
  split at h
  · cases h
    exact .refl s
  · cases h
    exact (Quiet.resolveObligation _ _ _ fun _ => by exact ⟨rfl,fun _ => rfl⟩).frame

omit [PyRuntime] in
theorem applyCommand_frame {commandId : ℕ} {target replacement : Option ℕ} {now : Time}
    (h : s.applyCommand commandId target replacement now = .ok s') : Frame s s' :=
  (Frame.setCommand s commandId _).trans (resolveCommandObligation_frame h)

omit [PyRuntime] in
theorem failCommand_frame {commandId : ℕ} {e : Failure} {now : Time}
    (h : s.failCommand commandId e now = .ok s') : Frame s s' :=
  (Frame.setCommand s commandId _).trans (resolveCommandObligation_frame h)

omit [PyRuntime] in
theorem invalidateContinuityCapsules_frame (s : Tables) : Frame s s.invalidateContinuityCapsules :=
  .of_core rfl

theorem retireRow_frame {target : RetireTarget} {source : OwnerSource} {now : Time} {r : ℕ × String}
    (h : s.retireRow target source now = .ok (s',r)) : Frame s s' := by
  unfold retireRow at h
  split at h
  · cases h
    exact .refl s
  · cases h
    exact .setMemory s _ _
  · obtain ⟨⟨s₁,r₁⟩,hg,h⟩ := map_ok h
    cases h
    exact .of_core (createGuard_core hg)

/-- The rows the purge of a retirement reads. -/
def retireReads (loaded : Tables → Tables) (memoryId : Option ℕ) (content : Option String)
    (source : OwnerSource) (now : Time) (s : Tables) : List (ℕ × CandidateRow) :=
  match s.retireTarget memoryId content with
  | .ok target =>
      match s.retireRow target source now with
      | .ok (s,id,_) => (loaded s).readSelected (s.retiredSources id).1 [] (s.retiredSources id).2
      | .error _ => []
  | .error _ => []

theorem retireMutate_chain {loaded : Tables → Tables} {memoryId : Option ℕ}
    {content : Option String} {source : OwnerSource} {now : Time} {commandId : ℕ} {applied : Applied}
    (h : s.retireMutate loaded memoryId content source now commandId = .ok (s',applied))
    (hread : ∀ p ∈ retireReads loaded memoryId content source now s, s.candidates[p.1]? = some p.2)
    (hm : ∀ a, P.moves a .invalidated) : Chain P s s' := by
  obtain ⟨target,ht,h⟩ := bind_ok h
  split at h
  · obtain ⟨s₁,ha,h⟩ := bind_ok h
    cases h
    exact (applyCommand_frame ha).chain
  · obtain ⟨⟨s₁,id,result⟩,hr,h⟩ := bind_ok h
    have hf := retireRow_frame hr
    simp only [retireReads,ht,hr] at hread
    have hpurge : Chain P s₁ (s₁.invalidateCandidates loaded (.command commandId)
        (s₁.retiredSources id).1 [] (s₁.retiredSources id).2 none false now).1 :=
      invalidateCandidates_chain (by rw [hf.candidates]; exact hread) hm
    obtain ⟨s₂,ha,h⟩ := bind_ok h
    cases h
    exact hf.chain.trans (hpurge.trans
      ((invalidateContinuityCapsules_frame _).trans (applyCommand_frame ha)).chain)

omit [PyRuntime] in
theorem restoreMutate_frame {memoryId : ℕ} {now : Time} {commandId : ℕ} {applied : Applied}
    (h : s.restoreMutate memoryId now commandId = .ok (s',applied)) : Frame s s' := by
  unfold restoreMutate at h
  split at h
  · cases h
  · split at h
    · cases h
    · split at h
      · obtain ⟨s₁,ha,h⟩ := bind_ok h
        cases h
        exact applyCommand_frame ha
      · split at h
        · cases h
        · split at h
          · cases h
          · split at h
            · cases h
            · obtain ⟨s₁,ha,h⟩ := bind_ok h
              cases h
              exact (Frame.setMemory s _ _).trans
                ((invalidateContinuityCapsules_frame _).trans (applyCommand_frame ha))

theorem deletionSources_frame {operationId : OperationId} {scope : String} {target : Option ℕ}
    {selected : Option String} {now : Time} {d : DeletionSources}
    (h : s.deletionSources operationId scope target selected now = .ok (s',d)) : Frame s s' := by
  obtain ⟨⟨affected,preserved⟩,_,h⟩ := bind_ok h
  obtain ⟨⟨s₁,redacted⟩,hr,h⟩ := bind_ok h
  cases h
  unfold redactSources at hr
  split at hr
  · cases hr
    exact .refl s
  · split at hr
    · cases hr
      exact .refl s
    · extract_lets r at hr
      split at hr
      · cases hr
      · rw [show s' = r.1 from (congrArg Prod.fst (Except.ok.inj hr)).symm]
        exact redactSourceTurns_frame ..

omit [PyRuntime] in
theorem invalidateTranscriptDerivatives_core (s : Tables) (turnIds : List ℕ) (now : Time) :
    (s.invalidateTranscriptDerivatives turnIds now).core = s.core := by
  unfold invalidateTranscriptDerivatives
  split
  · rfl
  · extract_lets rows transcripts
    change Tables.core (List.foldl _ s transcripts) = s.core
    refine Trace.foldl_invariant (I := fun t : Tables => t.core = s.core) transcripts ?_ rfl
    intro t id _ ht
    split
    · exact ht
    · exact ht

/-- The rows the purge of a deletion reads. -/
def deleteReads (loaded : Tables → Tables) (memoryId : Option ℕ) (content : Option String)
    (scope : String) (now : Time) (commandId : ℕ) (s : Tables) : List (ℕ × CandidateRow) :=
  match s.deleteTarget memoryId content with
  | .ok (.selected target selected) =>
      match s.deletionSources (.command commandId) scope target selected now with
      | .ok (s,d) => (loaded s).readSelected d.dependencies d.candidateIds (d.unsourced selected)
      | .error _ => []
  | _ => []

theorem deleteMutate_chain {loaded : Tables → Tables} {memoryId : Option ℕ}
    {content : Option String} {scope : String} {source : OwnerSource} {now : Time} {commandId : ℕ}
    {applied : Applied}
    (h : s.deleteMutate loaded memoryId content scope source now commandId = .ok (s',applied))
    (hread : ∀ p ∈ deleteReads loaded memoryId content scope now commandId s,
      s.candidates[p.1]? = some p.2)
    (hm : ∀ a, P.moves a .invalidated) : Chain P s s' := by
  obtain ⟨target,ht,h⟩ := bind_ok h
  split at h
  · obtain ⟨s₁,ha,h⟩ := bind_ok h
    cases h
    exact (applyCommand_frame ha).chain
  · next target selected =>
    obtain ⟨⟨s₁,d⟩,hd,h⟩ := bind_ok h
    have hf := deletionSources_frame hd
    simp only [deleteReads,ht,hd] at hread
    have hpurge : Chain P s₁ (s₁.invalidateCandidates loaded (.command commandId) d.dependencies
        d.candidateIds (d.unsourced selected) selected true now).1 :=
      invalidateCandidates_chain (by rw [hf.candidates]; exact hread) hm
    refine hf.chain.trans (hpurge.trans ?_)
    dsimp -zeta only at h
    revert h
    generalize s₁.invalidateCandidates loaded (.command commandId) d.dependencies
      d.candidateIds (d.unsourced selected) selected true now = r
    obtain ⟨s₂,candidateIds,evidenceTurnIds⟩ := r
    intro h
    obtain ⟨⟨affected,found⟩,_,h⟩ := bind_ok h
    dsimp -zeta only at h
    extract_lets preserved s₃ allRedacted s₄ s₅ receipt s₆ s₇ at h
    have hcore : s₅.core = s₂.core := by
      have h₃ : s₃.core = s₂.core := by
        dsimp only [s₃]
        split <;> rfl
      have h₄ : s₄.core = s₃.core := invalidateTranscriptDerivatives_core s₃ allRedacted now
      have h₅ : s₅.core = s₄.core := by
        dsimp only [s₅]
        split <;> rfl
      exact h₅.trans (h₄.trans h₃)
    have hrows : (s₅.deleteRows (.command commandId) target affected source now).1.core = s₅.core := by
      unfold deleteRows
      dsimp only
      split <;> rfl
    have h₇ : s₇.core = s₂.core := hrows.trans hcore
    obtain ⟨s₈,ha,h⟩ := bind_ok h
    cases h
    exact (Frame.trans (.of_core h₇) (applyCommand_frame ha)).chain

end Tables

variable [PyRuntime] {P : Policy} {w : State}

theorem execute_chain (envelope : SharedWrites.Envelope OperationId)
    {mutation : Tables → ℕ → Except Failure (SharedWrites.Mutation Dict × Tables)}
    (h : ∀ version outcome s, mutation w.data version = .ok (outcome,s) → Chain P w.data s) :
    Chain P w.data (SharedWrites.execute w envelope mutation).world.data :=
  execute_rel (fun _ => .refl) h

omit [PyRuntime] in
theorem memoryMutation_ok {mutate : Tables → Except Failure (Tables × Applied)} {s s' : Tables}
    {version : ℕ} {outcome : SharedWrites.Mutation Dict}
    (h : memoryMutation mutate s version = .ok (outcome,s')) :
    s'.consistent = true ∧ ∃ applied, mutate s = .ok (s',applied) := by
  obtain ⟨⟨s₁,applied⟩,hc,h⟩ := map_ok h
  cases h
  obtain ⟨r,hm,hr⟩ := bind_ok (x := mutate s) hc
  split at hr
  · next hcons =>
    cases hr
    exact ⟨hcons,applied,hm⟩
  · cases hr

/-- A lifecycle command: its row, its mutation, and its failure if the write raised. -/
theorem runCommand_rel {R : Tables → Tables → Prop} (hrefl : ∀ s, R s s)
    (htrans : ∀ {s t u}, R s t → R t u → R s u) {operation : String} {arguments : Dict}
    {source : OwnerSource} {hb : 1 ≤ operation.length ∧ operation.length ≤ 64} {now : Time}
    {mutate : ℕ → Tables → Except Failure (Tables × Applied)}
    (hbegin : R w.data (w.data.beginCommand operation arguments source).1)
    (h : ∀ s' applied, mutate w.data.commands.length (w.data.beginCommand operation arguments source).1 =
      .ok (s',applied) → R (w.data.beginCommand operation arguments source).1 s')
    (hfail : ∀ {s s' : Tables} {commandId : ℕ} {e : Failure}, s.failCommand commandId e now = .ok s' →
      R s s') :
    R w.data (runCommand w operation arguments source hb now mutate).1.data := by
  unfold runCommand
  rcases transact_cases w fun s => .ok (s.beginCommand operation arguments source) with
    ⟨e,he⟩ | ⟨s,commandId,hs,_,he⟩
  · rw [he]
    exact hrefl _
  · cases hs
    rw [he]
    dsimp only
    let begun : State := {w with data := (w.data.beginCommand operation arguments source).1}
    have hrun : R w.data (SharedWrites.execute begun
        (lifecycleEnvelope w.data.commands.length operation source hb)
        (memoryMutation (mutate w.data.commands.length))).world.data := by
      refine htrans hbegin (execute_rel (w := begun) hrefl fun version outcome s' hs' => ?_)
      obtain ⟨_,applied,hm⟩ := memoryMutation_ok hs'
      exact h s' applied hm
    split
    · exact hrun
    · refine htrans hrun (transact_rel hrefl fun s' u hs' => ?_)
      obtain ⟨s₁,hf,hs₁⟩ := map_ok hs'
      cases hs₁
      exact hfail hf

theorem runCommand_chain (operation : String) (arguments : Dict) (source : OwnerSource)
    (hb : 1 ≤ operation.length ∧ operation.length ≤ 64) (now : Time)
    {mutate : ℕ → Tables → Except Failure (Tables × Applied)}
    (h : ∀ s' applied, mutate w.data.commands.length (w.data.beginCommand operation arguments source).1 =
      .ok (s',applied) → Chain P (w.data.beginCommand operation arguments source).1 s') :
    Chain P w.data (runCommand w operation arguments source hb now mutate).1.data := by
  have hbegin : Frame w.data (w.data.beginCommand operation arguments source).1 := .of_core rfl
  exact runCommand_rel (fun _ => .refl) .trans hbegin.chain h
    fun hf => (Tables.failCommand_frame hf).chain

/-- The rows the purge of a retirement or deletion reads without a lock. -/
def purgeReads (loaded : Tables → Tables) (w : State) : Op → List (ℕ × CandidateRow)
  | .retire arguments transcriptId now =>
      let source := w.data.latestOwnerSource transcriptId
      match arguments.content.mapM fun c => cleanMemoryContent (some c) "content" with
      | .ok content => Tables.retireReads loaded arguments.memoryId content source now
          (w.data.beginCommand "retire" arguments.stored source).1
      | .error _ => []
  | .delete arguments transcriptId now =>
      let source := w.data.latestOwnerSource transcriptId
      match arguments.content.mapM fun c => cleanMemoryContent (some c) "content" with
      | .ok content => Tables.deleteReads loaded arguments.memoryId content arguments.effectiveScope now
          w.data.commands.length (w.data.beginCommand "delete" arguments.stored source).1
      | .error _ => []
  | _ => []

theorem retire_chain {loaded : Tables → Tables} {arguments : RetireArguments}
    {transcriptId : Option ℕ} {now : Time}
    (hread : ∀ p ∈ purgeReads loaded w (.retire arguments transcriptId now),
      w.data.candidates[p.1]? = some p.2)
    (hm : ∀ a, P.moves a .invalidated) :
    Chain P w.data (retire w loaded arguments transcriptId now).1.data := by
  unfold purgeReads at hread
  unfold retire
  split
  · exact .refl
  · next content hc =>
    simp only [hc] at hread
    split
    · exact .refl
    · exact runCommand_chain _ _ _ _ now fun s' applied h => Tables.retireMutate_chain h hread hm

theorem restore_chain (memoryId : ℕ) (transcriptId : Option ℕ) (now : Time) :
    Chain P w.data (restore w memoryId transcriptId now).1.data :=
  runCommand_chain _ _ _ _ now fun _ _ h => (Tables.restoreMutate_frame h).chain

theorem delete_chain {loaded : Tables → Tables} {arguments : DeleteArguments}
    {transcriptId : Option ℕ} {now : Time}
    (hread : ∀ p ∈ purgeReads loaded w (.delete arguments transcriptId now),
      w.data.candidates[p.1]? = some p.2)
    (hm : ∀ a, P.moves a .invalidated) :
    Chain P w.data (delete w loaded arguments transcriptId now).1.data := by
  unfold purgeReads at hread
  unfold delete
  extract_lets scope
  split
  · exact .refl
  · next content hc =>
    simp only [hc] at hread
    split
    · exact .refl
    · split
      · exact .refl
      · exact runCommand_chain _ _ _ _ now fun s' applied h => Tables.deleteMutate_chain h hread hm

/-- A purge that reads the store it writes finds its rows as they are. -/
theorem purgeReads_id (w : State) (op : Op) :
    ∀ p ∈ purgeReads id w op, w.data.candidates[p.1]? = some p.2 := by
  intro p hp
  unfold purgeReads at hp
  split at hp
  · extract_lets source at hp
    split at hp
    · unfold Tables.retireReads at hp
      split at hp
      · split at hp
        · next hr =>
          have hrow := Tables.readSelected_spec hp
          rwa [id,(Tables.retireRow_frame hr).candidates] at hrow
        · cases hp
      · cases hp
    · cases hp
  · extract_lets source at hp
    split at hp
    · unfold Tables.deleteReads at hp
      split at hp
      · split at hp
        · next hd =>
          have hrow := Tables.readSelected_spec hp
          rwa [id,(Tables.deletionSources_frame hd).candidates] at hrow
        · cases hp
      · cases hp
    · cases hp
  · cases hp

end Memory
end Atlas
