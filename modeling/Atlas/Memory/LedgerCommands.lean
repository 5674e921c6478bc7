import Atlas.Memory.LedgerSteps

/-! Intake, owner commands and owner decisions post to the ledger: most of them leave candidates
and attempts alone, a purge closes what it selects, a decision moves a candidate nobody holds. -/
namespace Atlas
namespace Memory

open RowTable

namespace Tables

variable {B : Books} {s s' : Tables}

theorem activateOwnerChat_posts {chatId id : ℕ} {now : Time}
    (h : s.activateOwnerChat chatId now = .ok (s',id)) : Posts B s s' := by
  unfold activateOwnerChat at h
  split at h
  · cases h
  · split at h
    · cases h
      exact .refl s
    · cases h
      exact .of_eq rfl rfl

theorem getOrCreateActive_posts (s : Tables) (now : Time) :
    Posts B s (s.getOrCreateActive now).1 := by
  unfold getOrCreateActive
  split
  · exact .refl s
  · exact .of_eq rfl rfl

theorem appendTurn_posts {transcriptId turnId : ℕ} {actor : Actor} {blocks : List Json} {now : Time}
    (h : s.appendTurn transcriptId actor blocks now = .ok (s',turnId)) : Posts B s s' := by
  unfold appendTurn at h
  split at h
  · cases h
  · cases h
    exact .of_eq rfl rfl

/-- The candidates of a deleted chat are invalidated under a new version. -/
theorem eraseChat_posts (s : Tables) (chatId : ℕ) (now : Time)
    (hl : B.ledger → ∀ row ∈ s.candidates, row.sourceTranscriptId = chatId →
      row.status ≠ .leased) : Posts B s (s.eraseChat chatId now) where
  versions _ c row hrow := by
    refine ⟨_,by rw [eraseChat,List.getElem?_map,hrow]; rfl,?_⟩
    dsimp only
    split
    · exact Or.inl (Nat.lt_succ_self _)
    · exact .refl row
  ledger hB hs :=
    { owned := fun i a hi => by
        rw [eraseChat,List.getElem?_map,Option.isSome_map]
        exact hs.owned i a hi
      balanced := fun c row' hrow' => by
        rw [eraseChat,List.getElem?_map] at hrow'
        obtain ⟨row,hrow,rfl⟩ := Option.map_eq_some_iff.mp hrow'
        have hb := hs.balanced c row hrow
        split
        · next hc =>
          exact .of_none (hb.none_open (hl hB row (List.mem_of_getElem? hrow) hc)) nofun
        · exact hb.of_attempts (by rfl) }

theorem deleteOwnerChat_posts {chatId id : ℕ} {now : Time}
    (h : s.deleteOwnerChat chatId now = .ok (s',id))
    (hl : B.ledger → ∀ row ∈ s.candidates, row.sourceTranscriptId = chatId →
      row.status ≠ .leased) : Posts B s s' := by
  unfold deleteOwnerChat at h
  split at h
  · cases h
  · extract_lets s₁ at h
    have hposts : Posts B s s₁ :=
      Posts.trans (.of_eq (by rfl) (by rfl)) (eraseChat_posts (s.setTranscript chatId _) chatId now hl)
    split at h
    · rw [show s' = (s₁.getOrCreateActive now).1 from (congrArg Prod.fst (Except.ok.inj h)).symm]
      exact hposts.trans (getOrCreateActive_posts _ now)
    · split at h
      · cases h
        exact hposts.trans (.of_eq rfl rfl)
      · cases h
        exact hposts.trans (.of_eq rfl rfl)

variable [PyRuntime]

/-- A new candidate waits and has no attempt yet. -/
theorem enqueue_posts {candidate : MemoryCandidate} {source : IntakeSource} {c : ℕ} {created : Bool}
    (h : s.enqueue candidate source = .ok (s',c,created)) : Posts B s s' := by
  obtain ⟨refs,_,_,_,⟨_,rfl,_⟩ | ⟨_,_,_,normalized,_,rfl⟩⟩ := enqueue_cases h
  · exact .refl _
  · exact
      { versions := fun _ c row hrow => ⟨row,getElem?_insert_of_some hrow,.refl row⟩
        ledger := fun _ hs =>
          { owned := fun i a hi => by
              obtain ⟨row,hrow⟩ := Option.isSome_iff_exists.mp (hs.owned i a hi)
              rw [getElem?_insert_of_some hrow]
              rfl
            balanced := fun c row hrow => by
              rw [getElem?_insert] at hrow
              split at hrow
              · next hc =>
                cases hrow
                refine .of_none (fun i a ha => ?_) nofun
                have hown := hs.owned i a ha.1
                rw [ha.2.1,hc,List.getElem?_eq_none le_rfl] at hown
                cases hown
              · exact (hs.balanced c row hrow).of_attempts (by rfl) } }

theorem enqueueMany_posts (s : Tables) (proposals : List RawCandidate) (source : IntakeSource) :
    Posts B s (s.enqueueMany proposals source) := by
  refine Trace.foldl_rel .refl .trans _ (fun t raw => ?_) s
  split
  · next s' c created h =>
    cases hv : raw.validate with
    | error e => simp [hv,Except.bind] at h
    | ok candidate => exact enqueue_posts (by simpa [hv,Except.bind] using h)
  · exact .refl t

theorem queueExplicitContentCommandIn_posts {c : ExplicitCommand} {source : OwnerSource} {now : Time}
    {q : Queued} (h : s.queueExplicitContentCommandIn c source now = .ok (s',q)) : Posts B s s' := by
  obtain ⟨transcriptId,turnId,candidate,s₁,created,target,rfl,hv,he,s₂,hg,_,_,rfl⟩ :=
    queueExplicitContentCommandIn_cases h
  exact (enqueue_posts he).trans ((Posts.of_core (correctionGuardRow_core hg)).trans (.of_eq rfl rfl))

omit [PyRuntime] in
theorem resolveCommandObligation_posts {commandId : ℕ} {code : String} {resolution : ResolutionJson}
    {now : Time} (h : s.resolveCommandObligation commandId code resolution now = .ok s') :
    Posts B s s' := by
  obtain ⟨id?,_,h⟩ := map_ok h
  split at h <;> cases h <;> exact .of_eq rfl rfl

omit [PyRuntime] in
theorem applyCommand_posts {commandId : ℕ} {target replacement : Option ℕ} {now : Time}
    (h : s.applyCommand commandId target replacement now = .ok s') : Posts B s s' := by
  refine Posts.trans ?_ (resolveCommandObligation_posts h)
  exact .of_eq rfl rfl

omit [PyRuntime] in
theorem failCommand_posts {commandId : ℕ} {e : Failure} {now : Time}
    (h : s.failCommand commandId e now = .ok s') : Posts B s s' := by
  refine Posts.trans ?_ (resolveCommandObligation_posts h)
  exact .of_eq rfl rfl

theorem retireRow_posts {target : RetireTarget} {source : OwnerSource} {now : Time} {r : ℕ × String}
    (h : s.retireRow target source now = .ok (s',r)) : Posts B s s' := by
  unfold retireRow at h
  split at h
  · cases h
    exact .refl s
  · cases h
    exact .of_eq rfl rfl
  · obtain ⟨⟨s₁,r₁⟩,hg,h⟩ := map_ok h
    cases h
    exact .of_core (createGuard_core hg)

omit [PyRuntime] in
theorem restoreMutate_posts {memoryId : ℕ} {now : Time} {commandId : ℕ} {applied : Applied}
    (h : s.restoreMutate memoryId now commandId = .ok (s',applied)) : Posts B s s' := by
  unfold restoreMutate at h
  split at h
  · cases h
  · split at h
    · cases h
    · split at h
      · obtain ⟨s₁,ha,h⟩ := bind_ok h
        cases h
        exact applyCommand_posts ha
      · split at h
        · cases h
        · split at h
          · cases h
          · split at h
            · cases h
            · obtain ⟨s₁,ha,h⟩ := bind_ok h
              cases h
              refine Posts.trans ?_ (applyCommand_posts ha)
              exact .of_eq rfl rfl

/-- Where the rows read by a purge allow it, the purge posts: a selected candidate whose
invalidation was already recorded is invalidated, and one whose attempts stay is not held. -/
structure Purgeable (B : Books) (scrub : Bool) (read : List (ℕ × CandidateRow)) : Prop where
  versions : B.versions → ∀ p ∈ read, p.2.invalidatedAt ≠ none → p.2.status = .invalidated
  ledger : B.ledger → scrub = false → ∀ p ∈ read, p.2.status ≠ .leased

omit [PyRuntime] in
theorem Purged.posts {operationId : OperationId} {now : Time} {scrub : Bool}
    {read : List (ℕ × CandidateRow)} (h : Purged s s' operationId now scrub read)
    (hp : Purgeable B scrub read) : Posts B s s' where
  versions hB c row hrow := by
    by_cases hc : c ∈ read.map (·.1)
    · obtain ⟨p,hmem,rfl⟩ := List.mem_map.mp hc
      obtain ⟨hbefore,hafter⟩ := h.selected p hmem
      cases Option.some.inj (hrow.symm.trans hbefore)
      refine ⟨_,hafter,?_⟩
      rw [CandidateRow.Advances,purgedRow_version,purgedRow_status]
      rcases purged_version p.2 operationId now with ⟨_,hv⟩ | ⟨hi,hv⟩
      · exact Or.inl (by omega)
      · exact Or.inr ⟨hv,(hp.versions hB p hmem hi).symm⟩
    · exact ⟨row,(h.others c hc).trans hrow,.refl row⟩
  ledger hB hs := by
    have hatt : ∀ {i : ℕ} {a' : AttemptRow}, s'.attempts[i]? = some a' → ∃ a : AttemptRow,
        s.attempts[i]? = some a ∧ a.candidateId = a'.candidateId ∧
        (a' = a ∨ a'.completedAt ≠ none) := by
      intro i a' hi
      rw [h.attempts] at hi
      split at hi
      · rw [List.getElem?_map] at hi
        obtain ⟨a,ha,rfl⟩ := Option.map_eq_some_iff.mp hi
        refine ⟨a,ha,?_⟩
        split
        · exact ⟨rfl,Or.inr (Option.some_ne_none now)⟩
        · exact ⟨rfl,Or.inl rfl⟩
      · exact ⟨a',hi,rfl,Or.inl rfl⟩
    have hback : ∀ {c i : ℕ} {a' : AttemptRow}, s'.Open c i a' → s.Open c i a' := by
      rintro c i a' ⟨hi,hid,ho⟩
      obtain ⟨a,ha,_,rfl | hn⟩ := hatt hi
      · exact ⟨ha,hid,ho⟩
      · exact absurd ho hn
    refine ⟨fun i a' hi => ?_,fun c row' hrow' => ?_⟩
    · obtain ⟨a,ha,hid,_⟩ := hatt hi
      rw [← hid]
      by_cases hc : a.candidateId ∈ read.map (·.1)
      · obtain ⟨p,hmem,he⟩ := List.mem_map.mp hc
        rw [← he,(h.selected p hmem).2]
        rfl
      · rw [h.others _ hc]
        exact hs.owned i a ha
    · by_cases hc : c ∈ read.map (·.1)
      · obtain ⟨p,hmem,rfl⟩ := List.mem_map.mp hc
        obtain ⟨hbefore,hafter⟩ := h.selected p hmem
        cases Option.some.inj (hrow'.symm.trans hafter)
        refine .of_none (fun i a' ho => ?_) (by rw [purgedRow_status]; nofun)
        cases hscrub : scrub with
        | true =>
          obtain ⟨hi,hid,hopen⟩ := ho
          rw [h.attempts,if_pos hscrub,List.getElem?_map] at hi
          obtain ⟨a,_,rfl⟩ := Option.map_eq_some_iff.mp hi
          split at hopen
          · cases hopen
          · next hn =>
            rw [if_neg hn] at hid
            exact hn ⟨by rw [hid]; exact List.contains_iff_mem.mpr hc,hopen⟩
        | false =>
          exact (hs.balanced p.1 p.2 hbefore).none_open (hp.ledger hB hscrub p hmem) i a' (hback ho)
      · rw [h.others c hc] at hrow'
        refine (hs.balanced c row' hrow').congr fun i a => ⟨hback,fun ho => ?_⟩
        refine ⟨?_,ho.2⟩
        rw [h.attempts]
        split
        · rw [List.getElem?_map,ho.1,Option.map_some,if_neg]
          rintro ⟨hmem,_⟩
          rw [ho.2.1] at hmem
          exact hc (List.contains_iff_mem.mp hmem)
        · exact ho.1

theorem retireMutate_posts {loaded : Tables → Tables} {memoryId : Option ℕ}
    {content : Option String} {source : OwnerSource} {now : Time} {commandId : ℕ} {applied : Applied}
    (h : s.retireMutate loaded memoryId content source now commandId = .ok (s',applied))
    (hread : ∀ p ∈ retireReads loaded memoryId content source now s, s.candidates[p.1]? = some p.2)
    (hp : Purgeable B false (retireReads loaded memoryId content source now s)) : Posts B s s' := by
  obtain ⟨target,ht,h⟩ := bind_ok h
  split at h
  · obtain ⟨s₁,ha,h⟩ := bind_ok h
    cases h
    exact applyCommand_posts ha
  · obtain ⟨⟨s₁,id,result⟩,hr,h⟩ := bind_ok h
    simp only [retireReads,ht,hr] at hread hp
    have hpurge : Posts B s₁ (s₁.invalidateCandidates loaded (.command commandId)
        (s₁.retiredSources id).1 [] (s₁.retiredSources id).2 none false now).1 :=
      (invalidateCandidates_purged (by rw [(retireRow_frame hr).candidates]; exact hread)).posts hp
    obtain ⟨s₂,ha,h⟩ := bind_ok h
    cases h
    refine (retireRow_posts hr).trans (hpurge.trans (Posts.trans ?_ (applyCommand_posts ha)))
    exact .of_eq rfl rfl

theorem deletionSources_posts {operationId : OperationId} {scope : String} {target : Option ℕ}
    {selected : Option String} {now : Time} {d : DeletionSources}
    (h : s.deletionSources operationId scope target selected now = .ok (s',d)) : Posts B s s' := by
  obtain ⟨⟨affected,preserved⟩,_,h⟩ := bind_ok h
  obtain ⟨⟨s₁,redacted⟩,hr,h⟩ := bind_ok h
  cases h
  unfold redactSources at hr
  split at hr
  · cases hr
    exact .refl s
  · split at hr
    · cases hr
      exact .refl s
    · extract_lets r at hr
      split at hr
      · cases hr
      · rw [show s' = r.1 from (congrArg Prod.fst (Except.ok.inj hr)).symm]
        exact .of_eq rfl rfl

theorem deleteMutate_posts {loaded : Tables → Tables} {memoryId : Option ℕ}
    {content : Option String} {scope : String} {source : OwnerSource} {now : Time} {commandId : ℕ}
    {applied : Applied}
    (h : s.deleteMutate loaded memoryId content scope source now commandId = .ok (s',applied))
    (hread : ∀ p ∈ deleteReads loaded memoryId content scope now commandId s,
      s.candidates[p.1]? = some p.2)
    (hp : Purgeable B true (deleteReads loaded memoryId content scope now commandId s)) :
    Posts B s s' := by
  obtain ⟨id,_,ha⟩ | ⟨target,selected,s₁,d,affected,found,ht,hd,hdel⟩ := deleteMutate_cases h
  · exact applyCommand_posts ha
  · simp only [deleteReads,ht,hd] at hread hp
    have hpurge : Posts B s₁ (s₁.invalidateCandidates loaded (.command commandId) d.dependencies
        d.candidateIds (d.unsourced selected) selected true now).1 :=
      (invalidateCandidates_purged (by rw [(deletionSources_frame hd).candidates]; exact hread)).posts hp
    exact (deletionSources_posts hd).trans (hpurge.trans (.of_eq hdel.candidates hdel.attempts))

omit [PyRuntime] in
theorem appendOwnerAssertionTurn_posts {content : String} {now : Time} {transcriptId turnId : ℕ}
    (h : s.appendOwnerAssertionTurn content now = .ok (s',transcriptId,turnId)) : Posts B s s' := by
  obtain ⟨_,t,hcore,_⟩ := appendOwnerAssertionTurn_eq h
  simp only [core,Core.mk.injEq] at hcore
  exact .of_eq hcore.1 hcore.2.2.2.1

omit [PyRuntime] in
theorem rejectConflicting_posts (s : Tables) (c : ℕ) (decision : DecisionJson) (code : String)
    (resolution : Option String) (now : Time) :
    Posts B s (s.rejectConflicting c decision code resolution now) := by
  unfold rejectConflicting
  split
  · exact .refl s
  · next row hrow =>
    split
    · exact .refl s
    · next hs =>
      refine .idle hrow _ (settle_candidates ..) (settle_attempts ..)
        (fun _ => Or.inl (Nat.lt_succ_self _)) (fun _ => ?_) ?_
      · rw [not_not.mp hs]
        simp
      · simp

omit [PyRuntime] in
theorem keepCurrent_posts (s : Tables) (obligationId conflictId : ℕ) (conflict : ConflictRow)
    (source : OwnerSource) (now : Time) :
    Posts B s (s.keepCurrent obligationId conflictId conflict source now) := by
  unfold keepCurrent
  extract_lets s₁
  have hconflict : Posts B s (s.setConflict conflictId fun c => {c with
      status := "resolved_keep_current"
      resolvedAt := some now}) := .of_eq rfl rfl
  have hrejected : Posts B s s₁ :=
    hconflict.trans (rejectConflicting_posts _ conflict.candidateId _ _ none now)
  clear_value s₁
  exact hrejected.trans (.of_eq rfl rfl)

omit [PyRuntime] in
theorem rejectReview_posts (s : Tables) (obligationId targetId : ℕ) (now : Time) :
    Posts B s (s.rejectReview obligationId targetId now) := .of_eq rfl rfl

theorem confirmReview_posts {obligationId targetId : ℕ} {asserted : String} {now : Time}
    (h : s.confirmReview obligationId targetId asserted now = .ok s') : Posts B s s' := by
  unfold confirmReview at h
  extract_lets fingerprint at h
  split at h
  · cases h
  · obtain ⟨⟨s₁,transcriptId,turnId⟩,ht,h⟩ := bind_ok h
    cases h
    exact (appendOwnerAssertionTurn_posts ht).trans (.of_eq rfl rfl)

theorem resolveReviewMutate_posts {arguments : ResolveArguments} {now : Time} {r : Bool × Resolution}
    (h : s.resolveReviewMutate arguments now = .ok (s',r)) : Posts B s s' := by
  unfold resolveReviewMutate at h
  split at h
  · cases h
  · split at h
    · cases h
      exact .refl s
    · split at h
      · cases h
      · split at h
        · cases h
        · split at h
          · cases h
          · obtain ⟨text,_,h⟩ := bind_ok h
            dsimp only at h
            split at h
            · cases h
              exact .refl s
            · split at h
              · cases h
                exact rejectReview_posts s _ _ now
              · obtain ⟨asserted,_,h⟩ := bind_ok h
                obtain ⟨s₁,hc,h⟩ := bind_ok h
                cases h
                exact confirmReview_posts hc

theorem resolveConflictMutate_posts {arguments : ResolveArguments} {changeType : String}
    {source : OwnerSource} {now : Time} {r : Bool × Resolution}
    (h : s.resolveConflictMutate arguments changeType source now = .ok (s',r)) : Posts B s s' := by
  unfold resolveConflictMutate at h
  split at h
  · cases h
  · split at h
    · cases h
    · split at h
      · cases h
      · next conflictId conflict _ =>
        split at h
        · cases h
          exact .refl s
        · split at h
          · cases h
          · obtain ⟨version,_,h⟩ := bind_ok h
            split at h
            · cases h
              exact .refl s
            · obtain ⟨_,_,h⟩ := bind_ok h
              split at h
              · cases h
                exact keepCurrent_posts s _ _ conflict source now
              · obtain ⟨⟨s₁,q⟩,hr,h⟩ := bind_ok h
                cases h
                obtain ⟨replacement,_,hr⟩ := bind_ok hr
                obtain ⟨⟨s₂,queued⟩,hq,hr⟩ := bind_ok hr
                cases hr
                have hconflict : Posts B s₂ (s₂.setConflict conflictId fun c => {c with
                    status := "resolved_" ++ arguments.decision.value
                    resolvedAt := some now}) := .of_eq rfl rfl
                exact (queueExplicitContentCommandIn_posts hq).trans ((hconflict.trans
                  (rejectConflicting_posts _ conflict.candidateId _ _ _ now)).trans (.of_eq rfl rfl))

theorem resolveCandidate_posts {arguments : ResolveArguments} {obligation : ObligationRow}
    {source : OwnerSource} {now : Time} {r : Resolution}
    (hl : B.ledger → ∀ p, s.decidedCandidate arguments = some p → p.2.status ≠ .leased)
    (ho : s.obligations[arguments.obligationId]? = some obligation)
    (hpend : obligation.status = .pending) (hex : obligation.kind.explicit = false)
    (hkind : obligation.kind = .memoryConfirmation ∨ obligation.kind = .memoryReview)
    (hsub : obligation.subjectType = .memoryCandidate) (hcon : arguments.decision.conflict = false)
    (h : s.resolveCandidate arguments obligation source now = .ok (s',r)) : Posts B s s' := by
  unfold resolveCandidate at h
  split at h
  · cases h
  · next hret =>
    split at h
    · cases h
    · next c row hsubject =>
      have hrow := subject_row hsubject
      obtain ⟨text,htext,h⟩ := bind_ok h
      dsimp only at h
      split at h
      · cases h
        exact .refl s
      · next hver =>
        have hdec : s.decidedCandidate arguments = some (c,row) := by
          simp only [decidedCandidate,ho]
          rw [if_pos ⟨hpend,hex,hkind,hsub,hret,hcon⟩,hsubject]
          simpa [Option.filter,htext] using hver
        have hfree := fun hB => hl hB _ hdec
        split at h
        · cases h
          exact .idle hrow _ (settle_candidates ..) (settle_attempts ..)
            (fun _ => Or.inl (Nat.lt_succ_self _)) hfree fun h => (by cases h)
        · split at h
          · obtain ⟨s₁,hc,h⟩ := bind_ok h
            cases h
            obtain ⟨asserted,_,hc⟩ := bind_ok hc
            obtain ⟨⟨s₁,transcriptId,turnId⟩,ht,hc⟩ := bind_ok hc
            obtain ⟨_,t,hcore,_⟩ := appendOwnerAssertionTurn_eq ht
            simp only [core,Core.mk.injEq] at hcore
            cases hc
            have hrow₁ : s₁.candidates[c]? = some row := hcore.1 ▸ hrow
            exact (appendOwnerAssertionTurn_posts ht).trans (.idle hrow₁ _ rfl rfl
              (fun _ => Or.inl (Nat.lt_succ_self _)) hfree fun h => (by cases h))
          · cases h
            exact .idle hrow _ (settle_candidates ..) (settle_attempts ..)
              (fun _ => Or.inl (Nat.lt_succ_self _)) hfree fun h => (by cases h)

theorem retryExplicitObligation_posts {arguments : ResolveArguments} {obligation : ObligationRow}
    {source : OwnerSource} {now : Time} {r : Resolution}
    (h : s.retryExplicitObligation arguments obligation source now = .ok (s',r)) : Posts B s s' := by
  unfold retryExplicitObligation at h
  split at h
  · cases h
  · split at h
    · cases h
    · split at h
      · cases h
      · next c row hsubject =>
        have hrow := subject_row hsubject
        split at h
        · cases h
          exact .refl s
        · split at h
          · cases h
            exact .refl s
          · next hfailed =>
            have hs : row.status ≠ .leased := by simp [not_not.mp hfailed]
            obtain ⟨text,_,h⟩ := bind_ok h
            dsimp only at h
            split at h
            · cases h
              exact .refl s
            · split at h
              · cases h
                exact .idle hrow _ (settle_candidates ..) (settle_attempts ..)
                  (fun _ => Or.inl (Nat.lt_succ_self _)) (fun _ => hs) nofun
              · cases h
                exact .idle hrow _ rfl rfl (fun _ => Or.inl (Nat.lt_succ_self _)) (fun _ => hs) nofun

theorem resolveObligationIn_posts {arguments : ResolveArguments} {source : OwnerSource} {now : Time}
    {r : Resolution}
    (hl : B.ledger → ∀ p, s.decidedCandidate arguments = some p → p.2.status ≠ .leased)
    (hcon : arguments.decision.conflict = false)
    (h : s.resolveObligationIn arguments source now = .ok (s',r)) : Posts B s s' := by
  unfold resolveObligationIn at h
  split at h
  · cases h
  · next obligation ho =>
    split at h
    · cases h
      exact .refl s
    · next hpend =>
      split at h
      · exact retryExplicitObligation_posts h
      · next hex =>
        split at h
        · cases h
        · next hkind =>
          simp only [not_or,not_and,not_not] at hkind
          refine resolveCandidate_posts hl ho (not_not.mp hpend) (by simpa using hex) ?_ hkind.2 hcon h
          by_cases hk : obligation.kind = .memoryConfirmation
          · exact Or.inl hk
          · exact Or.inr (hkind.1 hk)

end Tables

end Memory
end Atlas
