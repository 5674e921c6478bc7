import Atlas.Memory.Confirmation

/-! Interleavings of workers, reclaims and owner commands in which an unlocked read may see any
earlier store: as long as such a read saw the rows that are then written, a worker step
changes nothing but attempts unless its claim holds the fence, and a lost fence stays lost. -/
namespace Atlas
namespace Memory

open RowTable

/-- The store together with every store before it. -/
structure Interleaving where
  world : State
  past : List Tables

/-- The store an unlocked read sees: an earlier one, or the current one. -/
def Interleaving.seen (h : Interleaving) (i : ℕ) : Tables := (h.past[i]?).getD h.world.data

/-- The time of a publication. -/
def Op.publishedAt : Op → Option Time
  | .publish _ _ _ _ _ now => some now
  | _ => none

/-- A worker step found its claim live: fenced, and for a publication not expired. -/
def Holds (s : Tables) (op : Op) (claim : CandidateLease) : Prop :=
  ∃ row a, Fence s claim row a ∧ ∀ now, op.publishedAt = some now →
    row.leasedUntil.any (now < ·) = true

/-- Nothing but attempts changed. -/
def Untouched (s s' : Tables) : Prop := ∃ attempts, s' = {s with attempts := attempts}

/-- Another claim of the candidate is live, or the candidate was invalidated. -/
def Superseded (s : Tables) (claim : CandidateLease) : Prop :=
  (∃ other, Live s other ∧ Issued s other ∧ other.candidateId = claim.candidateId ∧
    other.attemptId ≠ claim.attemptId) ∨
  ∃ row, s.candidates[claim.candidateId]? = some row ∧ row.status = .invalidated

theorem Untouched.refl (s : Tables) : Untouched s s := ⟨s.attempts,rfl⟩

/-- A superseded claim is not live. -/
theorem Superseded.not_live {s : Tables} {claim : CandidateLease} (h : Superseded s claim)
    (hv : Versioned s) (hi : Issued s claim) : ¬Live s claim := by
  rintro ⟨row,a,hf⟩
  rcases h with ⟨other,⟨row',a',hf'⟩,hi',hc,hne⟩ | ⟨row',hrow',hs⟩
  · have hrows : some row' = some row := by rw [← hf'.candidate,hc,hf.candidate]
    cases Option.some.inj hrows
    have ht : other.leaseToken = claim.leaseToken := by
      have := hf'.token.symm.trans hf.token
      exact Option.some.inj this
    exact hne (hv.distinct _ _ a' a hf'.attempt hf.attempt
      (((hi'.owner hf'.attempt).2.trans ht).trans (hi.owner hf.attempt).2.symm))
  · cases Option.some.inj (hrow'.symm.trans hf.candidate)
    have := hf.status.symm.trans hs
    cases this

/-- A claim that `claim_batch` hands out is live. -/
def Granted (s : Tables) (lease : CandidateLease) : Prop := Live s lease ∧ Issued s lease

namespace Tables

variable {s : Tables}

theorem claimRow_grants {config : LeaseConfig} {now : Time} {c : ℕ} {lease : CandidateLease}
    (h : (s.claimRow config now c).2 = some lease) :
    Granted (s.claimRow config now c).1 lease ∧ lease.candidateId = c := by
  unfold claimRow at h ⊢
  split
  · next hc =>
    simp only [hc] at h
    cases h
  · next row hrow =>
    simp only [hrow] at h
    split
    · next hl =>
      rw [if_pos hl] at h
      dsimp only at h ⊢
      cases h
      unfold leaseCandidate
      extract_lets s₁ number token attempt s₂
      have hrow₂ : s₂.candidates[c]? = some row := by
        dsimp only [s₂,s₁]
        split <;> exact hrow
      have hatt : s₂.attempts[s₂.attempts.length - 1]? = some attempt := by
        change (s₁.attempts ++ [attempt])[(s₁.attempts ++ [attempt]).length - 1]? = some attempt
        rw [List.length_append,List.length_singleton,Nat.add_sub_cancel]
        exact List.getElem?_concat_length
      refine ⟨⟨⟨_,attempt,(Changes.modify hrow₂ _).after,hatt,rfl,rfl,rfl,rfl⟩,attempt,hatt,rfl,rfl⟩,
        rfl⟩
    · next hl =>
      rw [if_neg hl] at h
      cases h

/-- Attempts of other candidates are as before. -/
theorem claimRow_attempt {config : LeaseConfig} {now : Time} {c i : ℕ} {a : AttemptRow}
    (ha : s.attempts[i]? = some a) (hc : a.candidateId ≠ c) :
    (s.claimRow config now c).1.attempts[i]? = some a := by
  have hclose : ∀ status : String, (s.closeStaleAttempts c now status).attempts[i]? = some a := by
    intro status
    change (s.attempts.map _)[i]? = some a
    rw [List.getElem?_map,ha]
    simp [hc]
  unfold claimRow
  split
  · exact ha
  · split
    · unfold leaseCandidate
      extract_lets s₁ number token attempt s₂ r
      change (s₁.attempts ++ [attempt])[i]? = some a
      refine getElem?_insert_of_some ?_
      dsimp only [s₁]
      split
      · exact hclose _
      · exact ha
    · change ((invalidateUnavailable now s c).attempts)[i]? = some a
      simp only [invalidateUnavailable,settle_attempts]
      exact hclose _

theorem Granted.claimRow {config : LeaseConfig} {now : Time} {c : ℕ} {lease : CandidateLease}
    (h : Granted s lease) (hc : lease.candidateId ≠ c) :
    Granted (s.claimRow config now c).1 lease := by
  obtain ⟨⟨row,a,hf⟩,hi⟩ := h
  have hid := hi.owner hf.attempt
  have ha : (s.claimRow config now c).1.attempts[lease.attemptId]? = some a :=
    claimRow_attempt hf.attempt (hid.1 ▸ hc)
  exact ⟨⟨row,a,(claimRow_frame config now s c hc).trans hf.candidate,ha,hf.status,hf.token,hf.opened,
    hf.version⟩,a,ha,hid⟩

theorem claimRows_grants (config : LeaseConfig) (now : Time) {rows : List ℕ} (hnd : rows.Nodup)
    (p : Tables × List CandidateLease)
    (hp : ∀ lease ∈ p.2, Granted p.1 lease ∧ lease.candidateId ∉ rows) :
    ∀ lease ∈ (rows.foldl (fun p id =>
        let r := p.1.claimRow config now id
        (r.1,p.2 ++ r.2.toList)) p).2,
      Granted (rows.foldl (fun p id =>
        let r := p.1.claimRow config now id
        (r.1,p.2 ++ r.2.toList)) p).1 lease := by
  induction rows generalizing p with
  | nil => exact fun lease hl => (hp lease hl).1
  | cons c rows ih =>
    rw [List.nodup_cons] at hnd
    refine ih hnd.2 _ fun lease hl => ?_
    rcases List.mem_append.mp hl with hl | hl
    · obtain ⟨hg,hn⟩ := hp lease hl
      rw [List.mem_cons,not_or] at hn
      exact ⟨Granted.claimRow hg hn.1,hn.2⟩
    · obtain ⟨hg,hc⟩ := claimRow_grants (Option.mem_toList.mp hl)
      exact ⟨hg,hc ▸ hnd.1⟩

/-- Every claim `claim_batch` reports is live in the store it leaves. -/
theorem claimBatch_grants (s : Tables) (config : LeaseConfig) (limit : ℕ) (locks : RowLocks)
    (now : Time) : ∀ lease ∈ (s.claimBatch config limit locks now).2.1,
      Granted (s.claimBatch config limit locks now).1 lease :=
  claimRows_grants config.clamped now (nodup_eligibleRows _ _ _ _ _)
    (s.exhausted config locks now,[]) fun _ hl => absurd hl List.not_mem_nil

end Tables

section

variable [PyRuntime]

/-- One step of an interleaving, with the index of the store its unlocked reads see. -/
def interleave (h : Interleaving) (x : Op × ℕ) : Interleaving :=
  ⟨stepLoaded (fun _ => h.seen x.2) h.world x.1,h.past ++ [h.world.data]⟩

/-- The rows an unlocked read saw are the rows that are written. -/
def Current (h : Interleaving) (x : Op × ℕ) : Prop :=
  ReadsCurrent (fun _ => h.seen x.2) h.world x.1

abbrev Interleaved (ok : Interleaving → Op × ℕ → Prop) : Interleaving → Prop :=
  Trace.Reach interleave (fun h x => Legal h.world x.1 ∧ ok h x)
    fun h => Initial h.world ∧ h.past = []

/-- Later states of an interleaving. -/
abbrev Later (h h' : Interleaving) : Prop :=
  Trace.Path interleave (fun h x => Legal h.world x.1 ∧ Current h x) h h'

theorem interleaved_sound {h : Interleaving} (hr : Interleaved Current h) : Sound h.world.data :=
  hr.invariant (I := fun h : Interleaving => Sound h.world.data) (fun _ hi => hi.1.sound)
    fun _ _ hs hok => hs.stepLoaded hok.1 hok.2

theorem issued_step {loaded : Tables → Tables} {w : State} {op : Op} {claim : CandidateLease}
    (hs : Sound w.data) (hl : Legal w op) (hr : ReadsCurrent loaded w op) (hi : Issued w.data claim) :
    Issued (stepLoaded loaded w op).data claim :=
  (stepLoaded_unrestricted hl hr hs.wellformed).invariant
    (fun _ _ hi hm => Issued.micro hi hm) hi

/-- A lost fence stays lost. -/
theorem fence_lost {h h' : Interleaving} (hr : Interleaved Current h) (hp : Later h h')
    {claim : CandidateLease} (hi : Issued h.world.data claim) (hd : ¬Live h.world.data claim) :
    Issued h'.world.data claim ∧ ¬Live h'.world.data claim := by
  refine hp.stable (I := fun h : Interleaving => Issued h.world.data claim ∧
    ¬Live h.world.data claim) (fun t x ht hd hok => ?_) hr ⟨hi,hd⟩
  have hs := interleaved_sound ht
  have hc := stepLoaded_unrestricted hok.1 hok.2 hs.wellformed
  exact ⟨issued_step hs hok.1 hok.2 hd.1,fun hl => hd.2 (hl.of_chain hs.versioned hd.1 hc)⟩

omit [PyRuntime] in
/-- A transaction that fails, or leaves its tables alone, leaves the store alone. -/
theorem transact_untouched {α : Type*} {w : State} {tx : Tables → Except Failure (Tables × α)}
    (h : ∀ s a, tx w.data = .ok (s,a) → s = w.data) : Untouched w.data (transact w tx).1.data := by
  rcases transact_cases w tx with ⟨e,he⟩ | ⟨s,a,hs,_,he⟩
  · rw [he]
    exact .refl _
  · rw [he,h s a hs]
    exact .refl _

/-- A worker step without the fence changes nothing but attempts. -/
theorem worker_untouched {loaded : Tables → Tables} {w : State} {op : Op} {claim : CandidateLease}
    (hs : Sound w.data) (hl : Legal w op) (hr : ReadsCurrent loaded w op)
    (hc : op.claim = some claim) (hh : ¬Holds w.data op claim) :
    Untouched w.data (stepLoaded loaded w op).data := by
  have hdead : op.publishedAt = none → ¬Live w.data claim := by
    rintro hne ⟨row,a,hf⟩
    exact hh ⟨row,a,hf,fun now he => by rw [hne] at he; cases he⟩
  cases op with
  | persistReading _ snapshot reading model now =>
    cases hc
    exact transact_untouched fun s a h => by
      obtain ⟨⟨row,a⟩,hlocked,_⟩ := bind_ok h
      exact absurd ⟨row,a,Tables.lockedLiveClaim_fence hlocked⟩ (hdead rfl)
  | persistComparison _ readingId comparison now =>
    cases hc
    exact transact_untouched fun s a h => by
      obtain ⟨⟨row,a⟩,hlocked,_⟩ := bind_ok h
      exact absurd ⟨row,a,Tables.lockedLiveClaim_fence hlocked⟩ (hdead rfl)
  | persistReconciliation _ comparisonId snapshot relation now =>
    cases hc
    exact transact_untouched fun s a h => by
      obtain ⟨⟨row,a⟩,hlocked,_⟩ := bind_ok h
      exact absurd ⟨row,a,Tables.lockedLiveClaim_fence hlocked⟩ (hdead rfl)
  | persistPolicy _ recordId policy reason now =>
    cases hc
    exact transact_untouched fun s a h => by
      obtain ⟨⟨row,a⟩,hlocked,_⟩ := bind_ok h
      exact absurd ⟨row,a,Tables.lockedLiveClaim_fence hlocked⟩ (hdead rfl)
  | finishEpistemicRejection _ code now =>
    cases hc
    exact transact_untouched fun s a h => by
      obtain ⟨⟨row,a⟩,hlocked,_⟩ := bind_ok h
      exact absurd ⟨row,a,Tables.lockedLiveClaim_fence hlocked⟩ (hdead rfl)
  | finishPolicyBlock _ code now =>
    cases hc
    exact transact_untouched fun s a h => by
      obtain ⟨⟨row,a⟩,hlocked,_⟩ := bind_ok h
      exact absurd ⟨row,a,Tables.lockedLiveClaim_fence hlocked⟩ (hdead rfl)
  | requeueAfterVersionConflict _ snapshot now =>
    cases hc
    refine transact_untouched fun s a h => ?_
    cases h
    unfold Tables.requeueAfterVersionConflict
    split
    · next row a hrow ha =>
      rw [if_pos (by
        simpa using fun hh => hdead rfl ⟨row,a,Tables.holdsClaim_fence hrow ha hh⟩)]
    · rfl
  | releaseAfterConflict maxAttempts _ code now =>
    cases hc
    refine transact_untouched fun s a h => ?_
    cases h
    unfold Tables.releaseAfterConflict
    split
    · next row a hrow ha =>
      rw [if_pos (by
        simpa using fun hh => hdead rfl ⟨row,a,Tables.holdsClaim_fence hrow ha hh⟩)]
    · rfl
  | releaseFailed maxAttempts _ code now =>
    cases hc
    refine transact_untouched fun s a h => ?_
    cases h
    rw [Tables.releaseFailed_congr hr.1 hr.2]
    unfold Tables.releaseFailed
    split
    · next row a hrow ha =>
      rw [if_pos (by
        simpa using fun hh => hdead rfl ⟨row,a,Tables.holdsClaim_fence hrow ha hh⟩)]
    · rfl
  | publish config _ snapshot decision operationId now =>
    cases hc
    rcases publish_cases w config claim snapshot decision operationId now with hw | ⟨pub,hp⟩
    · exact ⟨_,hw⟩
    · rcases Tables.publishAndSettle_ends hs (hl claim rfl) hp with
        hw | ⟨row,a,hf,⟨_,attempts,hw⟩ | ⟨hlive,_⟩⟩
      · exact ⟨_,hw⟩
      · exact ⟨attempts,hw⟩
      · exact absurd ⟨row,a,hf,fun _ he => by cases he; exact hlive⟩ hh
  | _ => cases hc

/-- A publication that changed more than attempts ended its claim. -/
theorem publication_ends {w : State} {op : Op} {claim : CandidateLease} (hs : Sound w.data)
    (hl : Legal w op) (hc : op.claim = some claim) (hp : op.publishedAt ≠ none)
    (loaded : Tables → Tables) (hu : ¬Untouched w.data (stepLoaded loaded w op).data) :
    ¬Live (stepLoaded loaded w op).data claim := by
  cases op with
  | publish config _ snapshot decision operationId now =>
    cases hc
    rcases publish_cases w config claim snapshot decision operationId now with hw | ⟨pub,hpub⟩
    · exact absurd ⟨_,hw⟩ hu
    · rcases Tables.publishAndSettle_ends hs (hl claim rfl) hpub with
        hw | ⟨row,a,_,⟨_,attempts,hw⟩ | ⟨_,hends⟩⟩
      · exact absurd ⟨_,hw⟩ hu
      · exact absurd ⟨attempts,hw⟩ hu
      · obtain ⟨a',ha',hclosed⟩ := hends.closed
        rintro ⟨row',a'',hf⟩
        cases Option.some.inj (ha'.symm.trans hf.attempt)
        exact hclosed hf.opened
  | _ => exact absurd rfl hp

/-- Once a claim is dead, none of its steps changes anything but attempts. -/
theorem dead_claim {h h' : Interleaving} (hr : Interleaved Current h) (hp : Later h h')
    {claim : CandidateLease} (hi : Issued h.world.data claim) (hd : ¬Live h.world.data claim)
    {x : Op × ℕ} (hl : Legal h'.world x.1) (hx : Current h' x) (hc : x.1.claim = some claim) :
    Untouched h'.world.data (interleave h' x).world.data := by
  have hdead := (fence_lost hr hp hi hd).2
  refine worker_untouched (interleaved_sound (hr.path hp)) hl hx hc ?_
  rintro ⟨row,a,hf,_⟩
  exact hdead ⟨row,a,hf⟩

/-- Lease fencing: a step without the fence changes nothing but attempts, a superseded claim
never changes anything again, and neither does a claim after its publication. -/
theorem lease_fencing {h : Interleaving} (hr : Interleaved Current h) :
    (∀ x claim, Legal h.world x.1 → Current h x → x.1.claim = some claim →
      Holds h.world.data x.1 claim ∨ Untouched h.world.data (interleave h x).world.data) ∧
    (∀ claim, Issued h.world.data claim → Superseded h.world.data claim → ∀ h', Later h h' →
      ∀ x, Legal h'.world x.1 → Current h' x → x.1.claim = some claim →
        Untouched h'.world.data (interleave h' x).world.data) ∧
    (∀ x claim, Legal h.world x.1 → Current h x → x.1.claim = some claim →
      x.1.publishedAt ≠ none → ¬Untouched h.world.data (interleave h x).world.data →
      ∀ h', Later (interleave h x) h' → ∀ y, Legal h'.world y.1 → Current h' y →
        y.1.claim = some claim → Untouched h'.world.data (interleave h' y).world.data) ∧
    ∀ config limit locks now, ∀ lease ∈ (h.world.data.claimBatch config limit locks now).2.1,
      Granted (h.world.data.claimBatch config limit locks now).1 lease := by
  have hs := interleaved_sound hr
  refine ⟨fun x claim hl hx hc => ?_,fun claim hi hsup h' hp x hl hx hc => ?_,
    fun x claim hl hx hc hpub hu h' hp y hly hy hcy => ?_,fun config limit locks now =>
      h.world.data.claimBatch_grants config limit locks now⟩
  · exact or_iff_not_imp_left.mpr fun hh => worker_untouched hs hl hx hc hh
  · exact dead_claim hr hp hi (hsup.not_live hs.versioned hi) hl hx hc
  · exact dead_claim (.next hr ⟨hl,hx⟩) hp (issued_step hs hl hx (hl claim hc))
      (publication_ends hs hl hc hpub _ hu) hly hy hcy

instance (loaded : Tables → Tables) (w : State) (op : Op) :
    Decidable (ReadsCurrent loaded w op) := by
  apply @Op.casesOn (fun op => Decidable (ReadsCurrent loaded w op)) op <;> intros <;> dsimp only [ReadsCurrent] <;>
    infer_instance

instance (h : Interleaving) (x : Op × ℕ) : Decidable (Current h x) := by
  unfold Current
  infer_instance

/-- The interleaving a list of steps leaves of a fresh installation. -/
def raced (steps : List (Op × ℕ)) : Interleaving := steps.foldl interleave ⟨emptyStore,[]⟩

theorem raced_interleaved {ok : Interleaving → Op × ℕ → Prop} {steps : List (Op × ℕ)}
    (h : Trace.Allowed interleave (fun h x => Legal h.world x.1 ∧ ok h x) ⟨emptyStore,[]⟩ steps) :
    Interleaved ok (raced steps) :=
  Trace.Reach.run (.start ⟨emptyStore_initial,rfl⟩) h

end

/-- A candidate whose lease expires and is claimed by a second worker. -/
def reclaimed : List (Op × ℕ) :=
  [(.getOrCreateActive 0,0),(.appendTurn 0 .owner [textBlock "I like tea"] 1,0),
    (.remember {content := some "likes tea"} none 2,0),(.claimBatch {} 1 {} 3,0),
    (.claimBatch {} 1 {} 183,0)]

theorem Holds.fence {s : Tables} {op : Op} {claim : CandidateLease} (h : Holds s op claim) :
    ∃ row, s.candidates[claim.candidateId]? = some row ∧
      ∃ a, s.attempts[claim.attemptId]? = some a ∧ Tables.holdsClaim claim row a = true := by
  obtain ⟨row,a,hf,_⟩ := h
  exact ⟨row,hf.candidate,a,hf.attempt,((fence_iff s claim row a).mp hf).2.2⟩

theorem Untouched.candidates {s s' : Tables} (h : Untouched s s') : s'.candidates = s.candidates := by
  obtain ⟨_,rfl⟩ := h
  rfl

/-- The run, and what the release of the first worker finds after it. -/
theorem ran_reclaimed :
    letI := plainRuntime
    let op := Op.releaseFailed 3 ⟨0,0,0,1⟩ "model_unavailable" 184
    (Trace.Allowed interleave (fun h x => Legal h.world x.1 ∧ Current h x) ⟨emptyStore,[]⟩
        reclaimed ∧
      Legal (raced reclaimed).world op ∧ Current (raced reclaimed) (op,5)) ∧
    (¬∃ row, (raced reclaimed).world.data.candidates[0]? = some row ∧
      ∃ a, (raced reclaimed).world.data.attempts[0]? = some a ∧
        Tables.holdsClaim ⟨0,0,0,1⟩ row a = true) ∧
    (interleave (raced reclaimed) (op,4)).world.data.candidates.map (·.status) ≠
      (raced reclaimed).world.data.candidates.map (·.status) := by
  rw [plainRuntime_eq]
  decide +kernel

/-- The first worker reads the current store and finds its claim gone. -/
theorem lease_fencing_reclaimed :
    letI := plainRuntime
    Untouched (raced reclaimed).world.data (interleave (raced reclaimed)
      (.releaseFailed 3 ⟨0,0,0,1⟩ "model_unavailable" 184,5)).world.data := by
  obtain ⟨⟨hrun,hl,hc⟩,hgone,_⟩ := ran_reclaimed
  exact ((@lease_fencing plainRuntime _ (@raced_interleaved plainRuntime _ _ hrun)).1
    (.releaseFailed 3 ⟨0,0,0,1⟩ "model_unavailable" 184,5) ⟨0,0,0,1⟩ hl hc rfl).resolve_left
      (mt Holds.fence hgone)

/-- The first worker read its rows before the second claim, and takes the lease from it. -/
theorem lease_taken :
    letI := plainRuntime
    let h := raced reclaimed
    let x := (Op.releaseFailed 3 ⟨0,0,0,1⟩ "model_unavailable" 184,4)
    Interleaved (fun _ _ => True) h ∧ Legal h.world x.1 ∧ x.1.claim = some ⟨0,0,0,1⟩ ∧
      ¬Holds h.world.data x.1 ⟨0,0,0,1⟩ ∧ ¬Untouched h.world.data (interleave h x).world.data := by
  obtain ⟨⟨hrun,hl,_⟩,hgone,hstatus⟩ := ran_reclaimed
  exact ⟨(@raced_interleaved plainRuntime _ _ hrun).mono fun _ _ h => ⟨h.1,trivial⟩,hl,rfl,
    mt Holds.fence hgone,fun hu => hstatus (congrArg (List.map (·.status)) hu.candidates)⟩

end Memory
end Atlas
