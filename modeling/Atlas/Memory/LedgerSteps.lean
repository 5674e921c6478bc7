import Atlas.Memory.Bodies
import Atlas.Memory.Publications
import Atlas.Memory.PurgeSteps

/-! The attempt ledger and the version column. Every writer of a candidate posts both: the
status changes under a new version, and the open attempt follows the lease. -/
namespace Atlas
namespace Memory

open RowTable

/-- An attempt of a candidate that has not completed. -/
def Tables.Open (s : Tables) (c i : ℕ) (a : AttemptRow) : Prop :=
  s.attempts[i]? = some a ∧ a.candidateId = c ∧ a.completedAt = none

/-- A candidate's open attempts agree with its lease. -/
structure Balanced (s : Tables) (c : ℕ) (row : CandidateRow) : Prop where
  one : ∀ i j a b, s.Open c i a → s.Open c j b → i = j
  leased : (∃ i a, s.Open c i a) ↔ row.status = .leased
  agrees : ∀ i a, s.Open c i a →
    row.leaseToken = some a.leaseToken ∧ a.candidateStateVersion = row.stateVersion

/-- Every candidate is balanced, and every attempt belongs to one. -/
structure Ledgered (s : Tables) : Prop where
  owned : ∀ (i : ℕ) (a : AttemptRow), s.attempts[i]? = some a →
    (s.candidates[a.candidateId]?).isSome = true
  balanced : ∀ (c : ℕ) (row : CandidateRow), s.candidates[c]? = some row → Balanced s c row

/-- The version of a row grows, or its status is what it was. -/
def CandidateRow.Advances (row row' : CandidateRow) : Prop :=
  row.stateVersion < row'.stateVersion ∨
    (row'.stateVersion = row.stateVersion ∧ row'.status = row.status)

theorem CandidateRow.Advances.refl (row : CandidateRow) : row.Advances row := Or.inr ⟨rfl,rfl⟩

theorem CandidateRow.Advances.trans {a b c : CandidateRow} (h : a.Advances b) (h' : b.Advances c) :
    a.Advances c := by
  rcases h with h | ⟨hv,hs⟩ <;> rcases h' with h' | ⟨hv',hs'⟩
  · exact Or.inl (h.trans h')
  · exact Or.inl (hv' ▸ h)
  · exact Or.inl (hv ▸ h')
  · exact Or.inr ⟨hv'.trans hv,hs'.trans hs⟩

/-- No candidate is lost, and each one advances. -/
def Advanced (s s' : Tables) : Prop :=
  ∀ (c : ℕ) (row : CandidateRow), s.candidates[c]? = some row →
    ∃ row', s'.candidates[c]? = some row' ∧ row.Advances row'

theorem Advanced.refl (s : Tables) : Advanced s s := fun _ row hrow => ⟨row,hrow,.refl row⟩

theorem Advanced.trans {s s' s'' : Tables} (h : Advanced s s') (h' : Advanced s' s'') :
    Advanced s s'' := by
  intro c row hrow
  obtain ⟨row',hrow',ha⟩ := h c row hrow
  obtain ⟨row'',hrow'',ha'⟩ := h' c row' hrow'
  exact ⟨row'',hrow'',ha.trans ha'⟩

/-- What is asked of a change: the versions, the ledger, or both. -/
structure Books where
  versions : Prop
  ledger : Prop

structure Posts (B : Books) (s s' : Tables) : Prop where
  versions : B.versions → Advanced s s'
  ledger : B.ledger → Ledgered s → Ledgered s'

/-- The attempts of all other candidates are as they were. -/
def AttemptsOf (c : ℕ) (t t' : List AttemptRow) : Prop :=
  ∀ (i : ℕ) (a : AttemptRow), a.candidateId ≠ c → (t'[i]? = some a ↔ t[i]? = some a)

theorem AttemptsOf.refl (c : ℕ) (t : List AttemptRow) : AttemptsOf c t t := fun _ _ _ => Iff.rfl

theorem AttemptsOf.map (c : ℕ) (t : List AttemptRow) (f : AttemptRow → AttemptRow)
    (hid : ∀ a, (f a).candidateId = a.candidateId) (hother : ∀ a, a.candidateId ≠ c → f a = a) :
    AttemptsOf c t (t.map f) := by
  intro i a ha
  rw [List.getElem?_map,Option.map_eq_some_iff]
  constructor
  · rintro ⟨b,hb,rfl⟩
    rw [hid] at ha
    rw [hother b ha]
    exact hb
  · exact fun h => ⟨a,h,hother a ha⟩

theorem AttemptsOf.change {c i : ℕ} {t t' : List AttemptRow} {a a' : AttemptRow}
    (h : Changes t t' i a a') (ha : a.candidateId = c) (ha' : a'.candidateId = c) :
    AttemptsOf c t t' := by
  intro j b hb
  by_cases hj : j = i
  · subst hj
    rw [h.before,h.after,Option.some.injEq,Option.some.injEq]
    constructor <;> rintro rfl <;> contradiction
  · rw [h.others j hj]

theorem AttemptsOf.trans {c : ℕ} {t t' t'' : List AttemptRow} (h : AttemptsOf c t t')
    (h' : AttemptsOf c t' t'') : AttemptsOf c t t'' :=
  fun i a ha => (h' i a ha).trans (h i a ha)

theorem AttemptsOf.append {c : ℕ} (t : List AttemptRow) {a : AttemptRow} (ha : a.candidateId = c) :
    AttemptsOf c t (t ++ [a]) := by
  intro i b hb
  rw [getElem?_insert]
  split
  · next hi =>
    subst hi
    rw [List.getElem?_eq_none le_rfl,Option.some.injEq]
    constructor
    · rintro rfl
      contradiction
    · intro h
      cases h
  · rfl

theorem AttemptsOf.open_iff {c d i : ℕ} {a : AttemptRow} {s s' : Tables}
    (h : AttemptsOf c s.attempts s'.attempts) (hd : d ≠ c) : s'.Open d i a ↔ s.Open d i a := by
  constructor
  · rintro ⟨ha,hc,ho⟩
    exact ⟨(h i a (hc ▸ hd)).mp ha,hc,ho⟩
  · rintro ⟨ha,hc,ho⟩
    exact ⟨(h i a (hc ▸ hd)).mpr ha,hc,ho⟩

theorem Balanced.congr {s s' : Tables} {c : ℕ} {row : CandidateRow}
    (h : ∀ i a, s'.Open c i a ↔ s.Open c i a) (hb : Balanced s c row) : Balanced s' c row where
  one i j a b ha hb' := hb.one i j a b ((h i a).mp ha) ((h j b).mp hb')
  leased := by simp only [h,hb.leased]
  agrees i a ha := hb.agrees i a ((h i a).mp ha)

theorem Balanced.of_attempts {s s' : Tables} {c : ℕ} {row : CandidateRow}
    (ha : s'.attempts = s.attempts) (hb : Balanced s c row) : Balanced s' c row :=
  hb.congr fun i a => by
    unfold Tables.Open
    rw [ha]

/-- A candidate nobody holds is balanced if it has no open attempt. -/
theorem Balanced.of_none {s : Tables} {c : ℕ} {row : CandidateRow} (h : ∀ i a, ¬s.Open c i a)
    (hs : row.status ≠ .leased) : Balanced s c row where
  one i _ a _ ha := absurd ha (h i a)
  leased := ⟨fun ⟨i,a,ha⟩ => absurd ha (h i a),fun hl => absurd hl hs⟩
  agrees i a ha := absurd ha (h i a)

theorem Balanced.none_open {s : Tables} {c : ℕ} {row : CandidateRow} (h : Balanced s c row)
    (hs : row.status ≠ .leased) (i : ℕ) (a : AttemptRow) : ¬s.Open c i a :=
  fun ha => hs (h.leased.mp ⟨i,a,ha⟩)

namespace Posts

variable {B : Books} {s s' s'' : Tables} {c : ℕ} {row row' : CandidateRow}

theorem refl (s : Tables) : Posts B s s := ⟨fun _ => .refl s,fun _ => id⟩

theorem trans (h : Posts B s s') (h' : Posts B s' s'') : Posts B s s'' :=
  ⟨fun hb => (h.versions hb).trans (h'.versions hb),fun hb hs => h'.ledger hb (h.ledger hb hs)⟩

/-- Other tables change. -/
theorem of_eq (hc : s'.candidates = s.candidates) (ha : s'.attempts = s.attempts) : Posts B s s' where
  versions _ _ row hrow := ⟨row,hc ▸ hrow,.refl row⟩
  ledger _ hs :=
    { owned := fun i a hi => hc ▸ hs.owned i a (ha ▸ hi)
      balanced := fun c row hrow => (hs.balanced c row (hc ▸ hrow)).of_attempts ha }

theorem of_core (h : s'.core = s.core) : Posts B s s' :=
  of_eq (Quiet.of_core h).candidates (Quiet.of_core h).attempts

/-- One candidate row changes, with its own attempts. -/
theorem change (hc : Changes s.candidates s'.candidates c row row')
    (ha : AttemptsOf c s.attempts s'.attempts) (hv : B.versions → row.Advances row')
    (hb : B.ledger → Balanced s c row → Balanced s' c row') : Posts B s s' where
  versions hB d r hr := by
    by_cases hd : d = c
    · subst hd
      cases Option.some.inj (hr.symm.trans hc.before)
      exact ⟨row',hc.after,hv hB⟩
    · exact ⟨r,(hc.others d hd).trans hr,.refl r⟩
  ledger hB hs :=
    { owned := fun i a hi => by
        rw [hc.isSome]
        by_cases hd : a.candidateId = c
        · rw [hd,hc.before]
          rfl
        · exact hs.owned i a ((ha i a hd).mp hi)
      balanced := fun d r hr => by
        rcases hc.cases hr with ⟨rfl,rfl⟩ | ⟨hd,hr'⟩
        · exact hb hB (hs.balanced d row hc.before)
        · exact (hs.balanced d r hr').congr fun i a => ha.open_iff hd }

/-- A candidate nobody holds moves to another status nobody holds. -/
theorem idle (hrow : s.candidates[c]? = some row) (f : CandidateRow → CandidateRow)
    (hc : s'.candidates = s.candidates.modify c f) (ha : s'.attempts = s.attempts)
    (hv : B.versions → row.Advances (f row)) (hs : B.ledger → row.status ≠ .leased)
    (hs' : (f row).status ≠ .leased) : Posts B s s' := by
  have hch : Changes s.candidates s'.candidates c row (f row) := hc ▸ .modify hrow f
  have hat : AttemptsOf c s.attempts s'.attempts := ha ▸ .refl c _
  refine change hch hat hv fun hB hb => .of_none (fun i a hi => ?_) hs'
  refine hb.none_open (hs hB) i a ?_
  unfold Tables.Open at hi ⊢
  rwa [ha] at hi

/-- A candidate leaves the lease and all its attempts are closed. -/
theorem closing (hrow : s.candidates[c]? = some row) (f : CandidateRow → CandidateRow) (now : Time)
    (status : String) (hc : s'.candidates = s.candidates.modify c f)
    (ha : s'.attempts = (s.closeStaleAttempts c now status).attempts)
    (hv : row.stateVersion < (f row).stateVersion) (hs : (f row).status ≠ .leased) :
    Posts B s s' := by
  have hch : Changes s.candidates s'.candidates c row (f row) := hc ▸ .modify hrow f
  refine change hch ?_ (fun _ => Or.inl hv) fun _ _ => .of_none (fun i a hi => ?_) hs
  · rw [ha]
    refine .map c _ _ (fun a => ?_) fun a hne => if_neg fun h => hne h.1
    split <;> rfl
  · obtain ⟨hi,hid,ho⟩ := hi
    rw [ha] at hi
    obtain ⟨b,_,hb⟩ := Option.map_eq_some_iff.mp ((List.getElem?_map ..).symm.trans hi)
    split at hb
    · rw [← hb] at ho
      cases ho
    · next hn =>
      rw [hb] at hn
      exact hn ⟨hid,ho⟩

variable {claim : CandidateLease} {a a' : AttemptRow}

/-- A claim that holds its candidate ends: the attempt closes, the candidate leaves the lease. -/
theorem ended (hi : Issued s claim) (hf : Fence s claim row a)
    (hc : Changes s.candidates s'.candidates claim.candidateId row row')
    (ha : Changes s.attempts s'.attempts claim.attemptId a a')
    (hcl : a'.candidateId = a.candidateId ∧ a'.completedAt ≠ none)
    (hv : B.versions → row.Advances row') (hs : row'.status ≠ .leased) : Posts B s s' := by
  have howner := (hi.owner hf.attempt).1
  refine change hc (.change ha howner (hcl.1.trans howner)) hv fun _ hb =>
    .of_none (fun j b hj => ?_) hs
  rcases ha.cases hj.1 with ⟨_,rfl⟩ | ⟨hne,hold⟩
  · exact hcl.2 hj.2.2
  · exact hne (hb.one j _ b a ⟨hold,hj.2⟩ ⟨hf.attempt,howner,hf.opened⟩)

/-- A claim that holds its candidate advances both rows by one version. -/
theorem worked (hi : Issued s claim) (hf : Fence s claim row a)
    (hc : Changes s.candidates s'.candidates claim.candidateId row row')
    (ha : Changes s.attempts s'.attempts claim.attemptId a a') (hid : a'.candidateId = a.candidateId)
    (ht : a'.leaseToken = a.leaseToken) (ho : a'.completedAt = a.completedAt)
    (hv : a'.candidateStateVersion = row'.stateVersion) (hlt : row.stateVersion < row'.stateVersion)
    (hs : row'.status = row.status) (htk : row'.leaseToken = row.leaseToken) : Posts B s s' := by
  have howner := (hi.owner hf.attempt).1
  refine change hc (.change ha howner (hid.trans howner)) (fun _ => Or.inl hlt) fun _ hb => ?_
  have hone : ∀ j b, s'.Open claim.candidateId j b → j = claim.attemptId ∧ b = a' := by
    intro j b hj
    rcases ha.cases hj.1 with h | ⟨hne,hold⟩
    · exact h
    · exact absurd (hb.one j _ b a ⟨hold,hj.2⟩ ⟨hf.attempt,howner,hf.opened⟩) hne
  exact
    { one := fun j k b d hj hk => (hone j b hj).1.trans (hone k d hk).1.symm
      leased := ⟨fun _ => hs.trans hf.status,fun _ =>
        ⟨_,_,ha.after,hid.trans howner,ho.trans hf.opened⟩⟩
      agrees := fun j b hj => by
        obtain ⟨rfl,rfl⟩ := hone j b hj
        exact ⟨by rw [htk,hf.token,ht,(hi.owner hf.attempt).2],hv⟩ }

end Posts

namespace Tables

variable {B : Books} {s s' : Tables}

theorem settle_posts (s : Tables) (c : ℕ) (now : Time) (memoryId : Option ℕ)
    (code resolution : Option String) :
    Posts B s (s.settleExplicitObligation c now memoryId code resolution) :=
  .of_eq (settle_candidates ..) (settle_attempts ..)

theorem expireAwaiting_posts (s : Tables) (now : Time) (c : ℕ) (decision : DecisionJson)
    (clear : CandidateRow → CandidateRow) : Posts B s (s.expireAwaiting now c decision clear) := by
  unfold expireAwaiting
  split
  · exact .refl s
  · next row hrow =>
    split
    · exact .refl s
    · next hs =>
      refine .idle hrow _ (settle_candidates ..) (settle_attempts ..)
        (fun _ => Or.inl (Nat.lt_succ_self _)) (fun _ => ?_) ?_
      · rw [not_not.mp hs]
        simp
      · simp

theorem expireObligation_posts (now : Time) (s : Tables) (id : ℕ) :
    Posts B s (expireObligation now s id) := by
  unfold expireObligation
  split
  · exact .refl s
  · have hframe : Posts B s (s.setObligation id fun o => {o with
        status := .resolved
        resolutionCode := some "expired_unconfirmed"
        resolutionJson := {}
        resolvedAt := some now}) := .of_eq rfl rfl
    refine hframe.trans ?_
    dsimp only
    split
    · exact expireAwaiting_posts ..
    · split
      · exact .refl _
      · split
        · exact .refl _
        · refine Posts.trans (.of_eq ?_ ?_) (expireAwaiting_posts _ now _ _ _)
          · rfl
          · rfl
    · exact .refl _

theorem expireRetained_posts {c : ℕ} {row : CandidateRow} (hrow : s.candidates[c]? = some row)
    (hs : row.status = .retainedShortTerm) (now : Time) : Posts B s (expireRetained now s c) := by
  refine .idle hrow _ (settle_candidates ..) (settle_attempts ..)
    (fun _ => Or.inl (Nat.lt_succ_self _)) (fun _ => ?_) ?_
  · rw [hs]
    simp
  · simp

theorem failExhausted_posts {c : ℕ} {row : CandidateRow} (hrow : s.candidates[c]? = some row)
    (now : Time) : Posts B s (failExhausted now s c) := by
  refine .closing hrow _ now "attempt_limit" (settle_candidates ..) (settle_attempts ..)
    (Nat.lt_succ_self _) ?_
  simp

theorem invalidateUnavailable_posts {c : ℕ} {row : CandidateRow}
    (hrow : s.candidates[c]? = some row) (now : Time) :
    Posts B s (s.invalidateUnavailable now c) := by
  refine .closing hrow _ now "evidence_unavailable" (settle_candidates ..) (settle_attempts ..)
    (Nat.lt_succ_self _) ?_
  simp

theorem closeStaleAttempts_none (s : Tables) (c : ℕ) (now : Time) (status : String) (i : ℕ)
    (a : AttemptRow) : ¬(s.closeStaleAttempts c now status).Open c i a := by
  rintro ⟨hi,hid,ho⟩
  obtain ⟨b,_,hb⟩ := Option.map_eq_some_iff.mp ((List.getElem?_map ..).symm.trans hi)
  split at hb
  · rw [← hb] at ho
    cases ho
  · next hn =>
    rw [hb] at hn
    exact hn ⟨hid,ho⟩

theorem closeStaleAttempts_attemptsOf (s : Tables) (c : ℕ) (now : Time) (status : String) :
    AttemptsOf c s.attempts (s.closeStaleAttempts c now status).attempts := by
  refine .map c _ _ (fun a => ?_) fun a hne => if_neg fun h => hne h.1
  split <;> rfl

theorem leaseCandidate_posts (config : LeaseConfig) (now : Time) {c : ℕ} {row : CandidateRow}
    (hrow : s.candidates[c]? = some row) : Posts B s (s.leaseCandidate config now c row).1 := by
  unfold leaseCandidate
  extract_lets s₁ number token attempt s₂
  have hcand : s₁.candidates = s.candidates := by
    dsimp only [s₁]
    split <;> rfl
  have hold : AttemptsOf c s.attempts s₁.attempts := by
    dsimp only [s₁]
    split
    · exact closeStaleAttempts_attemptsOf s c now "lease_expired"
    · exact .refl c s.attempts
  have hnone : Balanced s c row → ∀ i a, ¬s₁.Open c i a := by
    intro hb i a
    dsimp only [s₁]
    split
    · exact closeStaleAttempts_none s c now "lease_expired" i a
    · next hs => exact hb.none_open hs i a
  have hrow₁ : s₁.candidates[c]? = some row := hcand ▸ hrow
  have hch := Changes.modify hrow₁ fun row => {row with
    stateVersion := row.stateVersion + 1
    status := .leased
    leaseToken := some token
    leasedUntil := some (now + config.leaseSeconds)
    attemptCount := row.attemptCount + 1
    reviewAfter := none}
  refine .change ⟨hrow,hch.after,fun j hj => (hch.others j hj).trans (by rw [hcand])⟩
    (hold.trans (.append s₁.attempts rfl))
    (fun _ => Or.inl (Nat.lt_succ_self _)) fun _ hb => ?_
  -- the new attempt is the only open one
  have hone : ∀ i a, (s₁.attempts ++ [attempt])[i]? = some a → a.candidateId = c →
      a.completedAt = none → i = s₁.attempts.length ∧ a = attempt := by
    intro i a hi hid ho
    rw [getElem?_insert] at hi
    split at hi
    · next hl => exact ⟨hl,(Option.some.inj hi).symm⟩
    · exact absurd ⟨hi,hid,ho⟩ (hnone hb i a)
  exact
    { one := fun i j a b ha hb => (hone i a ha.1 ha.2.1 ha.2.2).1.trans
        (hone j b hb.1 hb.2.1 hb.2.2).1.symm
      leased := ⟨fun _ => rfl,fun _ => ⟨s₁.attempts.length,attempt,List.getElem?_concat_length,rfl,rfl⟩⟩
      agrees := fun i a ha => by
        obtain ⟨_,rfl⟩ := hone i a ha.1 ha.2.1 ha.2.2
        exact ⟨rfl,rfl⟩ }

theorem claimRow_posts (config : LeaseConfig) (now : Time) {c : ℕ} (s : Tables) :
    Posts B s (s.claimRow config now c).1 := by
  unfold claimRow
  split
  · exact .refl s
  · next row hrow =>
    split
    · exact leaseCandidate_posts config now hrow
    · exact invalidateUnavailable_posts hrow now

theorem expireDueObligations_posts (s : Tables) (now : Time) (locks : RowLocks) :
    Posts B s (s.expireDueObligations now locks) :=
  Trace.foldl_rel .refl .trans _ (fun t id => expireObligation_posts now t id) s

theorem expireRetained_phase_posts (s : Tables) (now : Time) (locks : RowLocks) :
    Posts B s ((s.expiredRows now locks).foldl (expireRetained now) s) := by
  refine Trace.foldl_keyed (k := fun id => id) (g := fun t c => t.candidates[c]?)
    (Q := fun _ o => ∃ row, o = some row ∧ row.status = .retainedShortTerm) .refl .trans _ ?_ ?_ ?_ ?_
  · rw [List.map_id']
    exact (nodup_ids _ s.candidates).filter _
  · rintro t c _ ⟨row,hrow,hs⟩
    exact expireRetained_posts hrow hs now
  · exact fun t c _ j hj => setCandidate_settle_frame t c _ now none _ _ hj
  · intro c hc
    obtain ⟨row,hrow,hp⟩ := mem_ids.mp (List.mem_filter.mp hc).1
    simp only [Bool.and_eq_true,beq_iff_eq] at hp
    exact ⟨row,hrow,hp.1⟩

theorem failExhausted_phase_posts (s : Tables) (config : LeaseConfig) (now : Time)
    (locks : RowLocks) : Posts B s ((s.exhaustedRows config now locks).foldl (failExhausted now) s) := by
  refine Trace.foldl_keyed (k := fun id => id) (g := fun t c => t.candidates[c]?)
    (Q := fun _ o => ∃ row, o = some row) .refl .trans _ ?_ ?_ ?_ ?_
  · rw [List.map_id']
    exact (nodup_ids _ s.candidates).filter _
  · rintro t c _ ⟨row,hrow⟩
    exact failExhausted_posts hrow now
  · exact fun t c _ j hj => setCandidate_settle_frame _ c _ now none _ _ hj
  · intro c hc
    obtain ⟨row,hrow,_⟩ := mem_ids.mp (List.mem_filter.mp hc).1
    exact ⟨row,hrow⟩

theorem claimBatch_posts (s : Tables) (config : LeaseConfig) (limit : ℕ) (locks : RowLocks)
    (now : Time) : Posts B s (s.claimBatch config limit locks now).1 := by
  refine (((expireDueObligations_posts s now locks).trans (expireRetained_phase_posts _ now locks)
    ).trans (failExhausted_phase_posts _ config.clamped now locks)).trans ?_
  rw [claimBatch_fst,claimRows_fst]
  exact Trace.foldl_rel .refl .trans _ (fun t c => claimRow_posts config.clamped now t) _

section

variable {claim : CandidateLease} {row : CandidateRow} {a : AttemptRow}

theorem advancing_posts {f : AttemptRow → AttemptRow} (hi : Issued s claim)
    (hf : Fence s claim row a) (h : s.advancing claim row a f = .ok s')
    (hcl : ∀ a, (f a).candidateId = a.candidateId ∧ (f a).leaseToken = a.leaseToken ∧
      (f a).completedAt = a.completedAt ∧ (f a).candidateStateVersion = a.candidateStateVersion) :
    Posts B s s' := by
  cases advancing_eq h
  have hb := hcl {a with candidateStateVersion := row.stateVersion + 1}
  exact .worked hi hf (.modify hf.candidate _) (.modify_twice hf.attempt _ _) hb.1 hb.2.1 hb.2.2.1
    hb.2.2.2 (Nat.lt_succ_self _) rfl rfl

theorem persistReading_posts {snapshot : EvaluationSnapshot} {reading : IndependentReading}
    {model : Option String} {now : Time} {id : ℕ} (hi : Issued s claim)
    (h : s.persistReading claim snapshot reading model now = .ok (s',id)) : Posts B s s' := by
  obtain ⟨⟨row,a⟩,hl,h⟩ := bind_ok h
  dsimp only at h
  split at h
  · cases h
    exact .refl s
  · obtain ⟨s₁,hs,h⟩ := bind_ok h
    cases h
    exact (advancing_posts hi (lockedLiveClaim_fence hl) hs fun _ => ⟨rfl,rfl,rfl,rfl⟩).trans
      (.of_eq rfl rfl)

theorem persistComparison_posts {readingId : ℕ} {comparison : ComparisonVerdict} {now : Time}
    {id : ℕ} (hi : Issued s claim)
    (h : s.persistComparison claim readingId comparison now = .ok (s',id)) : Posts B s s' := by
  obtain ⟨⟨row,a⟩,hl,h⟩ := bind_ok h
  dsimp only at h
  split at h
  · cases h
  · split at h
    · cases h
      exact .refl s
    · obtain ⟨s₁,hs,h⟩ := bind_ok h
      cases h
      exact (advancing_posts hi (lockedLiveClaim_fence hl) hs fun _ => ⟨rfl,rfl,rfl,rfl⟩).trans
        (.of_eq rfl rfl)

theorem persistReconciliation_posts {comparisonId : ℕ} {snapshot : EvaluationSnapshot}
    {relation : MemoryRelationDecision} {now : Time} {id : ℕ} (hi : Issued s claim)
    (h : s.persistReconciliation claim comparisonId snapshot relation now = .ok (s',id)) :
    Posts B s s' := by
  obtain ⟨⟨row,a⟩,hl,h⟩ := bind_ok h
  dsimp only at h
  split at h
  · cases h
  · obtain ⟨s₁,hs,h⟩ := bind_ok h
    cases h
    exact (advancing_posts hi (lockedLiveClaim_fence hl) hs fun _ => ⟨rfl,rfl,rfl,rfl⟩).trans
      (.of_eq rfl rfl)

theorem persistPolicy_posts {recordId : ℕ} {policy : String} {reason : Option String} {now : Time}
    {id : ℕ} (hi : Issued s claim) (h : s.persistPolicy claim recordId policy reason now = .ok (s',id)) :
    Posts B s s' := by
  obtain ⟨⟨row,a⟩,hl,h⟩ := bind_ok h
  dsimp only at h
  split at h
  · cases h
    exact .refl s
  · obtain ⟨s₁,hs,h⟩ := bind_ok h
    cases h
    exact (advancing_posts hi (lockedLiveClaim_fence hl) hs fun _ => ⟨rfl,rfl,rfl,rfl⟩).trans
      (.of_eq rfl rfl)

theorem finish_posts {status : CandidateStatus} {decision code : String} {semantic : Option String}
    {now : Time} {u : Unit} (hi : Issued s claim)
    (h : s.finish claim status decision code semantic now = .ok (s',u)) (hs : status ≠ .leased) :
    Posts B s s' := by
  obtain ⟨⟨row,a⟩,hl,h⟩ := bind_ok h
  dsimp only at h
  obtain ⟨s₁,hadv,h⟩ := bind_ok h
  have hf := lockedLiveClaim_fence hl
  cases advancing_eq hadv
  cases h
  refine Posts.trans ?_ (settle_posts _ claim.candidateId now none _ none)
  exact .ended hi hf (.modify_twice hf.candidate _ _) (.modify_twice hf.attempt _ _)
    ⟨rfl,Option.some_ne_none now⟩ (fun _ => Or.inl (Nat.lt_succ_self _)) hs

theorem requeueAfterVersionConflict_posts (snapshot : EvaluationSnapshot) (now : Time)
    (hi : Issued s claim) : Posts B s (s.requeueAfterVersionConflict claim snapshot now) := by
  unfold requeueAfterVersionConflict
  split
  · next row a hc ha =>
    split
    · exact .refl s
    · next hp =>
      exact .ended hi (holdsClaim_fence hc ha (by simpa using hp)) (.modify hc _) (.modify ha _)
        ⟨rfl,Option.some_ne_none now⟩ (fun _ => Or.inl (Nat.lt_succ_self _)) nofun
  · exact .refl s

theorem requeueOrFail_idle (row : CandidateRow) (maxAttempts : ℕ) (now : Time)
    (code : Option String) :
    (CandidateRow.requeueOrFail row maxAttempts now code).status ≠ .leased ∧
      (CandidateRow.requeueOrFail row maxAttempts now code).stateVersion = row.stateVersion := by
  unfold CandidateRow.requeueOrFail
  dsimp only
  split <;> exact ⟨nofun,rfl⟩

theorem settleIfFailed_posts (s : Tables) (c : ℕ) (row : CandidateRow) (now : Time)
    (code : Option String) : Posts B s (s.settleIfFailed c row now code) := by
  unfold settleIfFailed
  split
  · exact settle_posts ..
  · exact .refl s

theorem releaseAfterConflict_posts (maxAttempts : ℕ) (code : String) (now : Time)
    (hi : Issued s claim) : Posts B s (s.releaseAfterConflict maxAttempts claim code now) := by
  unfold releaseAfterConflict
  split
  · next row a hc ha =>
    split
    · exact .refl s
    · next hh =>
      have hidle := requeueOrFail_idle {row with stateVersion := row.stateVersion + 1} maxAttempts now
        none
      refine Posts.trans ?_ (settleIfFailed_posts _ claim.candidateId _ now none)
      refine .ended hi (holdsClaim_fence hc ha (by simpa using hh)) (.modify hc _) (.modify ha _)
        ⟨rfl,Option.some_ne_none now⟩ (fun _ => Or.inl ?_) hidle.1
      rw [hidle.2]
      exact Nat.lt_succ_self _
  · exact .refl s

theorem releaseFailed_posts (maxAttempts : ℕ) (code : String) (now : Time) (hi : Issued s claim) :
    Posts B s (releaseFailed s s maxAttempts claim code now) := by
  unfold releaseFailed
  split
  · next row a hc ha =>
    split
    · exact .refl s
    · next hh =>
      have hrow := Changes.modify hc fun r => row.flush (CandidateRow.requeueOrFail
        {row with stateVersion := row.stateVersion + 1} maxAttempts now (some code)) r
      have hatt := Changes.modify ha fun r =>
        a.flush (releasedAttempt a "failed" (some code) (some code) now) r
      rw [flush_requeueOrFail] at hrow
      rw [flush_releasedAttempt] at hatt
      have hidle := requeueOrFail_idle {row with stateVersion := row.stateVersion + 1} maxAttempts now
        (some code)
      refine Posts.trans ?_ (settleIfFailed_posts _ claim.candidateId _ now (some code))
      refine .ended hi (holdsClaim_fence hc ha (by simpa using hh)) hrow hatt
        ⟨rfl,Option.some_ne_none now⟩ (fun _ => Or.inl ?_) hidle.1
      rw [hidle.2]
      exact Nat.lt_succ_self _
  · exact .refl s

theorem publishAndSettle_posts [PyRuntime] {config : PublisherConfig} {snapshot : EvaluationSnapshot}
    {decision : ReconciliationDecision} {operationId : OperationId} {now : Time} {pub : Published}
    (hs : Sound s) (hi : Issued s claim)
    (h : s.publishAndSettle config claim snapshot decision operationId now = .ok (s',pub))
    (hl : B.ledger → ∀ row a, Fence s claim row a → row.leasedUntil.any (now < ·) = true)
    (hv : B.versions → ∀ row a, Fence s claim row a → row.leasedUntil.any (now < ·) = true →
      s.evidenceLive claim.candidateId row = true) : Posts B s s' := by
  rcases publishAndSettle_ending hs hi h with rfl | ⟨row,a,hf,⟨hexp,attempts,rfl⟩ | ⟨hlive,row',a',he⟩⟩
  · exact .refl _
  · refine ⟨fun _ => .refl s,fun hB _ => ?_⟩
    rw [hl hB row a hf] at hexp
    cases hexp
  · refine .ended hi hf he.candidate he.attempt ⟨he.owner,he.closed⟩ (fun hB => ?_) ?_
    · rcases he.outcome with ⟨_,hver⟩ | ⟨_,hdead⟩
      · exact Or.inl (by omega)
      · rw [hv hB row a hf hlive] at hdead
        cases hdead
    · rcases he.outcome with ⟨hpub,_⟩ | ⟨hst,_⟩
      · intro hl
        rw [hl] at hpub
        cases hpub
      · rw [hst]
        nofun

end

end Tables

end Memory
end Atlas
