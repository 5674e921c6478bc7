import Atlas.Memory.Invariants

/-! The fence of a claim over runs: an open attempt at its candidate's version holds the
lease, and a claim that lost the fence never gets it back. -/
namespace Atlas
namespace Memory

open RowTable

variable {P : Policy} {s s' : Tables}

/-- Attempts and leases agree. -/
structure Versioned (s : Tables) : Prop where
  owned : ∀ (i : ℕ) (a : AttemptRow), s.attempts[i]? = some a →
    (s.candidates[a.candidateId]?).isSome = true
  opened : ∀ (i : ℕ) (a : AttemptRow) (row : CandidateRow), s.attempts[i]? = some a →
    s.candidates[a.candidateId]? = some row → a.completedAt = none →
    a.candidateStateVersion ≤ row.stateVersion ∧ (a.candidateStateVersion = row.stateVersion →
      row.status = .leased ∧ row.leaseToken = some a.leaseToken)
  issued : ∀ (i : ℕ) (a : AttemptRow), s.attempts[i]? = some a → a.leaseToken < s.nextToken
  distinct : ∀ (i j : ℕ) (a b : AttemptRow), s.attempts[i]? = some a → s.attempts[j]? = some b →
    a.leaseToken = b.leaseToken → i = j
  leased : ∀ (c : ℕ) (row : CandidateRow), s.candidates[c]? = some row → row.status = .leased →
    row.invalidatedAt = none

/-- What a change of attempts keeps whatever happens to the candidates. -/
structure Tokens (s s' : Tables) : Prop where
  source : ∀ (i : ℕ) (a' : AttemptRow), s'.attempts[i]? = some a' →
    (∃ a, s.attempts[i]? = some a ∧ a'.candidateId = a.candidateId ∧ a'.leaseToken = a.leaseToken) ∨
      i = s.attempts.length ∧ a'.leaseToken = s.nextToken
  nextToken : s.nextToken ≤ s'.nextToken
  fresh : ∀ (i : ℕ) (a' : AttemptRow), s'.attempts[i]? = some a' → i = s.attempts.length →
    s'.nextToken = s.nextToken + 1

theorem Tokens.of_kept (h : AttemptsKept s.attempts s'.attempts) (hn : s'.nextToken = s.nextToken) :
    Tokens s s' where
  source i a' ha := by
    obtain ⟨a,ha,hc,ht,_⟩ := h.source ha
    exact Or.inl ⟨a,ha,hc,ht⟩
  nextToken := hn.ge
  fresh i a' ha hi := by
    have := (List.getElem?_eq_some_iff.mp ha).1
    rw [h.length] at this
    omega

theorem Tokens.of_changes {i : ℕ} {a a' : AttemptRow} (h : Changes s.attempts s'.attempts i a a')
    (hc : a'.candidateId = a.candidateId) (ht : a'.leaseToken = a.leaseToken)
    (hn : s'.nextToken = s.nextToken) : Tokens s s' := by
  have hsource : ∀ (j : ℕ) (x : AttemptRow), s'.attempts[j]? = some x → ∃ y, s.attempts[j]? = some y ∧
      x.candidateId = y.candidateId ∧ x.leaseToken = y.leaseToken := by
    intro j x hx
    rcases h.cases hx with ⟨rfl,rfl⟩ | ⟨_,ho⟩
    · exact ⟨a,h.before,hc,ht⟩
    · exact ⟨x,ho,rfl,rfl⟩
  refine ⟨fun j x hx => Or.inl (hsource j x hx),hn.ge,fun j x hx hj => ?_⟩
  obtain ⟨y,hy,_⟩ := hsource j x hx
  rw [hj,List.getElem?_eq_none le_rfl] at hy
  cases hy

theorem AttemptEffect.tokens {c : ℕ} {row row' : CandidateRow} (h : AttemptEffect c row row' s s') :
    Tokens s s' := by
  cases h with
  | bump _ hk hn => exact .of_kept hk hn
  | still _ _ hk hn => exact .of_kept hk hn
  | work i a a' hc _ hid ht _ _ _ _ _ _ hn => exact .of_changes hc hid ht hn
  | close i a a' hc _ hid ht _ _ _ _ hn => exact .of_changes hc hid ht hn
  | lease a ha _ ht _ _ _ _ hn =>
    refine ⟨fun i x hx => ?_,by omega,fun _ _ _ _ => hn⟩
    rw [ha,getElem?_insert] at hx
    split at hx
    · next hi =>
      cases hx
      exact Or.inr ⟨hi,ht⟩
    · exact Or.inl ⟨x,hx,rfl,rfl⟩

theorem Micro.tokens (h : Micro P s s') : Tokens s s' := by
  cases h with
  | frame h => exact .of_kept h.attempts h.nextToken
  | write c r r' h => exact h.attempts.tokens
  | confirm c r r' e h => exact .of_kept (h.attempts ▸ .refl _) h.nextToken
  | enqueue r rows h => exact .of_kept (h.attempts ▸ .refl _) h.nextToken
  | attach c h => exact .of_kept (h.attempts ▸ .refl _) h.nextToken
  | erase chatId now h => exact .of_kept (h.attempts ▸ .refl _) h.nextToken

/-- What an elementary change does to the open attempts of one candidate. -/
inductive Standing (c : ℕ) (row row' : CandidateRow) (s s' : Tables) : Prop
  | same : row' = row → (∀ (i : ℕ) (a' : AttemptRow), s'.attempts[i]? = some a' →
      a'.candidateId = c → a'.completedAt = none → ∃ a, s.attempts[i]? = some a ∧
        a.candidateId = c ∧ a.completedAt = none ∧ a'.leaseToken = a.leaseToken ∧
        a'.candidateStateVersion = a.candidateStateVersion) → Standing c row row' s s'
  | effect : AttemptEffect c row row' s s' → Standing c row row' s s'

theorem Standing.of_kept {c : ℕ} {row : CandidateRow} (h : AttemptsKept s.attempts s'.attempts) :
    Standing c row row s s' := by
  refine .same rfl fun i a' ha' hc ho => ?_
  obtain ⟨a,ha,hid,ht,hopen⟩ := h.source ha'
  exact ⟨a,ha,hid ▸ hc,(hopen ho).1,ht,(hopen ho).2⟩

theorem AttemptEffect.other {c d : ℕ} {r r' row : CandidateRow} (h : AttemptEffect d r r' s s')
    (hcd : c ≠ d) : Standing c row row s s' := by
  have hchange : ∀ {i : ℕ} {a a' : AttemptRow}, Changes s.attempts s'.attempts i a a' →
      a.candidateId = d → a'.candidateId = a.candidateId → Standing c row row s s' := by
    intro i a a' hc hd hid
    refine .same rfl fun j x hx hxc ho => ?_
    rcases hc.cases hx with ⟨_,rfl⟩ | ⟨_,hold⟩
    · exact absurd (hxc.symm.trans (hid.trans hd)) hcd
    · exact ⟨x,hold,hxc,ho,rfl,rfl⟩
  cases h with
  | bump _ hk _ => exact .of_kept hk
  | still _ _ hk _ => exact .of_kept hk
  | work i a a' hc hd hid => exact hchange hc hd hid
  | close i a a' hc hd hid => exact hchange hc hd hid
  | lease a ha hd =>
    refine .same rfl fun j x hx hxc ho => ?_
    rw [ha,getElem?_insert] at hx
    split at hx
    · cases hx
      exact absurd (hxc.symm.trans hd) hcd
    · exact ⟨x,hx,hxc,ho,rfl,rfl⟩

/-- Every row an elementary change leaves for a candidate that was there. -/
theorem Micro.standing (h : Micro P s s') {c : ℕ} {row row' : CandidateRow}
    (hrow : s.candidates[c]? = some row) (hrow' : s'.candidates[c]? = some row') :
    Standing c row row' s s' := by
  have hsame : s'.candidates = s.candidates → AttemptsKept s.attempts s'.attempts →
      Standing c row row' s s' := by
    intro hc hk
    cases Option.some.inj (hrow'.symm.trans (hc ▸ hrow))
    exact .of_kept hk
  cases h with
  | frame h => exact hsame h.candidates h.attempts
  | write d r r' h =>
    rcases h.change.cases hrow' with ⟨rfl,rfl⟩ | ⟨hne,ho⟩
    · cases Option.some.inj (hrow.symm.trans h.change.before)
      exact .effect h.attempts
    · cases Option.some.inj (hrow.symm.trans ho)
      exact h.attempts.other hne
  | confirm d r r' e h =>
    rcases h.change.cases hrow' with ⟨rfl,rfl⟩ | ⟨_,ho⟩
    · cases Option.some.inj (hrow.symm.trans h.change.before)
      exact .effect (.bump h.version (h.attempts ▸ .refl _) h.nextToken)
    · cases Option.some.inj (hrow.symm.trans ho)
      exact .of_kept (h.attempts ▸ .refl _)
  | enqueue r rows h =>
    rw [h.candidates,getElem?_insert_of_some hrow] at hrow'
    cases hrow'
    exact .of_kept (h.attempts ▸ .refl _)
  | attach d h => exact hsame h.candidates (h.attempts ▸ .refl _)
  | erase chatId now h =>
    rw [h.candidates,List.getElem?_map,hrow] at hrow'
    simp only [Option.map_some,Option.some.injEq] at hrow'
    split at hrow'
    · rw [← hrow']
      exact .effect (.bump (Nat.lt_succ_self _) (h.attempts ▸ .refl _) h.nextToken)
    · rw [← hrow']
      exact .of_kept (h.attempts ▸ .refl _)

/-- Open attempts afterwards are not ahead of the candidate; one at its version holds the lease,
and it held it before or is new. -/
theorem Versioned.effect (h : Versioned s) {c : ℕ} {row row' : CandidateRow}
    (hrow : s.candidates[c]? = some row) (he : AttemptEffect c row row' s s') {i : ℕ}
    {a' : AttemptRow} (ha' : s'.attempts[i]? = some a') (hc : a'.candidateId = c)
    (ho : a'.completedAt = none) : a'.candidateStateVersion ≤ row'.stateVersion ∧
      (a'.candidateStateVersion = row'.stateVersion → row'.status = .leased ∧
        row'.leaseToken = some a'.leaseToken ∧ (i = s.attempts.length ∨ ∃ a,
          s.attempts[i]? = some a ∧ a.candidateId = c ∧ a.completedAt = none ∧
          a.candidateStateVersion = row.stateVersion ∧ a'.leaseToken = a.leaseToken)) := by
  -- an attempt that was open at an earlier version stays behind
  have hbehind : ∀ a, s.attempts[i]? = some a → a.candidateId = c → a.completedAt = none →
      a'.candidateStateVersion = a.candidateStateVersion → row.stateVersion < row'.stateVersion →
      a'.candidateStateVersion < row'.stateVersion := by
    intro a ha hac hao hv hlt
    subst hac
    have := (h.opened i a row ha hrow hao).1
    omega
  cases he with
  | bump hlt hk _ =>
    obtain ⟨a,ha,hid,_,hopen⟩ := hk.source ha'
    have := hbehind a ha (hid ▸ hc) (hopen ho).1 (hopen ho).2 hlt
    exact ⟨this.le,fun he => absurd he this.ne⟩
  | still hv hs hk _ =>
    obtain ⟨a,ha,hid,_,hopen⟩ := hk.source ha'
    have hac : a.candidateId = c := hid ▸ hc
    subst hac
    have hle := h.opened i a row ha hrow (hopen ho).1
    refine ⟨by rw [(hopen ho).2,hv]; exact hle.1,fun he => ?_⟩
    rw [(hopen ho).2,hv] at he
    have hl := (hle.2 he).1
    rcases hs with hs | hs
    · exact absurd hl hs
    · exact absurd (h.leased _ row hrow hl) hs
  | work j a b hch hac _ htok hao hav hbv hlt hst htk _ =>
    rcases hch.cases ha' with ⟨rfl,rfl⟩ | ⟨_,hold⟩
    · subst hac
      have hl := (h.opened i a row hch.before hrow hao).2 hav
      refine ⟨hbv.le,fun _ => ⟨hst.trans hl.1,?_,Or.inr ⟨a,hch.before,rfl,hao,hav,htok⟩⟩⟩
      rw [htk,hl.2,htok]
    · have := hbehind a' hold hc ho rfl hlt
      exact ⟨this.le,fun he => absurd he this.ne⟩
  | close j a b hch hac _ _ hao hbc hav hle _ =>
    rcases hch.cases ha' with ⟨rfl,rfl⟩ | ⟨hne,hold⟩
    · exact absurd ho hbc
    · subst hac
      have hopen := h.opened i a' row hold (hc ▸ hrow) ho
      refine ⟨hopen.1.trans hle,fun he => ?_⟩
      have heq : a'.candidateStateVersion = row.stateVersion := le_antisymm hopen.1 (he ▸ hle)
      have ha := (h.opened j a row hch.before hrow hao).2 hav
      have hb := (hopen.2 heq).2
      rw [ha.2] at hb
      exact absurd (h.distinct j i a a' hch.before hold (Option.some.inj hb)).symm hne
  | lease a ha hac htok hav hlt hst htk _ =>
    rw [ha,getElem?_insert] at ha'
    split at ha'
    · next hi =>
      cases ha'
      exact ⟨hav.le,fun _ => ⟨hst,by rw [htk,htok],Or.inl hi⟩⟩
    · have := hbehind a' ha' hc ho rfl hlt
      exact ⟨this.le,fun he => absurd he this.ne⟩

/-- Rows that an elementary change leaves leased are not invalidated. -/
theorem Versioned.leased_micro (h : Versioned s) (hm : Micro P s s') {c : ℕ} {row' : CandidateRow}
    (hrow' : s'.candidates[c]? = some row') (hl : row'.status = .leased) :
    row'.invalidatedAt = none := by
  cases hm with
  | frame hm => exact h.leased c row' (hm.candidates ▸ hrow') hl
  | write d r r' hm =>
    rcases hm.change.cases hrow' with ⟨rfl,rfl⟩ | ⟨_,ho⟩
    · by_contra hi
      have hr : r.invalidatedAt ≠ none := by
        rcases hm.columns.stamp hi with hr | hs
        · exact hr
        · rw [hl] at hs
          cases hs
      rcases hm.columns.leased hl with hs | hn
      · exact hr (h.leased _ r hm.change.before hs)
      · exact hr hn
    · exact h.leased c row' ho hl
  | confirm d r r' e hm =>
    rcases hm.change.cases hrow' with ⟨rfl,rfl⟩ | ⟨_,ho⟩
    · rw [hm.status] at hl
      cases hl
    · exact h.leased c row' ho hl
  | enqueue r rows hm =>
    rw [hm.candidates,getElem?_insert] at hrow'
    split at hrow'
    · cases hrow'
      exact hm.invalidatedAt
    · exact h.leased c row' hrow' hl
  | attach d hm => exact h.leased c row' (hm.candidates ▸ hrow') hl
  | erase chatId now hm =>
    rw [hm.candidates,List.getElem?_map] at hrow'
    obtain ⟨r,hr,hrr⟩ := Option.map_eq_some_iff.mp hrow'
    split at hrr
    · rw [← hrr] at hl
      cases hl
    · exact hrr ▸ h.leased c r hr (hrr ▸ hl)

theorem AttemptEffect.kept {c : ℕ} {row row' : CandidateRow} (h : AttemptEffect c row row' s s')
    {i : ℕ} {a : AttemptRow} (ha : s.attempts[i]? = some a) : ∃ a', s'.attempts[i]? = some a' ∧
      a'.candidateId = a.candidateId ∧ a'.leaseToken = a.leaseToken := by
  have hkept : AttemptsKept s.attempts s'.attempts → ∃ a', s'.attempts[i]? = some a' ∧
      a'.candidateId = a.candidateId ∧ a'.leaseToken = a.leaseToken := by
    intro hk
    obtain ⟨a',ha',hc,ht,_⟩ := hk.row i a ha
    exact ⟨a',ha',hc,ht⟩
  have hchange : ∀ {j : ℕ} {b b' : AttemptRow}, Changes s.attempts s'.attempts j b b' →
      b'.candidateId = b.candidateId → b'.leaseToken = b.leaseToken → ∃ a',
      s'.attempts[i]? = some a' ∧ a'.candidateId = a.candidateId ∧ a'.leaseToken = a.leaseToken := by
    intro j b b' hc hid ht
    by_cases hi : i = j
    · subst hi
      cases Option.some.inj (ha.symm.trans hc.before)
      exact ⟨b',hc.after,hid,ht⟩
    · exact ⟨a,(hc.others i hi).trans ha,rfl,rfl⟩
  cases h with
  | bump _ hk _ => exact hkept hk
  | still _ _ hk _ => exact hkept hk
  | work j b b' hc _ hid ht => exact hchange hc hid ht
  | close j b b' hc _ hid ht => exact hchange hc hid ht
  | lease b hb => exact ⟨a,by rw [hb]; exact getElem?_insert_of_some ha,rfl,rfl⟩

/-- Attempts are never removed and keep the claim they were made for. -/
theorem Micro.attempt (h : Micro P s s') {i : ℕ} {a : AttemptRow} (ha : s.attempts[i]? = some a) :
    ∃ a', s'.attempts[i]? = some a' ∧ a'.candidateId = a.candidateId ∧
      a'.leaseToken = a.leaseToken := by
  cases h with
  | frame h =>
    obtain ⟨a',ha',hc,ht,_⟩ := h.attempts.row i a ha
    exact ⟨a',ha',hc,ht⟩
  | write c r r' h => exact h.attempts.kept ha
  | confirm c r r' e h => exact ⟨a,h.attempts ▸ ha,rfl,rfl⟩
  | enqueue r rows h => exact ⟨a,h.attempts ▸ ha,rfl,rfl⟩
  | attach c h => exact ⟨a,h.attempts ▸ ha,rfl,rfl⟩
  | erase chatId now h => exact ⟨a,h.attempts ▸ ha,rfl,rfl⟩

theorem Issued.micro {claim : CandidateLease} (h : Issued s claim) (hm : Micro P s s') :
    Issued s' claim := by
  obtain ⟨a,ha,hc,ht⟩ := h
  obtain ⟨a',ha',hc',ht'⟩ := hm.attempt ha
  exact ⟨a',ha',hc'.trans hc,ht'.trans ht⟩

/-- The candidate of an attempt in the later store exists in it. -/
theorem Versioned.owned_micro (h : Versioned s) (hm : Micro P s s') {i : ℕ} {a' : AttemptRow}
    (ha' : s'.attempts[i]? = some a') : (s'.candidates[a'.candidateId]?).isSome = true := by
  rcases hm.tokens.source i a' ha' with ⟨a,ha,hc,_⟩ | ⟨hi,_⟩
  · rw [hc]
    exact hm.candidate_isSome (h.owned i a ha)
  · have hnone : s.attempts[i]? = none := by
      rw [hi]
      exact List.getElem?_eq_none le_rfl
    have hold : s'.attempts = s.attempts → False := fun he => by
      rw [he,hnone] at ha'
      cases ha'
    cases hm with
    | frame hm =>
      obtain ⟨a,ha,_⟩ := hm.attempts.source ha'
      rw [hnone] at ha
      cases ha
    | write c r r' hm =>
      have hkept : AttemptsKept s.attempts s'.attempts → False := fun hk => by
        obtain ⟨a,ha,_⟩ := hk.source ha'
        rw [hnone] at ha
        cases ha
      have hchange : ∀ {j : ℕ} {b b' : AttemptRow}, Changes s.attempts s'.attempts j b b' → False :=
        fun hc => by
          have hsome := hc.isSome i
          rw [ha',hnone] at hsome
          cases hsome
      cases hm.attempts with
      | bump _ hk _ => exact (hkept hk).elim
      | still _ _ hk _ => exact (hkept hk).elim
      | work j b b' hc => exact (hchange hc).elim
      | close j b b' hc => exact (hchange hc).elim
      | lease b hb hbc =>
        rw [hb,hi,List.getElem?_concat_length] at ha'
        cases ha'
        rw [hbc,hm.change.after]
        rfl
    | confirm c r r' e hm => exact (hold hm.attempts).elim
    | enqueue r rows hm => exact (hold hm.attempts).elim
    | attach c hm => exact (hold hm.attempts).elim
    | erase chatId now hm => exact (hold hm.attempts).elim

/-- The candidate of an attempt with a row afterwards had one before. -/
theorem Versioned.row_before (h : Versioned s) (hm : Micro P s s') {i : ℕ} {a' : AttemptRow}
    {row' : CandidateRow} (ha' : s'.attempts[i]? = some a')
    (hrow' : s'.candidates[a'.candidateId]? = some row') :
    ∃ row, s.candidates[a'.candidateId]? = some row := by
  rcases hm.source hrow' with hrow | ⟨hnone,rows,hn⟩
  · exact hrow
  · have hsome := h.owned i a' (hn.attempts ▸ ha')
    rw [hnone] at hsome
    cases hsome

theorem Versioned.micro (h : Versioned s) (hm : Micro P s s') : Versioned s' where
  owned i a' ha' := h.owned_micro hm ha'
  opened i a' row' ha' hrow' ho := by
    obtain ⟨row,hrow⟩ := h.row_before hm ha' hrow'
    cases hm.standing hrow hrow' with
    | same he hs =>
      obtain ⟨a,ha,hc,hopen,ht,hv⟩ := hs i a' ha' rfl ho
      rw [he,hv,ht]
      exact h.opened i a row ha (hc ▸ hrow) hopen
    | effect he =>
      have hle := h.effect hrow he ha' rfl ho
      exact ⟨hle.1,fun hv => ⟨(hle.2 hv).1,(hle.2 hv).2.1⟩⟩
  issued i a' ha' := by
    rcases hm.tokens.source i a' ha' with ⟨a,ha,_,ht⟩ | ⟨hi,ht⟩
    · rw [ht]
      exact (h.issued i a ha).trans_le hm.tokens.nextToken
    · have := hm.tokens.fresh i a' ha' hi
      omega
  distinct i j a' b' ha' hb' ht := by
    rcases hm.tokens.source i a' ha' with ⟨a,ha,_,hta⟩ | ⟨hi,hta⟩ <;>
      rcases hm.tokens.source j b' hb' with ⟨b,hb,_,htb⟩ | ⟨hj,htb⟩
    · exact h.distinct i j a b ha hb (hta ▸ htb ▸ ht)
    · have := h.issued i a ha
      omega
    · have := h.issued j b hb
      omega
    · exact hi.trans hj.symm
  leased c row' hrow' hl := h.leased_micro hm hrow' hl

/-- The claim still holds its candidate. -/
def Live (s : Tables) (claim : CandidateLease) : Prop := ∃ row a, Fence s claim row a

/-- A claim that holds its candidate after an elementary change held it before. -/
theorem Live.of_micro {claim : CandidateLease} (h : Live s' claim) (hv : Versioned s)
    (hi : Issued s claim) (hm : Micro P s s') : Live s claim := by
  obtain ⟨row',a',hf⟩ := h
  have hi' := hi.micro hm
  obtain ⟨a₀,ha₀,hc₀,ht₀⟩ := hi
  obtain ⟨row,hrow⟩ := Option.isSome_iff_exists.mp (hv.owned _ a₀ ha₀)
  rw [hc₀] at hrow
  have hc' : a'.candidateId = claim.candidateId := (hi'.owner hf.attempt).1
  cases hm.standing hrow hf.candidate with
  | same he hs =>
    obtain ⟨a,ha,_,hopen,_,hver⟩ := hs _ a' hf.attempt hc' hf.opened
    subst he
    exact ⟨row',a,hrow,ha,hf.status,hf.token,hopen,hf.version.trans hver⟩
  | effect he =>
    rcases ((hv.effect hrow he hf.attempt hc' hf.opened).2 hf.version.symm).2.2 with
      hnew | ⟨a,ha,hac,hopen,hver,_⟩
    · rw [hnew,List.getElem?_eq_none le_rfl] at ha₀
      cases ha₀
    · have ht : a.leaseToken = claim.leaseToken := Option.some.inj (ha.symm.trans ha₀) ▸ ht₀
      obtain ⟨hst,htk⟩ := (hv.opened _ a row ha (hac ▸ hrow) hopen).2 hver
      exact ⟨row,a,hrow,ha,hst,ht ▸ htk,hopen,hver.symm⟩

theorem Live.of_chain {claim : CandidateLease} (h : Live s' claim) (hv : Versioned s)
    (hi : Issued s claim) (hc : Chain P s s') : Live s claim := by
  induction hc using Relation.ReflTransGen.head_induction_on with
  | refl => exact h
  | head hm _ ih => exact (ih (hv.micro hm) (hi.micro hm)).of_micro hv hi hm

end Memory
end Atlas
