import Mathlib.Data.List.TakeDrop
import Atlas.Memory.Reconcilable

/-! The index on reconcilable evidence: proposals meet the candidate of their evidence set, a
confirmation makes a set that no candidate had, and only the owner's retry brings a candidate back
without looking for one that has its set by now. -/
namespace Atlas
namespace Memory

open RowTable

/-- A row that is reconcilable now leaves evidence unique if no other such row has its digest. -/
theorem UniqueEvidence.change {t t' : List CandidateRow} (hu : UniqueEvidence t) {c : ℕ}
    {row row' : CandidateRow} (hw : Changes t t' c row row') (hr : row'.status.reconcilable = true) :
    UniqueEvidence t' ↔ ∀ (j : ℕ) (b : CandidateRow) (hash : String), j ≠ c → t[j]? = some b →
      b.status.reconcilable = true → b.evidenceSetHash = some hash →
      row'.evidenceSetHash ≠ some hash := by
  constructor
  · intro h j b hash hj hb hbr hbh hh
    exact hj (h j c b row' hash ((hw.others j hj).trans hb) hw.after hbr hr hbh hh)
  · intro h i j a b hash hi hj ha hb hah hbh
    rcases hw.cases hi with ⟨rfl,rfl⟩ | ⟨hic,hi⟩
    · rcases hw.cases hj with ⟨rfl,rfl⟩ | ⟨hjc,hj⟩
      · rfl
      · exact absurd hah (h j b hash hjc hj hb hbh)
    · rcases hw.cases hj with ⟨rfl,rfl⟩ | ⟨_,hj⟩
      · exact absurd hbh (h i a hash hic hi ha hah)
      · exact hu i j a b hash hi hj ha hb hah hbh

/-- Characters that are no spaces survive the collapse of whitespace. -/
theorem mem_splitWords {c : Char} (hc : isSpace c = false) (word cs : List Char)
    (h : c ∈ word ∨ c ∈ cs) : ∃ w ∈ splitWords word cs, c ∈ w := by
  induction cs generalizing word with
  | nil =>
    have hw : c ∈ word := h.resolve_right List.not_mem_nil
    refine ⟨word,?_,hw⟩
    unfold splitWords
    cases word with
    | nil => cases hw
    | cons a word => simp
  | cons d cs ih =>
    unfold splitWords
    by_cases hd : isSpace d = true
    · have hcs : c ∈ word ∨ c ∈ cs := by
        rcases h with h | h
        · exact Or.inl h
        · rcases List.mem_cons.mp h with rfl | h
          · rw [hc] at hd
            cases hd
          · exact Or.inr h
      rw [if_pos hd]
      split
      · next hnil =>
        have hword : c ∉ word := by
          rw [List.isEmpty_iff.mp hnil]
          exact List.not_mem_nil
        exact ih [] (Or.inr (hcs.resolve_left hword))
      · rcases hcs with hw | hcs
        · exact ⟨word,List.mem_cons_self,hw⟩
        · obtain ⟨w,hw,hcw⟩ := ih [] (Or.inr hcs)
          exact ⟨w,List.mem_cons_of_mem _ hw,hcw⟩
    · rw [if_neg hd]
      refine ih (word ++ [d]) ?_
      rcases h with h | h
      · exact Or.inl (List.mem_append_left _ h)
      · rcases List.mem_cons.mp h with rfl | h
        · exact Or.inl (List.mem_append_right _ List.mem_cons_self)
        · exact Or.inr h

theorem mem_intercalate {c : Char} {sep w : List Char} {ws : List (List Char)} (hw : w ∈ ws)
    (hc : c ∈ w) : c ∈ sep.intercalate ws := by
  induction ws with
  | nil => cases hw
  | cons v ws ih =>
    cases ws with
    | nil =>
      rw [List.mem_singleton.mp hw] at hc
      simpa using hc
    | cons u ws =>
      rw [List.intercalate_cons_cons]
      rcases List.mem_cons.mp hw with rfl | hw
      · exact List.mem_append_left _ (List.mem_append_left _ hc)
      · exact List.mem_append_right _ (ih hw)

theorem mem_normalizeSpace {c : Char} (hc : isSpace c = false) {s : String} (h : c ∈ s.toList) :
    c ∈ (normalizeSpace s).toList := by
  obtain ⟨w,hw,hcw⟩ := mem_splitWords hc [] s.toList (Or.inr h)
  rw [normalizeSpace,String.toList_intercalate]
  refine mem_intercalate (List.mem_map_of_mem (List.mem_map_of_mem hw)) ?_
  rwa [String.toList_ofList]

/-- A decimal literal is made of digits and underscores. -/
theorem parseDigits_chars {n m : ℕ} {cs : List Char} (h : parseDigits n cs = some m) :
    ∀ c ∈ cs, c.isDigit = true ∨ c = '_' := by
  induction n, cs using parseDigits.induct with
  | case1 n => simp
  | case2 n d cs hd ih =>
    rw [parseDigits,if_pos hd] at h
    intro c hc
    rcases List.mem_cons.mp hc with rfl | hc
    · exact Or.inr rfl
    · rcases List.mem_cons.mp hc with rfl | hc
      · exact Or.inl hd
      · exact ih h c hc
  | case3 n d cs hd =>
    rw [parseDigits,if_neg hd] at h
    cases h
  | case4 n d cs hne hd ih =>
    rw [parseDigits.eq_3 _ _ _ hne,if_pos hd] at h
    intro c hc
    rcases List.mem_cons.mp hc with rfl | hc
    · exact Or.inl hd
    · exact ih h c hc
  | case5 n d cs hne hd =>
    rw [parseDigits.eq_3 _ _ _ hne,if_neg hd] at h
    cases h

theorem parseInt_colon {s : String} {i : ℤ} (h : parseInt s = some i) : ':' ∉ s.toList := by
  have hdigits : ∀ cs : List Char, ':' ∈ cs → parseDigits 0 cs = none := by
    intro cs hin
    by_contra hne
    obtain ⟨m,hp⟩ := Option.ne_none_iff_exists'.mp hne
    rcases parseDigits_chars hp _ hin with hd | hd <;> exact absurd hd (by decide)
  intro hc
  have hmem := mem_normalizeSpace (by decide) hc
  unfold parseInt at h
  split at h
  · next c cs heq =>
    rw [heq] at hmem
    simp [hdigits (c :: cs) (by simpa using hmem)] at h
  · next c cs heq =>
    rw [heq] at hmem
    simp [hdigits (c :: cs) (by simpa using hmem)] at h
  · next c cs _ _ heq =>
    rw [heq] at hmem
    simp [hdigits (c :: cs) hmem] at h
  · cases h

theorem tidy_of_spanBlock {turn : TurnRow} {span : String} {block : Json}
    (h : spanBlock turn span = .ok block) : Tidy span := by
  unfold spanBlock at h
  split at h
  · cases h
  · next kind index hp =>
    split at h
    · cases h
    · next hkind =>
      simp only [not_or,not_not] at hkind
      unfold parseSpan at hp
      split at hp
      · cases hp
      · next pre c rest hspan =>
        obtain ⟨i,hi,hpair⟩ := Option.map_eq_some_iff.mp hp
        cases hpair
        refine Or.inr ⟨String.ofList rest,?_,parseInt_colon hi⟩
        rw [List.span_eq_takeWhile_dropWhile,Prod.mk.injEq] at hspan
        have hc : c = ':' := by
          have hhead := List.head?_dropWhile_not (· ≠ ':') span.toList
          rw [hspan.2] at hhead
          simpa using hhead
        have htext : span.toList = pre ++ c :: rest := by
          rw [← hspan.1,← hspan.2,List.takeWhile_append_dropWhile]
        have hpre : pre = "text".toList := by
          rw [← hkind.1,String.toList_ofList]
        apply String.toList_inj.mp
        rw [htext,hpre,hc]
        simp

namespace Tables

section

variable [PyRuntime] {s s' : Tables}

omit [PyRuntime] in
theorem tidy_of_checkEvidence {transcriptId : ℕ} {ref : ℕ × String} {u : Unit}
    (h : s.checkEvidence transcriptId ref = .ok u) : Tidy ref.2 := by
  unfold checkEvidence at h
  split at h
  · cases h
  · split at h
    · cases h
    · split at h
      · cases h
      · split at h
        · obtain ⟨block,hb,_⟩ := map_ok h
          exact tidy_of_spanBlock hb
        · next hempty => exact Or.inl (not_not.mp hempty)

/-- The references of an accepted proposal are tidy. -/
theorem enqueue_tidy {candidate : MemoryCandidate} {source : IntakeSource} {r : ℕ × Bool}
    (h : s.enqueue candidate source = .ok (s',r)) {refs : List (ℕ × String)}
    (hrefs : Cites candidate source refs) : ∀ ref ∈ refs, Tidy ref.2 := by
  obtain ⟨normalized,resolved,hn,hr,rfl⟩ := hrefs
  obtain ⟨normalized',hn',h⟩ := bind_ok h
  obtain ⟨resolved',hr',h⟩ := bind_ok h
  cases hn.symm.trans hn'
  cases hr.symm.trans hr'
  extract_lets refs at h
  split at h
  · cases h
  · split at h
    · cases h
    · obtain ⟨checked,hch,_⟩ := bind_ok h
      intro ref hmem
      obtain ⟨u,_,hu⟩ := (mapM_ok hch).2 ref hmem
      exact tidy_of_checkEvidence hu

omit [PyRuntime] in
theorem reconcilableByHash_none {hash : String} (h : s.reconcilableByHash hash = none) {j : ℕ}
    {row : CandidateRow} (hrow : s.candidates[j]? = some row)
    (hr : row.status.reconcilable = true) : row.evidenceSetHash ≠ some hash := by
  intro hh
  have hmem : j ∈ ids (fun c => c.status.reconcilable && c.evidenceSetHash == some hash)
      s.candidates := mem_ids.mpr ⟨row,hrow,by simp [hr,hh]⟩
  rw [List.getLast?_eq_none_iff.mp h] at hmem
  cases hmem

/-- A proposal never adds a second reconcilable candidate for an evidence set. -/
theorem enqueue_unique {candidate : MemoryCandidate} {source : IntakeSource} {c : ℕ} {created : Bool}
    (hu : UniqueEvidence s.candidates) (h : s.enqueue candidate source = .ok (s',c,created)) :
    UniqueEvidence s'.candidates := by
  obtain ⟨refs,_,_,_,⟨_,rfl,_⟩ | ⟨hnone,_,_,normalized,_,rfl⟩⟩ := enqueue_cases h
  · exact hu
  · intro i j a b hash hi hj ha hb hah hbh
    simp only [getElem?_insert] at hi hj
    split at hi <;> split at hj
    · omega
    · cases hi
      cases hah
      exact absurd hbh (reconcilableByHash_none hnone hj hb)
    · cases hj
      cases hbh
      exact absurd hah (reconcilableByHash_none hnone hi ha)
    · exact hu i j a b hash hi hj ha hb hah hbh

omit [PyRuntime] in
/-- The evidence rows of a new candidate are all the evidence it has. -/
theorem cited_enqueued (hknown : ∀ e ∈ s.evidence, e.candidateId < s.candidates.length) (row : CandidateRow) (refs : List (ℕ × String)) (c : ℕ) :
    ({s with
      candidates := s.candidates ++ [row]
      evidence := s.evidence ++ s.evidenceRows s.candidates.length refs}).cited c =
        if c = s.candidates.length then refs else s.cited c := by
  have hnew : (s.evidenceRows s.candidates.length refs).map (fun e => (e.turnId,e.spanRef)) = refs := by
    refine List.ext_getElem? fun i => ?_
    simp [evidenceRows,Function.comp_def]
  have hall : ∀ e ∈ s.evidenceRows s.candidates.length refs,
      e.candidateId = s.candidates.length := fun e he => (mem_evidenceRows he).1
  have hold : ∀ e ∈ s.evidence, e.candidateId ≠ s.candidates.length := fun e he =>
    Nat.ne_of_lt (hknown e he)
  unfold cited evidenceOf
  rw [List.filter_append,List.map_append]
  split
  · next hc =>
    subst hc
    rw [List.filter_eq_nil_iff.mpr fun e he => by simpa using hold e he,
      List.filter_eq_self.mpr fun e he => by simpa using hall e he,hnew]
    rfl
  · next hc =>
    have hnil : (s.evidenceRows s.candidates.length refs).filter (fun e => e.candidateId == c) = [] := by
      refine List.filter_eq_nil_iff.mpr fun e he => ?_
      simpa [hall e he] using fun heq => hc heq.symm
    rw [hnil,List.map_nil,List.append_nil]

theorem Hashed.enqueue (hs : s.Hashed) {candidate : MemoryCandidate}
    {source : IntakeSource} {c : ℕ} {created : Bool}
    (h : s.enqueue candidate source = .ok (s',c,created)) : s'.Hashed := by
  obtain ⟨refs,hcites,_,_,⟨_,rfl,_⟩ | ⟨_,_,_,normalized,_,rfl⟩⟩ := enqueue_cases h
  · exact hs
  · have htidy := enqueue_tidy h hcites
    refine ⟨fun e he => ?_,fun e he => ?_,fun d row hash hrow hh => ?_⟩
    · rw [List.length_append,List.length_singleton]
      rcases List.mem_append.mp he with he | he
      · exact Nat.lt_succ_of_lt (hs.known e he)
      · rw [(mem_evidenceRows he).1]
        exact Nat.lt_succ_self _
    · rcases List.mem_append.mp he with he | he
      · exact hs.tidy e he
      · obtain ⟨i,hi,rfl⟩ := List.mem_mapIdx.mp he
        exact htidy _ (List.getElem_mem hi)
    · rw [cited_enqueued hs.known]
      simp only [getElem?_insert] at hrow
      split at hrow
      · next hd =>
        cases hrow
        rw [if_pos hd]
        exact (Option.some.inj hh).symm
      · next hd =>
        rw [if_neg hd]
        exact hs.digest d row hash hrow hh

/-- A transaction that keeps the digests, or stores one proposal and keeps them after that. -/
def Proposes (s s' : Tables) : Prop :=
  DigestsKept True s s' ∨ ∃ candidate source c created s₁,
    s.enqueue candidate source = .ok (s₁,c,created) ∧ DigestsKept True s₁ s'

theorem Proposes.unique (h : s.Proposes s') (hu : UniqueEvidence s.candidates) :
    UniqueEvidence s'.candidates := by
  rcases h with h | ⟨candidate,source,c,created,s₁,he,h⟩
  · exact h.unique hu
  · exact h.unique (enqueue_unique hu he)

theorem Proposes.hashed (h : s.Proposes s') (hs : s.Hashed) : s'.Hashed := by
  rcases h with h | ⟨candidate,source,c,created,s₁,he,h⟩
  · exact h.hashed hs
  · exact h.hashed (hs.enqueue he)

theorem queueExplicitContentCommandIn_proposes {c : ExplicitCommand} {source : OwnerSource}
    {now : Time} {q : Queued} (h : s.queueExplicitContentCommandIn c source now = .ok (s',q)) :
    s.Proposes s' := by
  obtain ⟨transcriptId,turnId,candidate,s₁,created,target,rfl,_,he,s₂,hg,_,_,rfl⟩ :=
    queueExplicitContentCommandIn_cases h
  have hcore := correctionGuardRow_core hg
  simp only [Tables.core,Core.mk.injEq] at hcore
  exact Or.inr ⟨candidate,_,_,created,s₁,he,.of_rows hcore.1 hcore.2.1⟩

omit [PyRuntime] in
theorem rejectConflicting_digestsKept (s : Tables) (c : ℕ) (decision : DecisionJson) (code : String)
    (resolution : Option String) (now : Time) :
    DigestsKept True s (s.rejectConflicting c decision code resolution now) :=
  (rejectConflicting_chain (P := calm) nofun s c decision code resolution now).calm
    (footing_evidence (rejectConflicting_footing ..))

omit [PyRuntime] in
/-- The candidate of a decided conflict goes with it. -/
theorem decidedConflict_digestsKept (s : Tables) (conflictId c : ℕ) (f : ConflictRow → ConflictRow)
    (decision : DecisionJson) (code : String) (resolution : Option String) (now : Time)
    (obligationId : ℕ) (g : ObligationRow → ObligationRow) :
    DigestsKept True s (((s.setConflict conflictId f).rejectConflicting c decision code resolution
      now).setObligation obligationId g) := by
  have hset : DigestsKept True s (s.setConflict conflictId f) := .of_rows rfl rfl
  exact (hset.trans (rejectConflicting_digestsKept ..)).trans (.of_rows rfl rfl)

omit [PyRuntime] in
theorem keepCurrent_digestsKept (s : Tables) (obligationId conflictId : ℕ) (conflict : ConflictRow)
    (source : OwnerSource) (now : Time) :
    DigestsKept True s (s.keepCurrent obligationId conflictId conflict source now) := by
  unfold keepCurrent
  extract_lets s₁
  have hset : DigestsKept True s (s.setConflict conflictId fun c => {c with
      status := "resolved_keep_current"
      resolvedAt := some now}) := .of_rows rfl rfl
  have hrejected : DigestsKept True s s₁ := hset.trans (rejectConflicting_digestsKept ..)
  clear_value s₁
  exact hrejected.trans (.of_rows rfl rfl)

theorem resolveConflictMutate_proposes {arguments : ResolveArguments} {changeType : String}
    {source : OwnerSource} {now : Time} {r : Bool × Resolution}
    (h : s.resolveConflictMutate arguments changeType source now = .ok (s',r)) : s.Proposes s' := by
  unfold resolveConflictMutate at h
  split at h
  · cases h
  · split at h
    · cases h
    · split at h
      · cases h
      · split at h
        · cases h
          exact Or.inl (.refl s)
        · split at h
          · cases h
          · obtain ⟨version,_,h⟩ := bind_ok h
            split at h
            · cases h
              exact Or.inl (.refl s)
            · obtain ⟨text,_,h⟩ := bind_ok h
              split at h
              · cases h
                exact Or.inl (keepCurrent_digestsKept ..)
              · obtain ⟨⟨s₁,q⟩,hq,h⟩ := bind_ok h
                cases h
                obtain ⟨replacement,_,hq⟩ := bind_ok hq
                obtain ⟨⟨s₂,queued⟩,hin,hq⟩ := bind_ok hq
                cases hq
                rcases queueExplicitContentCommandIn_proposes hin with hk | ⟨p,src,c,created,s₀,he,hk⟩
                · exact Or.inl (hk.trans (decidedConflict_digestsKept ..))
                · exact Or.inr ⟨p,src,c,created,s₀,he,hk.trans (decidedConflict_digestsKept ..)⟩

/-- The failed candidate that the owner's retry brings back, with the version the owner saw and
its evidence and text in place. -/
def requeuedCandidate (s : Tables) (arguments : ResolveArguments) : Option (ℕ × CandidateRow) :=
  (s.retriedCandidate arguments).filter fun p => p.2.content.isSome && p.2.fingerprint.isSome &&
    match cleanedOrEmpty p.2.content with
    | .ok text => arguments.reviewVersion == some (candidateReviewVersion p.1 p.2 text)
    | .error _ => false

/-- The digest tells the evidence sets of the store apart. -/
def DigestsDistinct (s : Tables) : Prop :=
  ∀ i j, PyRuntime.sha256 (evidenceText (s.cited i)) = PyRuntime.sha256 (evidenceText (s.cited j)) →
    evidenceText (s.cited i) = evidenceText (s.cited j)

/-- A confirmed candidate: it waits again, and cites one more turn, which is new. -/
structure Confirmed (s s' : Tables) (c : ℕ) (row row' : CandidateRow) : Prop where
  change : Changes s.candidates s'.candidates c row row'
  status : row'.status = .pending
  hash : row'.evidenceSetHash = some (evidenceSetHash (s.cited c ++ [(s.turns.length,"text:0")]))
  evidence : ∃ e : EvidenceRow, s'.evidence = s.evidence ++ [e] ∧ e.candidateId = c ∧
    e.turnId = s.turns.length ∧ e.spanRef = "text:0"

omit [PyRuntime] in
theorem changes_setCandidate {s₁ : Tables} {c : ℕ} {row : CandidateRow}
    (hrow : s.candidates[c]? = some row) (hc : s₁.candidates = s.candidates)
    (f : CandidateRow → CandidateRow) :
    Changes s.candidates (s₁.setCandidate c f).candidates c row (f row) := by
  rw [← hc]
  exact Changes.modify (hc ▸ hrow) f

theorem confirmCandidate_confirmed {obligationId c : ℕ} {row : CandidateRow}
    {content : Option String} {now : Time} (hrow : s.candidates[c]? = some row)
    (h : s.confirmCandidate obligationId c row content now = .ok s') :
    ∃ row', s.Confirmed s' c row row' := by
  obtain ⟨asserted,_,h⟩ := bind_ok h
  obtain ⟨⟨s₁,transcriptId,turnId⟩,ht,h⟩ := bind_ok h
  obtain ⟨hid,t,hcore,_⟩ := appendOwnerAssertionTurn_eq ht
  simp only [Tables.core,Core.mk.injEq] at hcore
  obtain ⟨hcand,hev,_⟩ := hcore
  have hcited : s₁.cited c = s.cited c := by rw [cited,cited,evidenceOf,evidenceOf,hev]
  dsimp only at h
  rw [show s' = _ from (Except.ok.inj h).symm]
  refine ⟨_,⟨changes_setCandidate hrow hcand _,rfl,?_,⟨_,by rw [← hev]; rfl,rfl,hid,rfl⟩⟩⟩
  rw [← hid,← hcited]
  rfl

theorem Confirmed.cited {c : ℕ} {row row' : CandidateRow} (h : s.Confirmed s' c row row') (d : ℕ) :
    s'.cited d = if d = c then s.cited c ++ [(s.turns.length,"text:0")] else s.cited d := by
  obtain ⟨e,he,hc,ht,hspan⟩ := h.evidence
  unfold Tables.cited evidenceOf
  rw [he,List.filter_append,List.map_append]
  by_cases hd : d = c
  · subst hd
    simp [hc,ht,hspan]
  · have hne : (e.candidateId == d) = false := by simpa [hc] using fun heq => hd heq.symm
    rw [if_neg hd,List.filter_cons,hne]
    simp

theorem Confirmed.hashed {c : ℕ} {row row' : CandidateRow} (h : s.Confirmed s' c row row')
    (hs : s.Hashed) : s'.Hashed := by
  refine ⟨fun e he => ?_,fun e he => ?_,fun d x hash hx hh => ?_⟩
  · obtain ⟨e₀,he₀,hc,_,_⟩ := h.evidence
    rw [h.change.length]
    rw [he₀] at he
    rcases List.mem_append.mp he with he | he
    · exact hs.known e he
    · rw [List.mem_singleton.mp he,hc]
      exact (List.getElem?_eq_some_iff.mp h.change.before).1
  · obtain ⟨e₀,he₀,_,_,hspan⟩ := h.evidence
    rw [he₀] at he
    rcases List.mem_append.mp he with he | he
    · exact hs.tidy e he
    · rw [List.mem_singleton.mp he,hspan]
      exact Or.inr ⟨"0",rfl,by decide⟩
  · rw [h.cited]
    rcases h.change.cases hx with ⟨rfl,rfl⟩ | ⟨hd,hx⟩
    · rw [if_pos rfl]
      exact (Option.some.inj (h.hash.symm.trans hh)).symm
    · rw [if_neg hd]
      exact hs.digest d x hash hx hh

/-- The set of a confirmed candidate is no other candidate's, since no other has its new turn. -/
theorem Confirmed.unique {c : ℕ} {row row' : CandidateRow} (h : s.Confirmed s' c row row')
    (hs : s.Hashed) (hwf : Wellformed s) (hu : UniqueEvidence s.candidates)
    (hfree : s'.DigestsDistinct) : UniqueEvidence s'.candidates := by
  refine (hu.change h.change (by rw [h.status]; rfl)).mpr fun j b hash hj hb _ hbh hh => ?_
  have hdigest := hs.digest j b hash hb hbh
  rw [h.hash] at hh
  have htext := hfree c j
  rw [h.cited c,h.cited j,if_pos rfl,if_neg hj] at htext
  refine evidenceText_ne (List.mem_append_right _ (List.mem_singleton_self _)) ?_ (fun r hr => ?_)
    (htext ((Option.some.inj hh).trans hdigest))
  · obtain ⟨e,he,hej⟩ := hwf.citing j (by rw [hb]; rfl)
    refine List.ne_nil_of_mem (a := (e.turnId,e.spanRef)) (List.mem_map_of_mem ?_)
    exact List.mem_filter.mpr ⟨he,by simpa using hej⟩
  · obtain ⟨e,he,rfl⟩ := List.mem_map.mp hr
    have hmem := (List.mem_filter.mp he).1
    refine ⟨?_,hs.tidy e hmem⟩
    obtain ⟨t,ht⟩ := Option.isSome_iff_exists.mp (hwf.cited e hmem).2
    exact Nat.ne_of_lt (List.getElem?_eq_some_iff.mp ht).1

omit [PyRuntime] in
/-- Answers that close a candidate. -/
theorem closed_digestsKept {c : ℕ} {row : CandidateRow} {f : CandidateRow → CandidateRow}
    {s₁ : Tables} (hrow : s.candidates[c]? = some row) (hc : s₁.candidates = s.candidates)
    (he : s₁.evidence = s.evidence) (hh : (f row).evidenceSetHash = row.evidenceSetHash)
    (hr : (f row).status.reconcilable = false) (now : Time) (code : Option String) :
    DigestsKept True s ((s₁.setCandidate c f).settleExplicitObligation c now none code none) := by
  have hw : Changes s.candidates
      ((s₁.setCandidate c f).settleExplicitObligation c now none code none).candidates c row (f row) := by
    rw [settle_candidates]
    exact changes_setCandidate hrow hc f
  refine DigestsKept.change hw ?_ hh fun _ hx => ?_
  · rw [settle_evidence]
    exact he
  · rw [hr] at hx
    cases hx

omit [PyRuntime] in
theorem expireConfirmation_digestsKept {c : ℕ} {row : CandidateRow}
    (hrow : s.candidates[c]? = some row) (obligationId : ℕ) (now : Time) :
    DigestsKept True s (s.expireConfirmation obligationId c now) := by
  unfold expireConfirmation
  apply closed_digestsKept hrow <;> rfl

omit [PyRuntime] in
theorem rejectCandidate_digestsKept {c : ℕ} {row : CandidateRow}
    (hrow : s.candidates[c]? = some row) (obligationId : ℕ) (source : OwnerSource) (now : Time) :
    DigestsKept True s (s.rejectCandidate obligationId c source now) := by
  unfold rejectCandidate
  apply closed_digestsKept hrow <;> rfl

omit [PyRuntime] in
theorem invalidateRetried_digestsKept {c : ℕ} {row : CandidateRow}
    (hrow : s.candidates[c]? = some row) (now : Time) :
    DigestsKept True s (s.invalidateRetried c now) := by
  unfold invalidateRetried
  apply closed_digestsKept hrow <;> rfl

/-- What answers to obligations about candidates do: they keep the digests, bring a failed
candidate back, or confirm a candidate. -/
theorem resolveObligationIn_cases {arguments : ResolveArguments} {source : OwnerSource} {now : Time}
    {r : Resolution} (h : s.resolveObligationIn arguments source now = .ok (s',r)) :
    DigestsKept True s s' ∨
    (∃ p obligation, s.requeuedCandidate arguments = some p ∧
      s' = s.retryCandidate arguments.obligationId p.1 obligation source) ∨
    ∃ c row row', s.Confirmed s' c row row' := by
  unfold resolveObligationIn at h
  split at h
  · cases h
  · next obligation ho =>
    split at h
    · cases h
      exact Or.inl (.refl s)
    · next hpend =>
      split at h
      · next hex =>
        unfold retryExplicitObligation at h
        split at h
        · cases h
        · next hret =>
          split at h
          · cases h
          · next hsub =>
            split at h
            · cases h
            · next c row hsubject =>
              have hrow := subject_row hsubject
              split at h
              · cases h
                exact Or.inl (.refl s)
              · split at h
                · cases h
                  exact Or.inl (.refl s)
                · next hfailed =>
                  obtain ⟨text,htext,h⟩ := bind_ok h
                  dsimp only at h
                  split at h
                  · cases h
                    exact Or.inl (.refl s)
                  · next hver =>
                    split at h
                    · cases h
                      exact Or.inl (invalidateRetried_digestsKept hrow now)
                    · next hlive =>
                      cases h
                      simp only [not_or] at hlive
                      refine Or.inr (Or.inl ⟨(c,row),obligation,?_,rfl⟩)
                      have hretried : s.retriedCandidate arguments = some (c,row) := by
                        simp only [retriedCandidate,ho]
                        rw [if_pos ⟨not_not.mp hpend,hex,not_not.mp hsub,not_not.mp hret⟩,hsubject]
                        simpa [Option.filter,not_not.mp hfailed] using hlive.1
                      rw [requeuedCandidate,hretried]
                      simp only [Option.filter,htext]
                      rw [if_pos]
                      have hfull := hlive.2
                      simp only [Bool.not_eq_true,Option.isNone_eq_false_iff] at hfull
                      simpa only [Bool.and_eq_true,beq_iff_eq] using ⟨hfull,not_not.mp hver⟩
      · split at h
        · cases h
        · unfold resolveCandidate at h
          split at h
          · cases h
          · split at h
            · cases h
            · next c row hsubject =>
              have hrow := subject_row hsubject
              obtain ⟨text,_,h⟩ := bind_ok h
              dsimp only at h
              split at h
              · cases h
                exact Or.inl (.refl s)
              · split at h
                · cases h
                  exact Or.inl (expireConfirmation_digestsKept hrow _ now)
                · split at h
                  · obtain ⟨s₁,hc,h⟩ := bind_ok h
                    cases h
                    exact Or.inr (Or.inr ⟨c,row,confirmCandidate_confirmed hrow hc⟩)
                  · cases h
                    exact Or.inl (rejectCandidate_digestsKept hrow _ source now)

end

end Tables

end Memory
end Atlas
