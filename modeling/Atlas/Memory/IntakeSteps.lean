import Atlas.Memory.PublisherSteps

/-! Chats and intake as runs of the candidate automaton. -/
namespace Atlas
namespace Memory

open RowTable

section

variable {α β : Type}

theorem mapM_ok {f : α → Except Failure β} {l : List α} {l' : List β} (h : l.mapM f = .ok l') :
    l'.length = l.length ∧ ∀ x ∈ l, ∃ y ∈ l', f x = .ok y := by
  induction l generalizing l' with
  | nil =>
    cases h
    exact ⟨rfl,fun _ hx => absurd hx List.not_mem_nil⟩
  | cons a l ih =>
    rw [List.mapM_cons] at h
    obtain ⟨b,hb,h⟩ := bind_ok h
    obtain ⟨bs,hbs,h⟩ := bind_ok h
    cases h
    obtain ⟨hlen,hall⟩ := ih hbs
    refine ⟨by simp [hlen],fun x hx => ?_⟩
    rcases List.mem_cons.mp hx with rfl | hx
    · exact ⟨b,List.mem_cons_self,hb⟩
    · obtain ⟨y,hy,hf⟩ := hall x hx
      exact ⟨y,List.mem_cons_of_mem _ hy,hf⟩

theorem mem_firstOccurrences_foldl [DecidableEq α] (l seen : List α) (x : α) :
    x ∈ l.foldl (fun seen a => if a ∈ seen then seen else seen ++ [a]) seen ↔ x ∈ seen ∨ x ∈ l := by
  induction l generalizing seen with
  | nil => simp
  | cons a l ih =>
    rw [List.foldl_cons,ih]
    split
    · next ha =>
      constructor
      · rintro (h | h)
        · exact Or.inl h
        · exact Or.inr (List.mem_cons_of_mem _ h)
      · rintro (h | h)
        · exact Or.inl h
        · rcases List.mem_cons.mp h with rfl | h
          · exact Or.inl ha
          · exact Or.inr h
    · simp [or_assoc]

theorem mem_firstOccurrences [DecidableEq α] (l : List α) (x : α) :
    x ∈ firstOccurrences l ↔ x ∈ l := by
  simp [firstOccurrences,mem_firstOccurrences_foldl]

theorem firstOccurrences_ne_nil [DecidableEq α] {l : List α} (h : l ≠ []) :
    firstOccurrences l ≠ [] := by
  obtain ⟨x,hx⟩ := List.exists_mem_of_ne_nil l h
  exact List.ne_nil_of_mem ((mem_firstOccurrences l x).mpr hx)

end

theorem TurnsKept.map (t : List TurnRow) (f : TurnRow → TurnRow)
    (h : ∀ x, (f x).transcriptId = x.transcriptId ∧ (f x).actor = x.actor ∧
      ((f x).deletedAt = none → x.deletedAt = none)) : TurnsKept t (t.map f) :=
  fun i x hx => ⟨f x,by rw [List.getElem?_map,hx]; rfl,h x⟩

theorem transact_chain {α : Type*} {P : Policy} {w : State}
    {tx : Tables → Except Failure (Tables × α)}
    (h : ∀ s a, tx w.data = .ok (s,a) → Chain P w.data s) : Chain P w.data (transact w tx).1.data :=
  transact_rel (fun _ => .refl) h

namespace Tables

variable {P : Policy} {s s' : Tables}

theorem createTranscript_frame (s : Tables) (kind : String) (title : Option String) (now : Time) :
    Frame s (s.createTranscript kind title now).1 := .of_core rfl

theorem createOwnerChat_frame (s : Tables) (title : Option String) (now : Time) :
    Frame s (s.createOwnerChat title now).1 := .of_core rfl

theorem activateOwnerChat_frame {chatId id : ℕ} {now : Time}
    (h : s.activateOwnerChat chatId now = .ok (s',id)) : Frame s s' := by
  unfold activateOwnerChat at h
  split at h
  · cases h
  · split at h
    · cases h
      exact .refl s
    · cases h
      exact .of_core rfl

theorem getOrCreateActive_frame (s : Tables) (now : Time) : Frame s (s.getOrCreateActive now).1 := by
  unfold getOrCreateActive
  split
  · exact .refl s
  · exact .of_core rfl

/-- What appending a turn does to the tables that matter here. -/
theorem appendTurn_eq {transcriptId turnId : ℕ} {actor : Actor} {blocks : List Json} {now : Time}
    (h : s.appendTurn transcriptId actor blocks now = .ok (s',turnId)) :
    turnId = s.turns.length ∧ s'.obligations = s.obligations ∧ ∃ t : TurnRow,
      s'.core = {s.core with turns := s.turns ++ [t]} ∧ t.actor = actor ∧ t.deletedAt = none ∧
        t.transcriptId = transcriptId := by
  unfold appendTurn at h
  split at h
  · cases h
  · cases h
    exact ⟨rfl,rfl,_,rfl,rfl,rfl,rfl⟩

theorem appendTurn_frame {transcriptId turnId : ℕ} {actor : Actor} {blocks : List Json} {now : Time}
    (h : s.appendTurn transcriptId actor blocks now = .ok (s',turnId)) : Frame s s' := by
  obtain ⟨_,_,t,hc,_⟩ := appendTurn_eq h
  simp only [Tables.core,Core.mk.injEq] at hc
  obtain ⟨hc,he,ht,ha,ho,hn⟩ := hc
  exact ⟨hc,he,ht ▸ .append _ _,ha ▸ .refl _,hn,ho ▸ .refl _⟩

theorem eraseChat_chain (chatId : ℕ) (now : Time) (s : Tables)
    (hm : ∀ a, a = .invalidated ∨ P.moves a .invalidated)
    (hb : P.bare → ∀ c row, s.candidates[c]? = some row → row.sourceTranscriptId = chatId →
      s.explicitCount c = 0) : Chain P s (s.eraseChat chatId now) := by
  refine .single (.erase chatId now ⟨rfl,rfl,.map _ _ fun x => ?_,rfl,rfl,.refl _,
    fun row _ => hm _,hb⟩)
  split
  · exact ⟨rfl,rfl,fun hn => by cases hn⟩
  · exact ⟨rfl,rfl,id⟩

theorem deleteOwnerChat_chain {chatId id : ℕ} {now : Time}
    (h : s.deleteOwnerChat chatId now = .ok (s',id))
    (hm : ∀ a, a = .invalidated ∨ P.moves a .invalidated)
    (hb : P.bare → ∀ c row, s.candidates[c]? = some row → row.sourceTranscriptId = chatId →
      s.explicitCount c = 0) : Chain P s s' := by
  unfold deleteOwnerChat at h
  split at h
  · cases h
  · extract_lets s₁ at h
    have hchain : Chain P s s₁ :=
      (Frame.setTranscript s chatId _).chain.trans (eraseChat_chain chatId now _ hm hb)
    split at h
    · rw [show s' = (s₁.getOrCreateActive now).1 from (congrArg Prod.fst (Except.ok.inj h)).symm]
      exact hchain.trans (getOrCreateActive_frame _ now).chain
    · split at h
      · cases h
        exact hchain.trans (createTranscript_frame _ _ _ now).chain
      · cases h
        exact hchain.trans (Frame.setTranscript _ _ _).chain

variable [PyRuntime]

omit [PyRuntime] in
theorem reconcilableByHash_spec {hash : String} {c : ℕ} (h : s.reconcilableByHash hash = some c) :
    ∃ row, s.candidates[c]? = some row ∧ row.status.reconcilable = true ∧
      row.evidenceSetHash = some hash := by
  obtain ⟨row,hrow,hp⟩ := mem_ids.mp (List.mem_of_getLast? h)
  simp only [Bool.and_eq_true,beq_iff_eq] at hp
  exact ⟨row,hrow,hp⟩

omit [PyRuntime] in
theorem checkEvidence_ok {transcriptId : ℕ} {ref : ℕ × String} {u : Unit}
    (h : s.checkEvidence transcriptId ref = .ok u) : ∃ t, s.turns[ref.1]? = some t ∧
      t.transcriptId = transcriptId ∧ t.deletedAt = none := by
  unfold checkEvidence at h
  split at h
  · cases h
  · next t ht =>
    split at h
    · cases h
    · next hd =>
      split at h
      · cases h
      · next htr => exact ⟨t,ht,not_not.mp htr,by simpa using hd⟩

/-- The canonical references an accepted proposal cites. -/
def Cites (candidate : MemoryCandidate) (source : IntakeSource) (refs : List (ℕ × String)) : Prop :=
  ∃ normalized resolved, candidate.normalized = .ok normalized ∧
    normalized.evidenceRefs.mapM source.resolve = .ok resolved ∧ refs = firstOccurrences resolved

/-- An accepted proposal meets the reconcilable candidate of its evidence set, or is stored. -/
theorem enqueue_cases {candidate : MemoryCandidate} {source : IntakeSource} {c : ℕ} {created : Bool}
    (h : s.enqueue candidate source = .ok (s',c,created)) : ∃ refs, Cites candidate source refs ∧
      refs ≠ [] ∧ (∀ r ∈ refs, ∃ t, s.turns[r.1]? = some t ∧
        t.transcriptId = source.sourceTranscriptId ∧ t.deletedAt = none) ∧
      ((s.reconcilableByHash (evidenceSetHash refs) = some c ∧ s' = s ∧ created = false) ∨
        (s.reconcilableByHash (evidenceSetHash refs) = none ∧ c = s.candidates.length ∧
          created = true ∧ ∃ normalized, candidate.normalized = .ok normalized ∧ s' = {s with
            candidates := s.candidates ++ [candidateRow normalized source (evidenceSetHash refs)]
            evidence := s.evidence ++ s.evidenceRows s.candidates.length refs})) := by
  obtain ⟨normalized,hn,h⟩ := bind_ok h
  obtain ⟨resolved,hr,h⟩ := bind_ok h
  extract_lets refs at h
  have hne : refs ≠ [] := by
    refine firstOccurrences_ne_nil fun hnil => ?_
    have hlen := (mapM_ok hr).1
    have hpos := normalized.refs_bounds.1
    rw [hnil,List.length_nil] at hlen
    omega
  split at h
  · cases h
  · split at h
    · cases h
    · obtain ⟨checked,hch,h⟩ := bind_ok h
      refine ⟨refs,⟨normalized,resolved,hn,hr,rfl⟩,hne,fun r hmem => ?_,?_⟩
      · obtain ⟨u,_,hu⟩ := (mapM_ok hch).2 r hmem
        exact checkEvidence_ok hu
      · split at h
        · next existing he =>
          cases h
          exact Or.inl ⟨he,rfl,rfl⟩
        · next he =>
          simp only [Except.ok.injEq,Prod.mk.injEq] at h
          obtain ⟨hs,hc,hcr⟩ := h
          exact Or.inr ⟨he,hc.symm,hcr.symm,normalized,hn,hs.symm⟩

omit [PyRuntime] in
theorem mem_evidenceRows {c : ℕ} {refs : List (ℕ × String)} {e : EvidenceRow}
    (h : e ∈ s.evidenceRows c refs) : e.candidateId = c ∧ ∃ r ∈ refs, e.turnId = r.1 := by
  unfold evidenceRows at h
  rw [List.mem_mapIdx] at h
  obtain ⟨i,hi,rfl⟩ := h
  exact ⟨rfl,refs[i],List.getElem_mem hi,rfl⟩

theorem enqueue_chain {candidate : MemoryCandidate} {source : IntakeSource} {c : ℕ} {created : Bool}
    (h : s.enqueue candidate source = .ok (s',c,created)) : Chain P s s' := by
  obtain ⟨refs,_,hne,hrefs,⟨_,rfl,_⟩ | ⟨_,_,_,normalized,_,rfl⟩⟩ := enqueue_cases h
  · exact .refl
  · refine .single (.enqueue _ _ ⟨rfl,rfl,rfl,rfl,rfl,.refl _,rfl,rfl,
      ⟨_,rfl,sha256_ne_empty _⟩,?_,fun e he => ?_⟩)
    · simpa [evidenceRows] using hne
    · obtain ⟨hc,r,hr,ht⟩ := mem_evidenceRows he
      obtain ⟨t,htr,hid,_⟩ := hrefs r hr
      exact ⟨hc,t,ht ▸ htr,hid⟩

theorem enqueueMany_chain (s : Tables) (proposals : List RawCandidate) (source : IntakeSource) :
    Chain P s (s.enqueueMany proposals source) := by
  refine Chain.foldl_all _ (fun t raw => ?_) s
  split
  · next s' c created h =>
    cases hv : raw.validate with
    | error e => simp [hv,Except.bind] at h
    | ok candidate => exact enqueue_chain (by simpa [hv,Except.bind] using h)
  · exact .refl

theorem validate_fields {raw : RawCandidate} {candidate : MemoryCandidate}
    (h : raw.validate = .ok candidate) :
    candidate.content = raw.content ∧ candidate.evidenceRefs = raw.evidenceRefs := by
  unfold RawCandidate.validate at h
  extract_lets kind scopeToken at h
  split at h
  · split at h
    · split at h
      · cases h
      · split at h
        · split at h
          · cases h
          · split at h
            · cases h
            · split at h
              · cases h
              · split at h
                · split at h
                  · rw [← Except.ok.inj h]
                    exact ⟨rfl,rfl⟩
                  · cases h
                · cases h
        · cases h
    · cases h
  · cases h

theorem normalized_fields {candidate normalized : MemoryCandidate}
    (h : candidate.normalized = .ok normalized) :
    normalized.content = normalizeSpace candidate.content ∧ normalized.evidenceRefs =
      firstOccurrences (candidate.evidenceRefs.map CandidateEvidenceRef.normalized) := by
  unfold MemoryCandidate.normalized at h
  extract_lets content at h
  split at h
  · cases h
  · exact validate_fields h

/-- An explicit command cites the owner turn it was given, and nothing else. -/
theorem proposal_cites {c : ExplicitCommand} {transcriptId turnId : ℕ} {candidate : MemoryCandidate}
    {refs : List (ℕ × String)} (hv : (c.proposal turnId).validate = .ok candidate)
    (h : Cites candidate (c.intakeSource transcriptId turnId) refs) : refs = [(turnId,"")] := by
  obtain ⟨normalized,resolved,hn,hr,rfl⟩ := h
  rw [(normalized_fields hn).2,(validate_fields hv).2] at hr
  cases hr
  rfl

theorem createGuard_core {content : String} {status : MemoryStatus} {recordKind : String}
    {source : Option ℕ × Option ℕ} {now : Time} {r : ℕ × Bool}
    (h : s.createGuard content status recordKind source now = .ok (s',r)) : s'.core = s.core := by
  unfold createGuard at h
  extract_lets fingerprint guardRow at h
  split at h
  · cases h
  · split at h
    · cases h
      rfl
    · cases h
      rfl

theorem correctionGuardRow_core {c : ExplicitCommand} {source : OwnerSource} {now : Time}
    {target : Option ℕ} (h : s.correctionGuardRow c source now = .ok (s',target)) :
    s'.core = s.core := by
  unfold correctionGuardRow at h
  split at h
  · cases h
    rfl
  · split at h
    · cases h
      rfl
    · obtain ⟨⟨s₁,r⟩,hg,h⟩ := map_ok h
      cases h
      exact createGuard_core hg

/-- No intake of the given owner turn meets a candidate with a pending explicit obligation. -/
def BareIntake (s : Tables) (source : OwnerSource) : Prop :=
  ∀ turnId, source.2 = some turnId → ∀ c,
    s.reconcilableByHash (evidenceSetHash [(turnId,"")]) = some c → s.explicitCount c = 0

/-- What a queued explicit command leaves: its candidate, and an obligation about it. -/
theorem queueExplicitContentCommandIn_cases {c : ExplicitCommand} {source : OwnerSource} {now : Time}
    {q : Queued} (h : s.queueExplicitContentCommandIn c source now = .ok (s',q)) :
    ∃ transcriptId turnId candidate s₁ created target, source = (some transcriptId,some turnId) ∧
      (c.proposal turnId).validate = .ok candidate ∧
      s.enqueue candidate (c.intakeSource transcriptId turnId) = .ok (s₁,q.candidateId,created) ∧
      ∃ s₂, s₁.correctionGuardRow c source now = .ok (s₂,target) ∧
        q.commandId = s.commands.length ∧ q.obligationId = s.obligations.length ∧
        s' = {s₂ with
          commands := s₂.commands ++ [c.commandRow transcriptId turnId target]
          obligations := s₂.obligations ++
            [c.obligationRow transcriptId turnId q.candidateId q.commandId]} := by
  unfold queueExplicitContentCommandIn at h
  split at h
  · cases h
  · split at h
    · next transcriptId turnId =>
      split at h
      · cases h
      · obtain ⟨candidate,hv,h⟩ := bind_ok h
        obtain ⟨⟨s₁,c₁,created⟩,he,h⟩ := bind_ok h
        obtain ⟨⟨s₂,target⟩,hg,h⟩ := bind_ok h
        obtain ⟨suppression,_,h⟩ := bind_ok h
        cases h
        exact ⟨transcriptId,turnId,candidate,s₁,created,target,rfl,hv,he,s₂,hg,rfl,rfl,rfl⟩
    · cases h

omit [PyRuntime] in
@[simp] theorem obligationRow_explicitAbout (c : ExplicitCommand) (t u k m d : ℕ) :
    (c.obligationRow t u k m).explicitAbout d = decide (k = d) := by
  have hk : (obligationKindFor c.operation).explicit = true := by
    unfold obligationKindFor
    split <;> rfl
  by_cases h : k = d <;> simp [ObligationRow.explicitAbout,ExplicitCommand.obligationRow,hk,h]

omit [PyRuntime] in
@[simp] theorem obligationRow_pendingExplicit (c : ExplicitCommand) (t u k m d : ℕ) :
    (c.obligationRow t u k m).pendingExplicit d = decide (k = d) := by
  rw [ObligationRow.pendingExplicit,obligationRow_explicitAbout]
  simp [ExplicitCommand.obligationRow]

theorem queueExplicitContentCommandIn_chain {c : ExplicitCommand} {source : OwnerSource} {now : Time}
    {q : Queued} (h : s.queueExplicitContentCommandIn c source now = .ok (s',q))
    (hfk : s.explicitCount s.candidates.length = 0) (hb : P.bare → s.BareIntake source) :
    Chain P s s' := by
  obtain ⟨transcriptId,turnId,candidate,s₁,created,target,rfl,hv,he,s₂,hg,hcmd,_,rfl⟩ :=
    queueExplicitContentCommandIn_cases h
  have hcore := correctionGuardRow_core hg
  refine ((enqueue_chain he).then_core hcore).trans ?_
  have hob : s₂.obligations = s₁.obligations := congrArg Core.obligations hcore
  have hca : s₂.candidates = s₁.candidates := congrArg Core.candidates hcore
  have hcount : ∀ d, s₁.explicitCount d = s.explicitCount d := by
    obtain ⟨_,_,_,_,⟨_,rfl,_⟩ | ⟨_,_,_,_,_,rfl⟩⟩ := enqueue_cases he <;> exact fun _ => rfl
  have htarget : (∃ row, s₁.candidates[q.candidateId]? = some row ∧
      row.status.reconcilable = true) ∧ (P.bare → s₁.explicitCount q.candidateId = 0) := by
    rw [hcount]
    obtain ⟨refs,hcites,_,_,⟨hr,rfl,_⟩ | ⟨_,hnew,_,_,_,rfl⟩⟩ := enqueue_cases he
    · cases proposal_cites hv hcites
      obtain ⟨row,hrow,hs,_⟩ := reconcilableByHash_spec hr
      exact ⟨⟨row,hrow,hs⟩,fun hp => hb hp turnId rfl _ hr⟩
    · rw [hnew]
      exact ⟨⟨_,List.getElem?_concat_length,rfl⟩,fun _ => hfk⟩
  refine .single (.attach q.candidateId ⟨rfl,rfl,rfl,rfl,rfl,fun d hd => ?_,?_,?_,fun hp => ?_⟩)
  · simp [explicitCount,namedCount,Ne.symm hd]
  · simp [explicitCount]
  · rw [hca]
    exact htarget.1
  · rw [explicitCount,hob]
    exact htarget.2 hp

omit [PyRuntime] in
theorem recordExplicitIntakeFailure_frame (s : Tables) (operation : String) (source : OwnerSource)
    (reason : String) (now : Time) :
    Frame s (s.recordExplicitIntakeFailure operation source reason now).1 :=
  (Quiet.addObligation rfl fun _ => rfl).frame

end Tables

variable [PyRuntime] {P : Policy} {w : State}

omit [PyRuntime] in
theorem intakeFailure_chain (operation : String) (source : OwnerSource) (reason : String) (now : Time) :
    Chain P w.data (intakeFailure w operation source reason now).1.data :=
  transact_chain fun s a h => by
    cases h
    exact (w.data.recordExplicitIntakeFailure_frame operation source reason now).chain

theorem queueExplicitContentCommand_chain (c : ExplicitCommand) (source : OwnerSource) (now : Time)
    (hfk : w.data.explicitCount w.data.candidates.length = 0)
    (hb : P.bare → w.data.BareIntake source) :
    Chain P w.data (queueExplicitContentCommand w c source now).1.data := by
  unfold queueExplicitContentCommand
  split
  · exact intakeFailure_chain _ _ _ _
  · have hq : Chain P w.data
        (transact w fun s => s.queueExplicitContentCommandIn c source now).1.data :=
      transact_chain fun s q h => Tables.queueExplicitContentCommandIn_chain h hfk hb
    split
    · next w' q h =>
      rw [h] at hq
      exact hq
    · exact intakeFailure_chain _ _ _ _

theorem remember_chain (arguments : RememberArguments) (transcriptId : Option ℕ) (now : Time)
    (hfk : w.data.explicitCount w.data.candidates.length = 0)
    (hb : P.bare → w.data.BareIntake (w.data.latestOwnerSource transcriptId)) :
    Chain P w.data (remember w arguments transcriptId now).1.data := by
  unfold remember
  extract_lets source
  split
  · exact .refl
  · split
    · exact .refl
    · exact queueExplicitContentCommand_chain _ _ now hfk hb

theorem correct_chain (arguments : CorrectArguments) (transcriptId : Option ℕ) (now : Time)
    (hfk : w.data.explicitCount w.data.candidates.length = 0)
    (hb : P.bare → w.data.BareIntake (w.data.latestOwnerSource transcriptId)) :
    Chain P w.data (correct w arguments transcriptId now).1.data := by
  unfold correct
  extract_lets source changeType
  split
  · exact .refl
  · exact .refl
  · split
    · exact .refl
    · split
      · exact .refl
      · split
        · exact intakeFailure_chain _ _ _ _
        · exact queueExplicitContentCommand_chain _ _ now hfk hb

end Memory
end Atlas
