import Mathlib.Logic.Relation
import Atlas.Memory.System

/-! The candidate automaton: the elementary changes that operations are made of, seen only
through candidates, their evidence, attempts and pending explicit obligations. -/
namespace Atlas
namespace Memory

open RowTable

/-- The statuses under which a candidate waits for a worker or is held by one. -/
def CandidateStatus.queued : CandidateStatus → Bool
  | .pending | .leased | .retainedShortTerm => true
  | _ => false

namespace Tables

/-- How many explicit obligations about a candidate are pending. -/
def explicitCount (s : Tables) (c : ℕ) : ℕ := s.obligations.countP (·.pendingExplicit c)

/-- How many explicit obligations name a candidate. -/
def namedCount (s : Tables) (c : ℕ) : ℕ := s.obligations.countP (·.explicitAbout c)

/-- Every live turn the candidate cites lies in the candidate's own transcript. -/
def Homely (s : Tables) (c : ℕ) (row : CandidateRow) : Prop :=
  ∀ e ∈ s.evidence, e.candidateId = c → ∀ t, s.turns[e.turnId]? = some t →
    t.deletedAt = none → t.transcriptId = row.sourceTranscriptId

end Tables

/-- Turns stay where they are, and a deleted turn stays deleted. -/
def TurnsKept (t t' : List TurnRow) : Prop :=
  ∀ (i : ℕ) (x : TurnRow), t[i]? = some x → ∃ x' : TurnRow, t'[i]? = some x' ∧
    x'.transcriptId = x.transcriptId ∧
    x'.actor = x.actor ∧ (x'.deletedAt = none → x.deletedAt = none)

theorem TurnsKept.refl (t : List TurnRow) : TurnsKept t t := fun _ x h => ⟨x,h,rfl,rfl,id⟩

theorem TurnsKept.trans {t t' t'' : List TurnRow} (h : TurnsKept t t') (h' : TurnsKept t' t'') :
    TurnsKept t t'' := by
  intro i x hx
  obtain ⟨x',hx',ht,ha,hd⟩ := h i x hx
  obtain ⟨x'',hx'',ht',ha',hd'⟩ := h' i x' hx'
  exact ⟨x'',hx'',ht'.trans ht,ha'.trans ha,fun hn => hd (hd' hn)⟩

theorem TurnsKept.append (t rows : List TurnRow) : TurnsKept t (t ++ rows) := by
  intro i x hx
  exact ⟨x,by rw [List.getElem?_append_left (List.getElem?_eq_some_iff.mp hx).1,hx],rfl,rfl,id⟩

/-- Attempts keep their claim; an open one was open before, at the same version. -/
structure AttemptsKept (t t' : List AttemptRow) : Prop where
  length : t'.length = t.length
  row : ∀ (i : ℕ) (x : AttemptRow), t[i]? = some x → ∃ x' : AttemptRow, t'[i]? = some x' ∧
    x'.candidateId = x.candidateId ∧
    x'.leaseToken = x.leaseToken ∧ (x'.completedAt = none →
      x.completedAt = none ∧ x'.candidateStateVersion = x.candidateStateVersion)

theorem AttemptsKept.refl (t : List AttemptRow) : AttemptsKept t t :=
  ⟨rfl,fun _ x h => ⟨x,h,rfl,rfl,fun hn => ⟨hn,rfl⟩⟩⟩

theorem AttemptsKept.trans {t t' t'' : List AttemptRow} (h : AttemptsKept t t')
    (h' : AttemptsKept t' t'') : AttemptsKept t t'' := by
  refine ⟨h'.length.trans h.length,fun i x hx => ?_⟩
  obtain ⟨x',hx',hc,hk,ho⟩ := h.row i x hx
  obtain ⟨x'',hx'',hc',hk',ho'⟩ := h'.row i x' hx'
  exact ⟨x'',hx'',hc'.trans hc,hk'.trans hk,fun hn =>
    ⟨(ho (ho' hn).1).1,(ho' hn).2.trans (ho (ho' hn).1).2⟩⟩

theorem AttemptsKept.source {t t' : List AttemptRow} (h : AttemptsKept t t') {i : ℕ}
    {x' : AttemptRow} (hx : t'[i]? = some x') : ∃ x, t[i]? = some x ∧
      x'.candidateId = x.candidateId ∧ x'.leaseToken = x.leaseToken ∧ (x'.completedAt = none →
        x.completedAt = none ∧ x'.candidateStateVersion = x.candidateStateVersion) := by
  have hi : i < t.length := h.length ▸ (List.getElem?_eq_some_iff.mp hx).1
  obtain ⟨y,hy,hr⟩ := h.row i t[i] (List.getElem?_eq_getElem hi)
  cases Option.some.inj (hx.symm.trans hy)
  exact ⟨t[i],List.getElem?_eq_getElem hi,hr⟩

/-- A map over the attempts that only closes some of them. -/
theorem AttemptsKept.map (t : List AttemptRow) (f : AttemptRow → AttemptRow)
    (h : ∀ a, (f a).candidateId = a.candidateId ∧ (f a).leaseToken = a.leaseToken ∧
      ((f a).completedAt = none → a.completedAt = none ∧
        (f a).candidateStateVersion = a.candidateStateVersion)) : AttemptsKept t (t.map f) :=
  ⟨List.length_map f,fun i x hx => ⟨f x,by rw [List.getElem?_map,hx]; rfl,h x⟩⟩

theorem AttemptsKept.modify (t : List AttemptRow) (i : ℕ) (f : AttemptRow → AttemptRow)
    (h : ∀ a, t[i]? = some a → (f a).candidateId = a.candidateId ∧
      (f a).leaseToken = a.leaseToken ∧ ((f a).completedAt = none → a.completedAt = none ∧
        (f a).candidateStateVersion = a.candidateStateVersion)) :
    AttemptsKept t (t.modify i f) := by
  refine ⟨List.length_modify ..,fun j x hx => ?_⟩
  by_cases hj : i = j
  · subst hj
    exact ⟨f x,by rw [getElem?_modify_self,hx]; rfl,h x hx⟩
  · exact ⟨x,by rw [getElem?_modify_ne t f hj,hx],rfl,rfl,fun hn => ⟨hn,rfl⟩⟩

/-- No explicit obligation is added, and none that was resolved is pending again. -/
structure ObligationsKept (t t' : List ObligationRow) : Prop where
  pending : ∀ d, t'.countP (·.pendingExplicit d) ≤ t.countP (·.pendingExplicit d)
  named : ∀ d, t'.countP (·.explicitAbout d) ≤ t.countP (·.explicitAbout d)

namespace ObligationsKept

variable {t t' t'' : List ObligationRow}

theorem refl (t : List ObligationRow) : ObligationsKept t t := ⟨fun _ => le_rfl,fun _ => le_rfl⟩

theorem trans (h : ObligationsKept t t') (h' : ObligationsKept t' t'') : ObligationsKept t t'' :=
  ⟨fun d => (h'.pending d).trans (h.pending d),fun d => (h'.named d).trans (h.named d)⟩

theorem append (t : List ObligationRow) {o : ObligationRow} (h : ∀ d, o.explicitAbout d = false) :
    ObligationsKept t (t ++ [o]) :=
  ⟨fun d => by simp [ObligationRow.pendingExplicit,h],fun d => by simp [h]⟩

end ObligationsKept

/-- An obligation keeps its kind and subject and does not become pending. -/
def ObligationRow.Keeps (o o' : ObligationRow) : Prop :=
  (∀ d, o'.explicitAbout d = o.explicitAbout d) ∧ (o'.status = .pending → o.status = .pending)

theorem ObligationRow.Keeps.pending {o o' : ObligationRow} (h : o.Keeps o') (d : ℕ)
    (hp : o'.pendingExplicit d = true) : o.pendingExplicit d = true := by
  simp only [pendingExplicit,Bool.and_eq_true,beq_iff_eq] at hp ⊢
  exact ⟨h.1 d ▸ hp.1,h.2 hp.2⟩

/-- A resolved obligation of the same kind and subject. -/
def ObligationRow.Resolves (o o' : ObligationRow) : Prop :=
  o'.status = .resolved ∧ ∀ d, o'.explicitAbout d = o.explicitAbout d

theorem ObligationRow.Resolves.keeps {o o' : ObligationRow} (h : o.Resolves o') : o.Keeps o' :=
  ⟨h.2,fun hp => by rw [h.1] at hp; cases hp⟩

theorem ObligationsKept.modify (t : List ObligationRow) (i : ℕ) (f : ObligationRow → ObligationRow)
    (h : ∀ o, t[i]? = some o → o.Keeps (f o)) : ObligationsKept t (t.modify i f) :=
  ⟨fun d => countP_modify_le fun o ho => (h o ho).pending d,
    fun d => countP_modify_le fun o ho hn => (h o ho).1 d ▸ hn⟩

theorem ObligationsKept.map (t : List ObligationRow) (f : ObligationRow → ObligationRow)
    (h : ∀ o : ObligationRow, o.Keeps (f o)) : ObligationsKept t (t.map f) :=
  ⟨fun d => countP_map_le fun o => (h o).pending d,
    fun d => countP_map_le fun o hn => (h o).1 d ▸ hn⟩

/-- What an operation is allowed to do where its guard alone does not settle it. -/
structure Policy where
  moves : CandidateStatus → CandidateStatus → Prop
  /-- No candidate gets a second pending explicit obligation or is erased with one. -/
  bare : Prop
  /-- Only candidates with all their evidence at home lose a recorded owner assertion. -/
  home : Prop

/-- What a change of a candidate row does to the attempts of that candidate. -/
inductive AttemptEffect (c : ℕ) (row row' : CandidateRow) (s s' : Tables) : Prop
  | bump : row.stateVersion < row'.stateVersion → AttemptsKept s.attempts s'.attempts →
      s'.nextToken = s.nextToken → AttemptEffect c row row' s s'
  | still : row'.stateVersion = row.stateVersion →
      (row.status ≠ .leased ∨ row.invalidatedAt ≠ none) → AttemptsKept s.attempts s'.attempts →
      s'.nextToken = s.nextToken → AttemptEffect c row row' s s'
  | work (i : ℕ) (a a' : AttemptRow) : Changes s.attempts s'.attempts i a a' →
      a.candidateId = c → a'.candidateId = a.candidateId → a'.leaseToken = a.leaseToken →
      a.completedAt = none → a.candidateStateVersion = row.stateVersion →
      a'.candidateStateVersion = row'.stateVersion → row.stateVersion < row'.stateVersion →
      row'.status = row.status → row'.leaseToken = row.leaseToken →
      s'.nextToken = s.nextToken → AttemptEffect c row row' s s'
  | close (i : ℕ) (a a' : AttemptRow) : Changes s.attempts s'.attempts i a a' →
      a.candidateId = c → a'.candidateId = a.candidateId → a'.leaseToken = a.leaseToken →
      a.completedAt = none → a'.completedAt ≠ none → a.candidateStateVersion = row.stateVersion →
      row.stateVersion ≤ row'.stateVersion → s'.nextToken = s.nextToken →
      AttemptEffect c row row' s s'
  | lease (a : AttemptRow) : s'.attempts = s.attempts ++ [a] → a.candidateId = c →
      a.leaseToken = s.nextToken → a.candidateStateVersion = row'.stateVersion →
      row.stateVersion < row'.stateVersion → row'.status = .leased →
      row'.leaseToken = some s.nextToken → s'.nextToken = s.nextToken + 1 →
      AttemptEffect c row row' s s'

/-- How the columns of a candidate row may change. -/
structure RowMove (P : Policy) (s : Tables) (c : ℕ) (row row' : CandidateRow) : Prop where
  move : row'.status = row.status ∨ P.moves row.status row'.status
  transcript : row'.sourceTranscriptId = row.sourceTranscriptId
  hash : row'.evidenceSetHash = row.evidenceSetHash
  payload : row.content = none → row.status = .invalidated →
    row'.content = none ∧ row'.status = .invalidated
  stamped : row.invalidatedAt ≠ none → row'.invalidatedAt ≠ none
  stamp : row'.invalidatedAt ≠ none → row.invalidatedAt ≠ none ∨ row'.status = .invalidated
  leased : row'.status = .leased → row.status = .leased ∨ row.invalidatedAt = none
  assertion : row'.status.queued = true → (row.status.queued = true ∧
    row'.decisionJson.ownerAssertionTurnId = row.decisionJson.ownerAssertionTurnId) ∨
      (P.home → s.Homely c row)

/-- One candidate row changes and its attempts follow. -/
structure RowChange (P : Policy) (c : ℕ) (row row' : CandidateRow) (s s' : Tables) : Prop where
  change : Changes s.candidates s'.candidates c row row'
  evidence : s'.evidence = s.evidence
  turns : s'.turns = s.turns
  obligations : ObligationsKept s.obligations s'.obligations
  columns : RowMove P s c row row'
  attempts : AttemptEffect c row row' s s'

/-- One candidate row changes, together with the settlement of its explicit obligation. -/
structure CandidateWrite (P : Policy) (c : ℕ) (row row' : CandidateRow) (s s' : Tables) : Prop
    extends RowChange P c row row' s s' where
  settled : row'.status.terminal = true → row.status.terminal = true ∨
    s'.explicitCount c ≤ s.explicitCount c - 1

/-- An owner's confirmation puts a candidate back with a new assertion turn as evidence. -/
structure Confirmation (P : Policy) (c : ℕ) (row row' : CandidateRow) (e : EvidenceRow)
    (s s' : Tables) : Prop where
  change : Changes s.candidates s'.candidates c row row'
  evidence : s'.evidence = s.evidence ++ [e]
  subject : e.candidateId = c
  turns : TurnsKept s.turns s'.turns
  freshTurn : s.turns[e.turnId]? = none
  turn : ∃ t, s'.turns[e.turnId]? = some t ∧ t.actor = .owner
  obligations : ObligationsKept s.obligations s'.obligations
  move : P.moves row.status .pending
  status : row'.status = .pending
  transcript : row'.sourceTranscriptId = row.sourceTranscriptId
  hash : ∃ h, row'.evidenceSetHash = some h ∧ h ≠ ""
  content : row.content ≠ none
  invalidatedAt : row'.invalidatedAt = row.invalidatedAt
  assertion : row'.decisionJson.ownerAssertionTurnId = some e.turnId
  home : P.home → s.Homely c row
  version : row.stateVersion < row'.stateVersion
  attempts : s'.attempts = s.attempts
  nextToken : s'.nextToken = s.nextToken

/-- A new candidate with the evidence it was accepted for. -/
structure Enqueued (row : CandidateRow) (rows : List EvidenceRow) (s s' : Tables) : Prop where
  candidates : s'.candidates = s.candidates ++ [row]
  evidence : s'.evidence = s.evidence ++ rows
  turns : s'.turns = s.turns
  attempts : s'.attempts = s.attempts
  nextToken : s'.nextToken = s.nextToken
  obligations : ObligationsKept s.obligations s'.obligations
  status : row.status = .pending
  invalidatedAt : row.invalidatedAt = none
  hash : ∃ h, row.evidenceSetHash = some h ∧ h ≠ ""
  nonempty : rows ≠ []
  cited : ∀ e ∈ rows, e.candidateId = s.candidates.length ∧
    ∃ t, s.turns[e.turnId]? = some t ∧ t.transcriptId = row.sourceTranscriptId

/-- An explicit obligation about a candidate that can still be reconciled. -/
structure Attached (P : Policy) (c : ℕ) (s s' : Tables) : Prop where
  candidates : s'.candidates = s.candidates
  evidence : s'.evidence = s.evidence
  turns : s'.turns = s.turns
  attempts : s'.attempts = s.attempts
  nextToken : s'.nextToken = s.nextToken
  others : ∀ d, d ≠ c → s'.explicitCount d ≤ s.explicitCount d ∧ s'.namedCount d ≤ s.namedCount d
  count : s'.explicitCount c ≤ s.explicitCount c + 1
  live : ∃ row, s.candidates[c]? = some row ∧ row.status.reconcilable = true
  bare : P.bare → s.explicitCount c = 0

/-- The candidates of a deleted chat, invalidated in one statement. -/
structure Erased (P : Policy) (chatId : ℕ) (now : Time) (s s' : Tables) : Prop where
  candidates : s'.candidates = s.candidates.map fun row =>
    if row.sourceTranscriptId = chatId then Tables.invalidateWithChat now row else row
  evidence : s'.evidence = s.evidence
  turns : TurnsKept s.turns s'.turns
  attempts : s'.attempts = s.attempts
  nextToken : s'.nextToken = s.nextToken
  obligations : ObligationsKept s.obligations s'.obligations
  move : ∀ row : CandidateRow, row.sourceTranscriptId = chatId → row.status = .invalidated ∨
    P.moves row.status .invalidated
  bare : P.bare → ∀ c row, s.candidates[c]? = some row → row.sourceTranscriptId = chatId →
    s.explicitCount c = 0

/-- Nothing happens to any candidate. -/
structure Frame (s s' : Tables) : Prop where
  candidates : s'.candidates = s.candidates
  evidence : s'.evidence = s.evidence
  turns : TurnsKept s.turns s'.turns
  attempts : AttemptsKept s.attempts s'.attempts
  nextToken : s'.nextToken = s.nextToken
  obligations : ObligationsKept s.obligations s'.obligations

inductive Micro (P : Policy) (s s' : Tables) : Prop
  | frame : Frame s s' → Micro P s s'
  | write (c : ℕ) (row row' : CandidateRow) : CandidateWrite P c row row' s s' → Micro P s s'
  | confirm (c : ℕ) (row row' : CandidateRow) (e : EvidenceRow) :
      Confirmation P c row row' e s s' → Micro P s s'
  | enqueue (row : CandidateRow) (rows : List EvidenceRow) : Enqueued row rows s s' → Micro P s s'
  | attach (c : ℕ) : Attached P c s s' → Micro P s s'
  | erase (chatId : ℕ) (now : Time) : Erased P chatId now s s' → Micro P s s'

/-- A run of elementary changes inside one operation. -/
abbrev Chain (P : Policy) : Tables → Tables → Prop := Relation.ReflTransGen (Micro P)

/-- The tables that candidates are judged by. -/
structure Core where
  candidates : List CandidateRow
  evidence : List EvidenceRow
  turns : List TurnRow
  attempts : List AttemptRow
  obligations : List ObligationRow
  nextToken : ℕ

def Tables.core (s : Tables) : Core :=
  ⟨s.candidates,s.evidence,s.turns,s.attempts,s.obligations,s.nextToken⟩

namespace Frame

variable {s s' s'' : Tables}

theorem refl (s : Tables) : Frame s s :=
  ⟨rfl,rfl,.refl _,.refl _,rfl,.refl _⟩

theorem trans (h : Frame s s') (h' : Frame s' s'') : Frame s s'' :=
  ⟨h'.candidates.trans h.candidates,h'.evidence.trans h.evidence,h.turns.trans h'.turns,
    h.attempts.trans h'.attempts,h'.nextToken.trans h.nextToken,
    h.obligations.trans h'.obligations⟩

theorem of_core (h : s'.core = s.core) : Frame s s' := by
  simp only [Tables.core,Core.mk.injEq] at h
  obtain ⟨hc,he,ht,ha,ho,hn⟩ := h
  exact ⟨hc,he,ht ▸ .refl _,ha ▸ .refl _,hn,ho ▸ .refl _⟩

theorem chain {P : Policy} (h : Frame s s') : Chain P s s' := .single (.frame h)

theorem setConflict (s : Tables) (id : ℕ) (f : ConflictRow → ConflictRow) :
    Frame s (s.setConflict id f) := of_core rfl

theorem setMemory (s : Tables) (id : ℕ) (f : DurableMemoryRow → DurableMemoryRow) :
    Frame s (s.setMemory id f) := of_core rfl

theorem setCommand (s : Tables) (id : ℕ) (f : CommandRow → CommandRow) :
    Frame s (s.setCommand id f) := of_core rfl

theorem setTranscript (s : Tables) (id : ℕ) (f : TranscriptRow → TranscriptRow) :
    Frame s (s.setTranscript id f) := of_core rfl

theorem addProvenance (s : Tables) (rows : List ProvenanceRow) :
    Frame s (s.addProvenance rows) := of_core rfl

theorem setObligation (s : Tables) (id : ℕ) (f : ObligationRow → ObligationRow)
    (h : ∀ o, s.obligations[id]? = some o → o.Keeps (f o)) : Frame s (s.setObligation id f) :=
  ⟨rfl,rfl,.refl _,.refl _,rfl,.modify _ _ _ h⟩

theorem setAttempt (s : Tables) (id : ℕ) (f : AttemptRow → AttemptRow)
    (h : ∀ a, s.attempts[id]? = some a → (f a).candidateId = a.candidateId ∧
      (f a).leaseToken = a.leaseToken ∧ ((f a).completedAt = none → a.completedAt = none ∧
        (f a).candidateStateVersion = a.candidateStateVersion)) : Frame s (s.setAttempt id f) :=
  ⟨rfl,rfl,.refl _,.modify _ _ _ h,rfl,.refl _⟩

end Frame

/-- A resolved obligation is not a pending explicit one. -/
theorem pendingExplicit_of_resolved {o : ObligationRow} (h : o.status = .resolved) (d : ℕ) :
    o.pendingExplicit d = false := by
  simp [ObligationRow.pendingExplicit,h]

theorem explicitAbout_of_kind {o : ObligationRow} (h : o.kind.explicit = false) (d : ℕ) :
    o.explicitAbout d = false := by
  simp [ObligationRow.explicitAbout,h]

theorem CandidateStatus.terminal_of_reconcilable {status : CandidateStatus}
    (h : status.reconcilable = true) : status.terminal = false := by
  cases status <;> simp_all [CandidateStatus.reconcilable,CandidateStatus.terminal,
    terminalResolution]

theorem RowMove.mono {P P' : Policy} (hm : ∀ a b, P.moves a b → P'.moves a b)
    (hh : P'.home → P.home) {s : Tables} {c : ℕ} {row row' : CandidateRow}
    (h : RowMove P s c row row') : RowMove P' s c row row' :=
  {h with
    move := h.move.imp_right (hm _ _)
    assertion := fun hq => (h.assertion hq).imp_right fun ha hp => ha (hh hp) }

section

variable {P : Policy} {s : Tables} {c : ℕ} {row row' : CandidateRow}

/-- Only bookkeeping columns change. -/
theorem RowMove.same (hs : row'.status = row.status) (hc : row'.content = row.content)
    (hi : row'.invalidatedAt = row.invalidatedAt) (hd : row'.decisionJson = row.decisionJson)
    (ht : row'.sourceTranscriptId = row.sourceTranscriptId)
    (hh : row'.evidenceSetHash = row.evidenceSetHash) : RowMove P s c row row' where
  move := Or.inl hs
  transcript := ht
  hash := hh
  payload hn hv := ⟨hc.trans hn,hs.trans hv⟩
  stamped hn := hi ▸ hn
  stamp hn := Or.inl (hi ▸ hn)
  leased hl := Or.inl (hs.symm.trans hl)
  assertion hq := Or.inl ⟨hs ▸ hq,by rw [hd]⟩

/-- The candidate goes to a status no worker holds. -/
theorem RowMove.leave (hv : row.status = .invalidated → row.content ≠ none)
    (hm : P.moves row.status row'.status) (hl : row'.status ≠ .leased)
    (hi : row'.invalidatedAt = row.invalidatedAt)
    (ht : row'.sourceTranscriptId = row.sourceTranscriptId)
    (hh : row'.evidenceSetHash = row.evidenceSetHash)
    (hq : row'.status.queued = true → P.home → s.Homely c row) : RowMove P s c row row' where
  move := Or.inr hm
  transcript := ht
  hash := hh
  payload hn hs := absurd hn (hv hs)
  stamped hn := hi ▸ hn
  stamp hn := Or.inl (hi ▸ hn)
  leased hs := absurd hs hl
  assertion hs := Or.inr (hq hs)

theorem RowMove.invalidate (hs : row'.status = .invalidated)
    (hm : row.status = .invalidated ∨ P.moves row.status .invalidated)
    (hc : row.content = none → row'.content = none)
    (hi : row.invalidatedAt ≠ none → row'.invalidatedAt ≠ none)
    (ht : row'.sourceTranscriptId = row.sourceTranscriptId)
    (hh : row'.evidenceSetHash = row.evidenceSetHash) : RowMove P s c row row' where
  move := hm.imp (fun h => hs.trans h.symm) fun h => hs ▸ h
  transcript := ht
  hash := hh
  payload hn _ := ⟨hc hn,hs⟩
  stamped := hi
  stamp _ := Or.inr hs
  leased hl := by rw [hs] at hl; cases hl
  assertion hq := by rw [hs] at hq; cases hq

end

theorem Micro.mono {P P' : Policy} (hm : ∀ a b, P.moves a b → P'.moves a b)
    (hb : P'.bare → P.bare) (hh : P'.home → P.home) {s s' : Tables} (h : Micro P s s') :
    Micro P' s s' := by
  cases h with
  | frame h => exact .frame h
  | write c row row' h =>
    exact .write c row row' {h with columns := h.columns.mono hm hh}
  | confirm c row row' e h =>
    exact .confirm c row row' e {h with
      move := hm _ _ h.move
      home := fun hp => h.home (hh hp) }
  | enqueue row rows h => exact .enqueue row rows h
  | attach c h => exact .attach c {h with bare := fun hp => h.bare (hb hp)}
  | erase chatId now h =>
    exact .erase chatId now {h with
      move := fun row hr => (h.move row hr).imp_right (hm _ _)
      bare := fun hp => h.bare (hb hp) }

theorem Chain.mono {P P' : Policy} (hm : ∀ a b, P.moves a b → P'.moves a b)
    (hb : P'.bare → P.bare) (hh : P'.home → P.home) {s s' : Tables} (h : Chain P s s') :
    Chain P' s s' :=
  Relation.ReflTransGen.mono (fun _ _ => Micro.mono hm hb hh) _ _ h

/-- Changes of other tables at the end of a run. -/
theorem Chain.then_core {P : Policy} {s s' s'' : Tables} (h : Chain P s s')
    (hc : s''.core = s'.core) : Chain P s s'' := h.trans (Frame.of_core hc).chain

/-- A property that every elementary change keeps is kept by a run of them. -/
theorem Chain.invariant {P : Policy} {I : Tables → Prop}
    (hI : ∀ s s', I s → Micro P s s' → I s') {s s' : Tables} (h : Chain P s s') (hs : I s) :
    I s' := by
  induction h with
  | refl => exact hs
  | tail _ hm ih => exact hI _ _ ih hm

end Memory
end Atlas
