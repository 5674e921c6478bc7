import Atlas.Memory.ConflictRows
import Atlas.Memory.EvidenceSets
import Atlas.Memory.DurableRows
import Mathlib.Algebra.Order.Ring.Nat

/-! The version the owner presents with a decision on a conflict: a digest over everything that was
shown, from which what was shown can be read back. -/
namespace Atlas
namespace Memory

open RowTable Numerals

/-- What the owner is shown of a conflict. -/
structure ConflictProjection where
  conflictId : ℕ
  conflictStatus : String
  targetMemoryId : ℕ
  targetContent : Option String
  targetAuthority : Option String
  competingClaim : Option String
  reasonCode : Option String
  candidateId : ℕ
  candidateOrigin : Option String
  reviewVersion : Option String
  resolutionOptions : List String
  deriving Repr, DecidableEq

/-- `clean_memory_content(value) if value else None`. -/
def cleanedOrNone [PyRuntime] (value : Option String) : Except Failure (Option String) :=
  match value.bind orNone with
  | none => .ok none
  | some text => (cleanMemoryContent (some text) "content").map some

/-- The version shown of a conflict that the owner may decide. -/
def shownVersion [PyRuntime] (conflictId : ℕ) (conflict : ConflictRow)
    (active : Option DurableMemoryRow) (candidate : Option CandidateRow) :
    Except Failure (Option String) :=
  match active with
  | none => .ok none
  | some target =>
      if conflict.resolvable then
        (conflictReviewVersion conflictId conflict target candidate).map some
      else .ok none

/-- `_conflict_projection`; `none` is the empty projection. -/
def Tables.conflictProjection [PyRuntime] (s : Tables) (row : ObligationRow) :
    Except Failure (Option ConflictProjection) :=
  match row.subjectId.bind fun id => (s.conflicts[id]?).map fun c => (id,c) with
  | none => .ok none
  | some (conflictId,conflict) => do
      let target := s.memories[conflict.targetMemoryId]?
      let candidate := s.candidates[conflict.candidateId]?
      let active := target.filter fun m => m.status == .active && m.content.isSome
      let version ← shownVersion conflictId conflict active candidate
      let targetContent ← cleanedOrNone (target.bind (·.content))
      let competing ← cleanedOrNone conflict.proposedContent
      .ok (some
        { conflictId := conflictId
          conflictStatus := conflict.status
          targetMemoryId := conflict.targetMemoryId
          targetContent := targetContent
          targetAuthority := target.map fun m =>
            if m.ownerDirected then "owner_directed" else "derived"
          competingClaim := competing
          reasonCode := conflict.reasonCode
          candidateId := conflict.candidateId
          candidateOrigin := candidate.map (·.origin)
          reviewVersion := version
          resolutionOptions := if conflict.resolvable && active.isSome then
              ["accept_competing","keep_current","restate"]
            else [] })

section

variable [PyRuntime]

/-- The text of `conflict_review_version` before it is digested. -/
def conflictReviewText (id : ℕ) (conflict : ConflictRow) (target : DurableMemoryRow)
    (candidate : Option CandidateRow) (targetText competing : String) : String :=
  "memory_conflict" ++ ":" ++ toString id ++ ":" ++
    (conflict.status ++ ":" ++ target.status.value ++ ":" ++ target.groundingStatus.value ++ ":" ++
      orEmpty target.fingerprint ++ ":" ++ PyRuntime.isoformat target.updatedAt ++ ":" ++
      ((candidate.map (·.status.value)).getD "") ++ ":" ++
      toString ((candidate.map (·.stateVersion)).getD 0)) ++ ":" ++
    (targetText ++ "\n---\n" ++ competing)

theorem conflictReviewVersion_ok {id : ℕ} {conflict : ConflictRow} {target : DurableMemoryRow}
    {candidate : Option CandidateRow} {version : String}
    (h : conflictReviewVersion id conflict target candidate = .ok version) :
    ∃ targetText competing, cleanedOrEmpty target.content = .ok targetText ∧
      cleanedOrEmpty conflict.proposedContent = .ok competing ∧
      version = PyRuntime.sha256
        (conflictReviewText id conflict target candidate targetText competing) := by
  obtain ⟨targetText,ht,h⟩ := bind_ok h
  obtain ⟨competing,hc,h⟩ := bind_ok h
  cases h
  exact ⟨targetText,competing,ht,hc,rfl⟩

/-- Digests are hexadecimal, and timestamps are told apart by texts of one shape. -/
structure PlainTexts : Prop where
  digest : ∀ text, ':' ∉ (PyRuntime.sha256 text).toList
  shape : ∀ t t', (PyRuntime.isoformat t).toList.count ':' = (PyRuntime.isoformat t').toList.count ':'
  instants : ∀ t t', PyRuntime.isoformat t = PyRuntime.isoformat t' → t = t'

/-- What a decision depends on: the state of a conflict, its target and its candidate, and both
wordings as the owner reads them. -/
structure ReviewState where
  conflictId : ℕ
  conflictStatus : String
  targetStatus : MemoryStatus
  groundingStatus : Grounding
  updatedAt : Time
  candidate : Option (CandidateStatus × ℕ)
  targetText : String
  competing : String

def reviewState (id : ℕ) (conflict : ConflictRow) (target : DurableMemoryRow)
    (candidate : Option CandidateRow) (targetText competing : String) : ReviewState :=
  ⟨id,conflict.status,target.status,target.groundingStatus,target.updatedAt,
    candidate.map fun c => (c.status,c.stateVersion),targetText,competing⟩

omit [PyRuntime] in
theorem count_colon_eq_zero {text : String} (h : ':' ∉ text.toList) : text.toList.count ':' = 0 :=
  List.count_eq_zero.mpr h

omit [PyRuntime] in
theorem status_colon (status : CandidateStatus) : ':' ∉ status.value.toList := by
  cases status <;> decide

omit [PyRuntime] in
theorem candidateState_colon (candidate : Option CandidateRow) :
    ':' ∉ ((candidate.map (·.status.value)).getD "").toList := by
  cases candidate with
  | none => decide
  | some c => exact status_colon c.status

omit [PyRuntime] in
theorem resolvable_colon {k : ConflictRow} (h : k.resolvable = true) : ':' ∉ k.status.toList := by
  simp only [ConflictRow.resolvable,Bool.or_eq_true,beq_iff_eq] at h
  rcases h with h | h <;> (rw [h]; decide)

omit [PyRuntime] in
theorem status_injective {a b : CandidateStatus} (h : a.value = b.value) : a = b := by
  revert h
  cases a <;> cases b <;> decide

omit [PyRuntime] in
theorem status_ne_empty (a : CandidateStatus) : a.value ≠ "" := by
  cases a <;> decide

omit [PyRuntime] in
theorem candidateState_injective {a b : Option CandidateRow}
    (hs : (a.map (·.status.value)).getD "" = (b.map (·.status.value)).getD "")
    (hv : (a.map (·.stateVersion)).getD 0 = (b.map (·.stateVersion)).getD 0) :
    a.map (fun c => (c.status,c.stateVersion)) = b.map fun c => (c.status,c.stateVersion) := by
  cases a with
  | none =>
    cases b with
    | none => rfl
    | some b => exact absurd hs.symm (status_ne_empty b.status)
  | some a =>
    cases b with
    | none => exact absurd hs (status_ne_empty a.status)
    | some b =>
      have hstatus : a.status = b.status := status_injective hs
      have hversion : a.stateVersion = b.stateVersion := hv
      simp only [Option.map_some,hstatus,hversion]

theorem toList_conflictReviewText (id : ℕ) (conflict : ConflictRow) (target : DurableMemoryRow)
    (candidate : Option CandidateRow) (targetText competing : String) :
    (conflictReviewText id conflict target candidate targetText competing).toList =
      "memory_conflict".toList ++ ':' :: ((toString id).toList ++ ':' :: (conflict.status.toList ++
        ':' :: (target.status.value.toList ++ ':' :: (target.groundingStatus.value.toList ++
          ':' :: ((orEmpty target.fingerprint).toList ++
            ':' :: ((PyRuntime.isoformat target.updatedAt).toList ++
              ':' :: (((candidate.map (·.status.value)).getD "").toList ++
                ':' :: ((toString ((candidate.map (·.stateVersion)).getD 0)).toList ++
                  ':' :: (targetText.toList ++ '\n' :: ("---\n".toList ++ competing.toList)))))))))) := by
  unfold conflictReviewText
  generalize PyRuntime.isoformat target.updatedAt = instant
  generalize toString id = number
  generalize (candidate.map (·.status.value)).getD "" = status
  generalize toString ((candidate.map (·.stateVersion)).getD 0) = version
  generalize orEmpty target.fingerprint = fingerprint
  have hcolon : ":".toList = [':'] := rfl
  have hline : "\n---\n".toList = '\n' :: "---\n".toList := rfl
  simp only [String.toList_append,List.append_assoc,hcolon,hline,List.cons_append,List.nil_append]

/-- A digested text tells everything a decision depends on. -/
theorem conflictReviewText_injective (hp : PlainTexts) {id id' : ℕ} {k k' : ConflictRow}
    {m m' : DurableMemoryRow} {candidate candidate' : Option CandidateRow} {t c t' c' : String}
    (hk : k.resolvable = true) (hk' : k'.resolvable = true)
    (hf : ':' ∉ (orEmpty m.fingerprint).toList) (hf' : ':' ∉ (orEmpty m'.fingerprint).toList)
    (ht : '\n' ∉ t.toList) (ht' : '\n' ∉ t'.toList)
    (h : conflictReviewText id k m candidate t c = conflictReviewText id' k' m' candidate' t' c') :
    reviewState id k m candidate t c = reviewState id' k' m' candidate' t' c' := by
  have hl := congrArg String.toList h
  rw [toList_conflictReviewText,toList_conflictReviewText] at hl
  have plain : ∀ {x y : String}, ':' ∉ x.toList → ':' ∉ y.toList →
      x.toList.count ':' = y.toList.count ':' := fun hx hy =>
    (count_colon_eq_zero hx).trans (count_colon_eq_zero hy).symm
  have hnumber : ∀ n : ℕ, ':' ∉ (toString n).toList := fun n => not_mem_toString (by decide)
  have hstatus : ∀ a : MemoryStatus, ':' ∉ a.value.toList := fun a => by cases a <;> decide
  have hgrounding : ∀ a : Grounding, ':' ∉ a.value.toList := fun a => by cases a <;> decide
  obtain ⟨_,hl⟩ := Lines.append_cons_inj hl rfl
  obtain ⟨hid,hl⟩ := Lines.append_cons_inj hl (plain (hnumber _) (hnumber _))
  obtain ⟨hcs,hl⟩ := Lines.append_cons_inj hl (plain (resolvable_colon hk) (resolvable_colon hk'))
  obtain ⟨hms,hl⟩ := Lines.append_cons_inj hl (plain (hstatus _) (hstatus _))
  obtain ⟨hgs,hl⟩ := Lines.append_cons_inj hl (plain (hgrounding _) (hgrounding _))
  obtain ⟨_,hl⟩ := Lines.append_cons_inj hl (plain hf hf')
  obtain ⟨hiso,hl⟩ := Lines.append_cons_inj hl (hp.shape _ _)
  obtain ⟨hcand,hl⟩ := Lines.append_cons_inj hl
    (plain (candidateState_colon _) (candidateState_colon _))
  obtain ⟨hver,hl⟩ := Lines.append_cons_inj hl (plain (hnumber _) (hnumber _))
  obtain ⟨htext,hl⟩ := Lines.append_cons_inj hl
    ((List.count_eq_zero.mpr ht).trans (List.count_eq_zero.mpr ht').symm)
  have hcompeting := List.append_cancel_left hl
  have hstatus' : m.status = m'.status := by
    have := String.toList_inj.mp hms
    revert this
    cases m.status <;> cases m'.status <;> decide
  have hgrounding' : m.groundingStatus = m'.groundingStatus := by
    have := String.toList_inj.mp hgs
    revert this
    cases m.groundingStatus <;> cases m'.groundingStatus <;> decide
  rw [reviewState,reviewState,toString_injective (String.toList_inj.mp hid),
    String.toList_inj.mp hcs,hstatus',hgrounding',hp.instants _ _ (String.toList_inj.mp hiso),
    candidateState_injective (String.toList_inj.mp hcand)
      (toString_injective (String.toList_inj.mp hver)),
    String.toList_inj.mp htext,String.toList_inj.mp hcompeting]

omit [PyRuntime] in
theorem mem_intercalate_cases {c : Char} {sep : List Char} {ws : List (List Char)}
    (h : c ∈ sep.intercalate ws) : c ∈ sep ∨ ∃ w ∈ ws, c ∈ w := by
  induction ws with
  | nil => exact absurd h List.not_mem_nil
  | cons v ws ih =>
    cases ws with
    | nil => exact Or.inr ⟨v,List.mem_singleton_self v,by simpa using h⟩
    | cons u ws =>
      rw [List.intercalate_cons_cons] at h
      rcases List.mem_append.mp h with h | h
      · rcases List.mem_append.mp h with h | h
        · exact Or.inr ⟨v,List.mem_cons_self,h⟩
        · exact Or.inl h
      · exact (ih h).imp_right fun ⟨w,hw,hc⟩ => ⟨w,List.mem_cons_of_mem _ hw,hc⟩

omit [PyRuntime] in
/-- A cleaned text is one line. -/
theorem normalizeSpace_line (s : String) : '\n' ∉ (normalizeSpace s).toList := by
  intro h
  rw [normalizeSpace,String.toList_intercalate] at h
  rcases mem_intercalate_cases h with h | ⟨w,hw,h⟩
  · exact absurd h (by decide)
  · obtain ⟨v,hv,rfl⟩ := List.mem_map.mp hw
    obtain ⟨u,hu,rfl⟩ := List.mem_map.mp hv
    rw [String.toList_ofList] at h
    exact absurd ((splitWords_words [] s.toList (by simp) u hu).2 _ h) (by decide)

omit [PyRuntime] in
theorem cleanedOrEmpty_line {value : Option String} {text : String}
    (h : cleanedOrEmpty value = .ok text) : '\n' ∉ text.toList := by
  unfold cleanedOrEmpty at h
  split at h
  · cases h
    decide
  · unfold cleanMemoryContent at h
    extract_lets content at h
    split at h
    · cases h
    · split at h
      · cases h
      · rw [← Except.ok.inj h]
        exact normalizeSpace_line _

namespace Tables

/-- A reading of a conflict with its target, its candidate and both cleaned wordings. -/
def reading {β : Type} (s : Tables) (c : ℕ) (f : ConflictRow → DurableMemoryRow →
    Option CandidateRow → String → String → β) : Option β :=
  (s.conflicts[c]?).bind fun k => (s.memories[k.targetMemoryId]?).bind fun m =>
    match cleanedOrEmpty m.content,cleanedOrEmpty k.proposedContent with
    | .ok targetText,.ok competing => some (f k m s.candidates[k.candidateId]? targetText competing)
    | _,_ => none

/-- What a decision on the conflict depends on. -/
def reviewed (s : Tables) (c : ℕ) : Option ReviewState := s.reading c (reviewState c)

/-- The text that is digested for the conflict. -/
def reviewText (s : Tables) (c : ℕ) : Option String := s.reading c (conflictReviewText c)

/-- A conflict the owner may decide, with the version to present. -/
structure Reviewable (s : Tables) (c : ℕ) (k : ConflictRow) (m : DurableMemoryRow) (version : String) :
    Prop where
  conflict : s.conflicts[c]? = some k
  resolvable : k.resolvable = true
  target : s.memories[k.targetMemoryId]? = some m
  active : m.status = .active ∧ m.content.isSome = true
  version : conflictReviewVersion c k m s.candidates[k.candidateId]? = .ok version

variable {s s' : Tables}

/-- A projection shows a version only for a conflict the owner may decide. -/
theorem conflictProjection_reviewable {row : ObligationRow} {p : ConflictProjection}
    {version : String} (h : s.conflictProjection row = .ok (some p))
    (hv : p.reviewVersion = some version) : ∃ k m, s.Reviewable p.conflictId k m version := by
  unfold conflictProjection at h
  split at h
  · cases h
  · next conflictId conflict hsubject =>
    have hk : s.conflicts[conflictId]? = some conflict := by
      obtain ⟨id,_,hid⟩ := Option.bind_eq_some_iff.mp hsubject
      obtain ⟨k,hk,he⟩ := Option.map_eq_some_iff.mp hid
      cases he
      exact hk
    obtain ⟨shown,hshown,h⟩ := bind_ok h
    obtain ⟨targetContent,_,h⟩ := bind_ok h
    obtain ⟨competing,_,h⟩ := bind_ok h
    cases h
    dsimp only at hv ⊢
    subst hv
    unfold shownVersion at hshown
    split at hshown
    · cases hshown
    · next m hm =>
      obtain ⟨hm,hactive⟩ := Option.filter_eq_some_iff.mp hm
      split at hshown
      · next hr =>
        obtain ⟨x,hx,hsome⟩ := map_ok hshown
        cases hsome
        exact ⟨conflict,m,hk,hr,hm,by simpa using hactive,hx⟩
      · cases hshown

theorem Reviewable.reading {c : ℕ} {k : ConflictRow} {m : DurableMemoryRow} {version : String}
    (h : s.Reviewable c k m version) : ∃ targetText competing,
      cleanedOrEmpty m.content = .ok targetText ∧
      (∀ {β : Type} (f : ConflictRow → DurableMemoryRow → Option CandidateRow → String → String → β),
        s.reading c f = some (f k m s.candidates[k.candidateId]? targetText competing)) ∧
      version = PyRuntime.sha256
        (conflictReviewText c k m s.candidates[k.candidateId]? targetText competing) := by
  obtain ⟨targetText,competing,ht,hc,hv⟩ := conflictReviewVersion_ok h.version
  refine ⟨targetText,competing,ht,fun f => ?_,hv⟩
  simp only [Tables.reading,h.conflict,h.target,Option.bind_some,ht,hc]

theorem fingerprint_colon (hp : PlainTexts) (hs : Shaped s.memories) {i : ℕ}
    {m : DurableMemoryRow} (hm : s.memories[i]? = some m) (ha : m.status = .active) :
    ':' ∉ (orEmpty m.fingerprint).toList := by
  obtain ⟨content,_,hf⟩ := hs.payload i m hm (by rw [ha]; nofun)
  rw [hf]
  exact hp.digest _

/-- Two readings of one version are of one conflict, and show the same. -/
theorem Reviewable.same (hp : PlainTexts) (hs : Shaped s.memories) (hs' : Shaped s'.memories)
    {c c' : ℕ} {k k' : ConflictRow} {m m' : DurableMemoryRow} {version : String}
    (h : s.Reviewable c k m version) (h' : s'.Reviewable c' k' m' version)
    (hfree : ∀ x y, s.reviewText c = some x → s'.reviewText c' = some y →
      PyRuntime.sha256 x = PyRuntime.sha256 y → x = y) :
    c = c' ∧ ∃ state, s.reviewed c = some state ∧ s'.reviewed c = some state := by
  obtain ⟨t,q,ht,hread,hv⟩ := h.reading
  obtain ⟨t',q',ht',hread',hv'⟩ := h'.reading
  have htext := hfree _ _ (hread _) (hread' _) (hv.symm.trans hv')
  have hstate := conflictReviewText_injective hp h.resolvable h'.resolvable
    (fingerprint_colon hp hs h.target h.active.1) (fingerprint_colon hp hs' h'.target h'.active.1)
    (cleanedOrEmpty_line ht) (cleanedOrEmpty_line ht') htext
  have hid : c = c' := congrArg ReviewState.conflictId hstate
  subst hid
  exact ⟨rfl,_,hread _,(hread' _).trans (congrArg some hstate.symm)⟩

end Tables

end

/-- A runtime whose digests are decimal, as real ones are hexadecimal. -/
@[reducible] def digitRuntime : PyRuntime where
  casefold s := String.ofList (s.toList.map Char.toLower)
  sha256 s :=
    let n := s.toList.foldl (fun n c => (n * 1000003 + c.toNat) % 10 ^ 64) 7
    String.ofList ((List.range 64).map fun i => Nat.digitChar (n / 10 ^ i % 10))
  sha256_length s := by
    rw [String.length_ofList,List.length_map,List.length_range]
  sameLetter a b := a.toLower == b.toLower
  dumps _ value := value.plainText
  isoformat n := toString n
  validationText field := field

/-- The same runtime, with texts decoded in one pass. -/
@[reducible] def bytewiseDigitRuntime : PyRuntime := {digitRuntime with
  casefold := fun s => String.ofList ((bytewise s).map Char.toLower)
  sha256 := fun s =>
    let n := (bytewise s).foldl (fun n c => (n * 1000003 + c.toNat) % 10 ^ 64) 7
    String.ofList ((List.range 64).map fun i => Nat.digitChar (n / 10 ^ i % 10))
  sha256_length := fun s => by
    simp only [bytewise_eq]
    exact digitRuntime.sha256_length s}

theorem digitRuntime_eq : digitRuntime = bytewiseDigitRuntime := by
  simp only [digitRuntime,bytewiseDigitRuntime,bytewise_eq]
  rfl

theorem digitRuntime_plainTexts : @PlainTexts digitRuntime := by
  refine @PlainTexts.mk digitRuntime (fun text h => ?_) (fun t t' => ?_) fun _ _ h =>
    toString_injective h
  · have hdigit : ∀ d < 10, Nat.digitChar d ≠ ':' := by decide
    have hmem : ':' ∈ (String.ofList _).toList := h
    rw [String.toList_ofList] at hmem
    obtain ⟨i,_,hi⟩ := List.mem_map.mp hmem
    exact hdigit _ (Nat.mod_lt _ (by decide)) hi
  · have hnone : ∀ n : ℕ, (toString n).toList.count ':' = 0 := fun n =>
      List.count_eq_zero.mpr (not_mem_toString (by decide))
    exact (hnone t).trans (hnone t').symm

end Memory
end Atlas
