import Atlas.Lib.Frontier
import Atlas.Memory.PurgeSteps

/-! The two walks of a deletion through the provenance graph. The first stays within what the
second reaches, and the second is closed under derivation from memories and candidates. -/
namespace Atlas
namespace Memory

open RowTable

namespace Tables

/-- A memory that its own live owner assertion keeps out of a cascade. -/
def Barrier (s : Tables) (never : List ℕ) (m : ℕ) : Prop :=
  m ∉ never ∧ ∃ row, s.memories[m]? = some row ∧ row.status ≠ .deleted ∧
    row.groundingStatus = .verified ∧ ∃ turnId, row.ownerAssertionTurnId = some turnId ∧
      ∃ turn, s.turns[turnId]? = some turn ∧ turn.deletedAt = none

variable {s : Tables} {never : List ℕ}

theorem mem_newMembers {seen new : List ℕ} {i : ℕ} : i ∈ newMembers seen new ↔ i ∈ new ∧ i ∉ seen := by
  simp [newMembers,mem_firstOccurrences]

theorem mem_addMembers {seen new : List ℕ} {i : ℕ} :
    i ∈ addMembers seen new ↔ i ∈ seen ∨ i ∈ new := by
  simp only [addMembers,List.mem_append,mem_newMembers]
  tauto

theorem mem_independentOwnerGroundedIds {ids : List ℕ} {m : ℕ} :
    m ∈ s.independentOwnerGroundedIds ids never ↔ m ∈ ids ∧ s.Barrier never m := by
  simp only [independentOwnerGroundedIds,List.mem_filter,mem_newMembers,Barrier,
    Option.any_eq_true,Bool.and_eq_true,bne_iff_ne,beq_iff_eq,Option.isNone_iff_eq_none]
  constructor
  · rintro ⟨⟨hm,hn⟩,row,hrow,⟨hs,hg⟩,turnId,ht,hturn⟩
    exact ⟨hm,hn,row,hrow,hs,hg,turnId,ht,hturn⟩
  · rintro ⟨hm,hn,row,hrow,hs,hg,turnId,ht,hturn⟩
    exact ⟨⟨hm,hn⟩,row,hrow,⟨hs,hg⟩,turnId,ht,hturn⟩

/-- The found memories that are no barriers. -/
theorem mem_fresh {found : List ℕ} {m : ℕ} :
    m ∈ found.filter (fun id => !(s.independentOwnerGroundedIds found never).contains id) ↔
      m ∈ found ∧ ¬s.Barrier never m := by
  simp only [List.mem_filter,Bool.not_eq_true',List.contains_eq_mem,decide_eq_false_iff_not,
    mem_independentOwnerGroundedIds]
  tauto

/-- A barrier of a later store, with the same memories and no turn revived, was one before. -/
theorem Barrier.before {t : Tables} (hm : t.memories = s.memories) (ht : TurnsKept s.turns t.turns)
    (hlen : t.turns.length = s.turns.length) {m : ℕ} (h : t.Barrier never m) :
    s.Barrier never m := by
  obtain ⟨hn,row,hrow,hs,hg,turnId,hid,turn,hturn,hlive⟩ := h
  have hx := List.getElem?_eq_getElem (l := s.turns)
    (hlen ▸ (List.getElem?_eq_some_iff.mp hturn).1)
  obtain ⟨x',hx',_,_,hd⟩ := ht turnId _ hx
  cases Option.some.inj (hx'.symm.trans hturn)
  exact ⟨hn,row,hm ▸ hrow,hs,hg,turnId,hid,_,hx,hd hlive⟩

/-- What the first walk found: memories derived from the target through memories that are no
barriers, and the barriers next to them. -/
structure Descent (s : Tables) (initial never seen preserved : List ℕ) : Prop where
  start : ∀ m ∈ initial, m ∈ seen
  walked : ∀ m ∈ seen, m ∈ initial ∨ ¬s.Barrier never m
  stopped : ∀ m ∈ preserved, ∃ p ∈ s.provenance, p.memoryId = m ∧
    ∃ d ∈ seen, p.sourceMemoryId = some d

theorem memoryDescendantsLoop_descent {initial : List ℕ} (fuel : ℕ) {seen preserved queue : List ℕ}
    {seen' preserved' : List ℕ} (hq : ∀ m ∈ queue, m ∈ seen)
    (h : Descent s initial never seen preserved)
    (hr : s.memoryDescendantsLoop never fuel seen preserved queue = .ok (seen',preserved')) :
    Descent s initial never seen' preserved' := by
  induction fuel generalizing seen preserved queue with
  | zero =>
    cases hr
    exact h
  | succ fuel ih =>
    cases queue with
    | nil =>
      cases hr
      exact h
    | cons m queue =>
      unfold memoryDescendantsLoop at hr
      extract_lets batch rest found barriers fresh at hr
      split at hr
      · cases hr
      · refine ih (fun x hx => ?_) ⟨fun x hx => ?_,fun x hx => ?_,fun x hx => ?_⟩ hr
        · rcases List.mem_append.mp hx with hx | hx
          · exact List.mem_append_left _ (hq x (List.mem_of_mem_drop hx))
          · exact List.mem_append_right _ hx
        · exact List.mem_append_left _ (h.start x hx)
        · rcases List.mem_append.mp hx with hx | hx
          · exact h.walked x hx
          · exact Or.inr (mem_fresh.mp hx).2
        · rcases mem_addMembers.mp hx with hx | hx
          · obtain ⟨p,hp,hpm,d,hd,hs⟩ := h.stopped x hx
            exact ⟨p,hp,hpm,d,List.mem_append_left _ hd,hs⟩
          · have hfound := (mem_newMembers.mp (mem_independentOwnerGroundedIds.mp hx).1).1
            obtain ⟨p,hp,hpm⟩ := List.mem_map.mp hfound
            obtain ⟨hp,hsrc⟩ := List.mem_filter.mp hp
            obtain ⟨d,hs,hd⟩ := (Option.any_eq_true _ _).mp hsrc
            refine ⟨p,hp,hpm,d,List.mem_append_left _ (hq d ?_),hs⟩
            exact List.mem_of_mem_take (List.contains_iff_mem.mp hd)

theorem memoryDescendants_descent {initial seen preserved : List ℕ}
    (h : s.memoryDescendants initial never = .ok (seen,preserved)) :
    Descent s initial never seen preserved :=
  memoryDescendantsLoop_descent _ (fun _ hm => hm)
    ⟨fun _ hm => hm,fun _ hm => Or.inl hm,fun _ hm => absurd hm List.not_mem_nil⟩ h

/-- What the second walk found: all that derives from the roots, the candidates and the memories
it reached, the barriers apart. -/
structure Dependents (s : Tables) (roots candidateIds never seen preserved : List ℕ) : Prop where
  start : ∀ m ∈ roots, m ∈ seen ∨ m ∈ preserved
  memory : ∀ p ∈ s.provenance, ∀ d ∈ seen, p.sourceMemoryId = some d →
    p.memoryId ∈ seen ∨ p.memoryId ∈ preserved
  candidate : ∀ p ∈ s.provenance, ∀ c ∈ candidateIds, p.sourceCandidateId = some c →
    p.memoryId ∈ seen ∨ p.memoryId ∈ preserved
  barriers : ∀ m ∈ preserved, s.Barrier never m

/-- The second walk between two rounds: what has left the frontier is explored. -/
structure Explored (s : Tables) (roots candidateIds never seen preserved memories candidates :
    List ℕ) : Prop where
  frontier : ∀ m ∈ memories, m ∈ seen
  start : ∀ m ∈ roots, m ∈ seen ∨ m ∈ preserved
  memory : ∀ p ∈ s.provenance, ∀ d ∈ seen, d ∉ memories → p.sourceMemoryId = some d →
    p.memoryId ∈ seen ∨ p.memoryId ∈ preserved
  candidate : ∀ p ∈ s.provenance, ∀ c ∈ candidateIds, c ∉ candidates →
    p.sourceCandidateId = some c → p.memoryId ∈ seen ∨ p.memoryId ∈ preserved
  barriers : ∀ m ∈ preserved, s.Barrier never m

variable {roots candidateIds seen preserved memories candidates : List ℕ}

theorem Explored.done (h : Explored s roots candidateIds never seen preserved [] []) :
    Dependents s roots candidateIds never seen preserved where
  start := h.start
  memory p hp d hd hs := h.memory p hp d hd List.not_mem_nil hs
  candidate p hp c hc hs := h.candidate p hp c hc List.not_mem_nil hs
  barriers := h.barriers

/-- The provenance rows that lead out of a frontier. -/
def leading (s : Tables) (memories candidates : List ℕ) : List ProvenanceRow :=
  s.provenance.filter fun p =>
    p.sourceMemoryId.any memories.contains || p.sourceCandidateId.any candidates.contains

theorem mem_leading {p : ProvenanceRow} : p ∈ s.leading memories candidates ↔ p ∈ s.provenance ∧
    ((∃ d ∈ memories, p.sourceMemoryId = some d) ∨
      ∃ c ∈ candidates, p.sourceCandidateId = some c) := by
  simp only [leading,List.mem_filter,Bool.or_eq_true,Option.any_eq_true,List.contains_eq_mem,
    decide_eq_true_eq]
  refine and_congr_right fun _ => or_congr ?_ ?_
  · exact ⟨fun ⟨d,hs,hd⟩ => ⟨d,hd,hs⟩,fun ⟨d,hd,hs⟩ => ⟨d,hs,hd⟩⟩
  · exact ⟨fun ⟨d,hs,hd⟩ => ⟨d,hd,hs⟩,fun ⟨d,hd,hs⟩ => ⟨d,hs,hd⟩⟩

/-- One round of the second walk. -/
theorem dependentMemoryClosureLoop_round (fuel : ℕ) (h : memories = [] → candidates = [] → False) :
    s.dependentMemoryClosureLoop never (fuel + 1) seen preserved memories candidates =
      let found := newMembers (seen ++ preserved) ((s.leading memories candidates).map (·.memoryId))
      let barriers := s.independentOwnerGroundedIds found never
      let fresh := found.filter fun id => !barriers.contains id
      if safetyBound < seen.length + fresh.length then .error safetyFailure
      else s.dependentMemoryClosureLoop never fuel (seen ++ fresh) (addMembers preserved barriers) fresh
        (((s.leading memories candidates).filter fun p =>
          fresh.contains p.memoryId).filterMap (·.sourceCandidateId)) :=
  dependentMemoryClosureLoop.eq_3 s never seen preserved memories candidates fuel h

/-- Every row that leads out of the frontier has its target met by the round. -/
theorem leading_met {p : ProvenanceRow} (hp : p ∈ s.leading memories candidates) {found : List ℕ}
    (hf : found = newMembers (seen ++ preserved) ((s.leading memories candidates).map (·.memoryId))) :
    p.memoryId ∈ seen ++ found.filter (fun id =>
        !(s.independentOwnerGroundedIds found never).contains id) ∨
      p.memoryId ∈ addMembers preserved (s.independentOwnerGroundedIds found never) := by
  rw [List.mem_append,mem_fresh,mem_addMembers,mem_independentOwnerGroundedIds]
  by_cases hmet : p.memoryId ∈ seen ++ preserved
  · rcases List.mem_append.mp hmet with hm | hm
    · exact Or.inl (Or.inl hm)
    · exact Or.inr (Or.inl hm)
  · have hfound : p.memoryId ∈ found := by
      rw [hf]
      exact mem_newMembers.mpr ⟨List.mem_map_of_mem hp,hmet⟩
    by_cases hb : s.Barrier never p.memoryId
    · exact Or.inr (Or.inr ⟨hfound,hb⟩)
    · exact Or.inl (Or.inr ⟨hfound,hb⟩)

theorem dependentMemoryClosureLoop_dependents (fuel : ℕ) {seen preserved memories candidates : List ℕ}
    {seen' preserved' : List ℕ}
    (h : Explored s roots candidateIds never seen preserved memories candidates)
    (hfuel : (memories = [] ∧ candidates = []) ∨
      Frontier.unmet s.provenance (·.memoryId) (seen ++ preserved) < fuel)
    (hr : s.dependentMemoryClosureLoop never fuel seen preserved memories candidates =
      .ok (seen',preserved')) : Dependents s roots candidateIds never seen' preserved' := by
  induction fuel generalizing seen preserved memories candidates with
  | zero =>
    cases hr
    obtain ⟨rfl,rfl⟩ | hlt := hfuel
    · exact h.done
    · exact absurd hlt (Nat.not_lt_zero _)
  | succ fuel ih =>
    by_cases hempty : memories = [] ∧ candidates = []
    · obtain ⟨rfl,rfl⟩ := hempty
      cases hr
      exact h.done
    · have hlt := hfuel.resolve_left hempty
      rw [dependentMemoryClosureLoop_round fuel fun hm hc => hempty ⟨hm,hc⟩] at hr
      extract_lets found barriers fresh at hr
      have hfresh : ∀ m, m ∈ fresh ↔ m ∈ found ∧ ¬s.Barrier never m := fun m => mem_fresh
      have hbarriers : ∀ m, m ∈ barriers ↔ m ∈ found ∧ s.Barrier never m :=
        fun m => mem_independentOwnerGroundedIds
      have hmet : ∀ p ∈ s.leading memories candidates,
          p.memoryId ∈ seen ++ fresh ∨ p.memoryId ∈ addMembers preserved barriers :=
        fun p hp => leading_met hp rfl
      have hgrow : ∀ m, m ∈ seen ∨ m ∈ preserved →
          m ∈ seen ++ fresh ∨ m ∈ addMembers preserved barriers :=
        fun m hm => hm.imp (List.mem_append_left _) fun hm => mem_addMembers.mpr (Or.inl hm)
      split at hr
      · cases hr
      · refine ih ⟨fun m hm => ?_,fun m hm => ?_,fun p hp d hd hn hs => ?_,
          fun p hp c hc hn hs => ?_,fun m hm => ?_⟩ ?_ hr
        · exact List.mem_append_right _ hm
        · exact hgrow m (h.start m hm)
        · have hseen := (List.mem_append.mp hd).resolve_right hn
          by_cases hdm : d ∈ memories
          · exact hmet p (mem_leading.mpr ⟨hp,Or.inl ⟨d,hdm,hs⟩⟩)
          · exact hgrow _ (h.memory p hp d hseen hdm hs)
        · by_cases hcm : c ∈ candidates
          · exact hmet p (mem_leading.mpr ⟨hp,Or.inr ⟨c,hcm,hs⟩⟩)
          · exact hgrow _ (h.candidate p hp c hc hcm hs)
        · rcases mem_addMembers.mp hm with hm | hm
          · exact h.barriers m hm
          · exact ((hbarriers m).mp hm).2
        · by_cases hnone : found = []
          · -- nothing new was met, so the frontier is empty
            have hf : fresh = [] := List.eq_nil_iff_forall_not_mem.mpr fun m hm => by
              have := ((hfresh m).mp hm).1
              rw [hnone] at this
              cases this
            refine Or.inl ⟨hf,?_⟩
            rw [hf]
            simp
          · obtain ⟨m,hm⟩ := List.exists_mem_of_ne_nil found hnone
            obtain ⟨hmem,hn⟩ := mem_newMembers.mp hm
            obtain ⟨p,hp,rfl⟩ := List.mem_map.mp hmem
            have hdown : Frontier.unmet s.provenance (·.memoryId)
                ((seen ++ fresh) ++ addMembers preserved barriers) <
                Frontier.unmet s.provenance (·.memoryId) (seen ++ preserved) := by
              refine Frontier.unmet_lt (fun x hx => ?_) (mem_leading.mp hp).1 hn ?_
              · exact List.mem_append.mpr (hgrow x (List.mem_append.mp hx))
              · exact List.mem_append.mpr (hmet p hp)
            exact Or.inr (by omega)

/-- The second walk finds all dependents. -/
theorem dependentMemoryClosure_dependents {roots candidateIds seen preserved : List ℕ}
    (h : s.dependentMemoryClosure roots candidateIds never = .ok (seen,preserved)) :
    Dependents s roots candidateIds never seen preserved := by
  unfold dependentMemoryClosure at h
  refine dependentMemoryClosureLoop_dependents (s.provenance.length + 2)
    ⟨fun m hm => hm,fun m hm => ?_,fun p _ d hd hn => absurd hd hn,
      fun p _ c hc hn => absurd hc hn,fun m hm => (mem_independentOwnerGroundedIds.mp hm).2⟩
    (Or.inr (Nat.lt_succ_of_le (Nat.le_succ_of_le
      (Frontier.unmet_le_length s.provenance (·.memoryId) _)))) h
  by_cases hb : m ∈ s.independentOwnerGroundedIds roots never
  · exact Or.inr hb
  · exact Or.inl (List.mem_filter.mpr ⟨hm,by simpa using hb⟩)

end Tables

end Memory
end Atlas
