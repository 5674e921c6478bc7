import Mathlib.Data.Set.Card
import Atlas.Memory.Frozen

/-! Both walks of a deletion are exact. They return the memories on paths of provenance edges that
no barrier interrupts, and the barriers such paths hit, or fail when there are too many. -/
namespace Atlas
namespace Memory

open RowTable

namespace Tables

/-- A provenance row leads from the memory or the candidate it names to its own memory. Memories
stand on the left and candidates on the right. -/
def Edge (s : Tables) (x y : ℕ ⊕ ℕ) : Prop :=
  ∃ p ∈ s.provenance, y = .inl p.memoryId ∧
    x.elim (p.sourceMemoryId = some ·) (p.sourceCandidateId = some ·)

/-- The memories and the candidates of two lists. -/
def sides (memories candidates : List ℕ) : Set (ℕ ⊕ ℕ) :=
  {x | x.elim (· ∈ memories) (· ∈ candidates)}

def Stops (s : Tables) (never : List ℕ) (x : ℕ ⊕ ℕ) : Prop := x.elim (s.Barrier never) fun _ => False

/-- A memory on a path from the roots and the candidates that meets no barrier. -/
def Reached (s : Tables) (never roots candidateIds : List ℕ) (m : ℕ) : Prop :=
  Frontier.Free s.Edge (· ∈ sides roots candidateIds) (s.Stops never) (.inl m)

/-- A barrier that such a path hits. -/
def Hit (s : Tables) (never roots candidateIds : List ℕ) (m : ℕ) : Prop :=
  Frontier.Rim s.Edge (· ∈ sides roots candidateIds) (s.Stops never) (.inl m)

/-- Every provenance row names at most one source. -/
def OneSource (s : Tables) : Prop :=
  ∀ p ∈ s.provenance, p.sourceMemoryId = none ∨ p.sourceCandidateId = none

/-- What a walk answers: a failure beyond its limit, and otherwise what is reached and hit. -/
structure Answers (s : Tables) (never roots candidateIds : List ℕ) (limit : Prop)
    (r : Except Failure (List ℕ × List ℕ)) : Prop where
  exceeded : limit → r = .error safetyFailure
  returned : ¬limit → ∃ seen preserved, r = .ok (seen,preserved) ∧ seen.Nodup ∧
    (∀ m, m ∈ seen ↔ s.Reached never roots candidateIds m) ∧
    (∀ m, m ∈ preserved ↔ s.Hit never roots candidateIds m) ∧ ∀ m ∈ seen, m ∉ preserved

/-- How many memories are reached. -/
noncomputable def reachCount (s : Tables) (never roots candidateIds : List ℕ) : ℕ :=
  {m | s.Reached never roots candidateIds m}.ncard

variable {s : Tables} {never roots candidateIds seen preserved memories candidates : List ℕ}

theorem reached_finite : {m | s.Reached never roots candidateIds m}.Finite := by
  refine (List.finite_toSet (roots ++ s.provenance.map (·.memoryId))).subset fun m hm => ?_
  rcases Frontier.Free.source hm with hm | ⟨_,p,hp,he,_⟩
  · exact List.mem_append_left _ hm
  · exact List.mem_append_right _ (List.mem_map.mpr ⟨p,hp,(Sum.inl.inj he).symm⟩)

theorem length_le_reachCount {l : List ℕ} (hl : l.Nodup)
    (h : ∀ m ∈ l, s.Reached never roots candidateIds m) :
    l.length ≤ s.reachCount never roots candidateIds := by
  have hcard : (l.toFinset : Set ℕ).ncard = l.length := by
    rw [Set.ncard_coe_finset,List.toFinset_card_of_nodup hl]
  rw [← hcard]
  refine Set.ncard_le_ncard (fun m hm => ?_) reached_finite
  exact h m (by simpa using hm)

theorem reachCount_eq {l : List ℕ} (hl : l.Nodup)
    (h : ∀ m, m ∈ l ↔ s.Reached never roots candidateIds m) :
    s.reachCount never roots candidateIds = l.length := by
  have hset : {m | s.Reached never roots candidateIds m} = (l.toFinset : Set ℕ) := by
    ext m
    simp [h m]
  rw [reachCount,hset,Set.ncard_coe_finset,List.toFinset_card_of_nodup hl]

/-- The memories one round finds. -/
def foundMemories (s : Tables) (seen preserved memories candidates : List ℕ) : List ℕ :=
  newMembers (seen ++ preserved) ((s.leading memories candidates).map (·.memoryId))

/-- The memories one round goes on with. -/
def freshMemories (s : Tables) (never seen preserved memories candidates : List ℕ) : List ℕ :=
  let found := s.foundMemories seen preserved memories candidates
  found.filter fun id => !(s.independentOwnerGroundedIds found never).contains id

/-- The barriers after a round. -/
def barredMemories (s : Tables) (never seen preserved memories candidates : List ℕ) : List ℕ :=
  addMembers preserved
    (s.independentOwnerGroundedIds (s.foundMemories seen preserved memories candidates) never)

theorem mem_foundMemories {m : ℕ} : m ∈ s.foundMemories seen preserved memories candidates ↔
    (∃ x ∈ sides memories candidates, s.Edge x (.inl m)) ∧ m ∉ seen ∧ m ∉ preserved := by
  rw [foundMemories,mem_newMembers,List.mem_append,not_or]
  refine and_congr_left fun _ => ?_
  simp only [List.mem_map,mem_leading]
  constructor
  · rintro ⟨p,⟨hp,⟨d,hd,hs⟩ | ⟨c,hc,hs⟩⟩,rfl⟩
    · exact ⟨.inl d,hd,p,hp,rfl,hs⟩
    · exact ⟨.inr c,hc,p,hp,rfl,hs⟩
  · rintro ⟨d | c,hin,p,hp,he,hs⟩
    · exact ⟨p,⟨hp,Or.inl ⟨d,hin,hs⟩⟩,(Sum.inl.inj he).symm⟩
    · exact ⟨p,⟨hp,Or.inr ⟨c,hin,hs⟩⟩,(Sum.inl.inj he).symm⟩

theorem mem_freshMemories {m : ℕ} : m ∈ s.freshMemories never seen preserved memories candidates ↔
    m ∈ s.foundMemories seen preserved memories candidates ∧ ¬s.Barrier never m := mem_fresh

theorem mem_barredMemories {m : ℕ} :
    m ∈ s.barredMemories never seen preserved memories candidates ↔ m ∈ preserved ∨
      m ∈ s.foundMemories seen preserved memories candidates ∧ s.Barrier never m := by
  rw [barredMemories,mem_addMembers,mem_independentOwnerGroundedIds]

/-- A walk between two rounds. -/
structure Walking (s : Tables) (never roots candidateIds visited seen preserved memories candidates :
    List ℕ) : Prop where
  walk : Frontier.Walk s.Edge (· ∈ sides roots candidateIds) (s.Stops never) (sides seen visited)
    (sides preserved []) (sides memories candidates)
  nodup : seen.Nodup
  memories : ∀ m ∈ memories, m ∈ seen
  candidates : ∀ c ∈ candidates, c ∈ visited

variable {visited batch batchCandidates memories' candidates' : List ℕ}

theorem mem_sides_left {m : ℕ} : .inl m ∈ sides memories candidates ↔ m ∈ memories := Iff.rfl

theorem mem_sides_right {c : ℕ} : .inr c ∈ sides memories candidates ↔ c ∈ candidates := Iff.rfl

theorem foldl_occurrences_nodup (l : List ℕ) {seen : List ℕ} (h : seen.Nodup) :
    (l.foldl (fun seen a => if a ∈ seen then seen else seen ++ [a]) seen).Nodup := by
  induction l generalizing seen with
  | nil => exact h
  | cons a l ih =>
    rw [List.foldl_cons]
    split
    · exact ih h
    · next ha => exact ih (List.Nodup.append h (List.nodup_singleton a) (by simpa using ha))

theorem firstOccurrences_nodup (l : List ℕ) : (firstOccurrences l).Nodup :=
  foldl_occurrences_nodup l List.nodup_nil

theorem freshMemories_nodup :
    (s.freshMemories never seen preserved memories candidates).Nodup :=
  List.Nodup.filter _ (List.Nodup.filter _ (firstOccurrences_nodup _))

/-- A round expands part of what is pending. -/
theorem Walking.round
    (h : Walking s never roots candidateIds visited seen preserved memories candidates)
    (hm : ∀ m ∈ batch, m ∈ memories) (hc : ∀ c ∈ batchCandidates, c ∈ candidates)
    (hleft : ∀ m ∈ memories, m ∈ batch ∨ m ∈ memories')
    (hleftc : ∀ c ∈ candidates, c ∈ batchCandidates ∨ c ∈ candidates')
    (hfresh : ∀ m ∈ s.freshMemories never seen preserved batch batchCandidates, m ∈ memories')
    (hmem : ∀ m ∈ memories', m ∈ memories ∨
      m ∈ s.freshMemories never seen preserved batch batchCandidates)
    (hcan : ∀ c ∈ candidates', c ∈ visited) :
    Walking s never roots candidateIds visited
      (seen ++ s.freshMemories never seen preserved batch batchCandidates)
      (s.barredMemories never seen preserved batch batchCandidates) memories' candidates' where
  walk := by
    refine h.walk.round (?_ : ∀ v ∈ sides batch batchCandidates, _)
      (?_ : ∀ v, v ∈ sides (s.foundMemories seen preserved batch batchCandidates) [] ↔ _)
      ?_ ?_ ?_ ?_
    · rintro (m | c) hin
      · exact h.memories m (hm m hin)
      · exact h.candidates c (hc c hin)
    · rintro (m | c)
      · exact mem_foundMemories
      · refine ⟨fun hin => absurd hin List.not_mem_nil,?_⟩
        rintro ⟨⟨_,_,_,_,he,_⟩,_⟩
        cases he
    · rintro (m | c)
      · simp only [mem_sides_left,List.mem_append,mem_freshMemories]
        exact Iff.rfl
      · simp [mem_sides_right]
    · rintro (m | c)
      · exact mem_barredMemories
      · simp [mem_sides_right]
    · rintro (m | c) hin hp
      · by_cases hpend : m ∈ memories
        · exact Or.inl ((hleft m hpend).resolve_right hp)
        · exact Or.inr hpend
      · by_cases hpend : c ∈ candidates
        · exact Or.inl ((hleftc c hpend).resolve_right hp)
        · exact Or.inr hpend
    · rintro (m | c) hin hs
      · exact hfresh m (mem_freshMemories.mpr ⟨hin,hs⟩)
      · cases hin
  nodup := by
    refine List.Nodup.append h.nodup freshMemories_nodup fun m hs hf => ?_
    exact (mem_foundMemories.mp (mem_freshMemories.mp hf).1).2.1 hs
  memories m hin := by
    rcases hmem m hin with hin | hin
    · exact List.mem_append_left _ (h.memories m hin)
    · exact List.mem_append_right _ hin
  candidates := hcan

/-- A round uses up at least as many provenance rows as it finds new memories. -/
theorem unmet_round (s : Tables) (never seen preserved memories candidates : List ℕ) :
    Frontier.unmet s.provenance (·.memoryId)
        ((seen ++ s.freshMemories never seen preserved memories candidates) ++
          s.barredMemories never seen preserved memories candidates) +
      (s.freshMemories never seen preserved memories candidates).length ≤
      Frontier.unmet s.provenance (·.memoryId) (seen ++ preserved) := by
  refine (Nat.add_le_add_right (Frontier.unmet_anti fun m hm => ?_) _).trans
    (Frontier.unmet_append_le s.provenance (·.memoryId) (seen ++ preserved) freshMemories_nodup
      fun m hm => ?_)
  · simp only [List.mem_append,mem_barredMemories] at hm ⊢
    tauto
  · obtain ⟨⟨_,_,p,hp,he,_⟩,hs,hn⟩ := mem_foundMemories.mp (mem_freshMemories.mp hm).1
    refine ⟨fun hin => (List.mem_append.mp hin).elim hs hn,p,hp,(Sum.inl.inj he).symm⟩

/-- A walk with nothing pending has its answer. -/
theorem Walking.done (h : Walking s never roots candidateIds visited seen preserved [] []) :
    seen.Nodup ∧ (∀ m, m ∈ seen ↔ s.Reached never roots candidateIds m) ∧
      (∀ m, m ∈ preserved ↔ s.Hit never roots candidateIds m) ∧ ∀ m ∈ seen, m ∉ preserved := by
  have hdone := h.walk.done fun x _ hx => by
    cases x with
    | inl m => exact absurd hx List.not_mem_nil
    | inr c => exact absurd hx List.not_mem_nil
  refine ⟨h.nodup,fun m => hdone.1 (.inl m),fun m => hdone.2 (.inl m),fun m hs hp => ?_⟩
  exact (h.walk.sound (.inl m) hs).not_stop (h.walk.hit (.inl m) hp).1

/-- What a walk may end with. -/
def Outcome (s : Tables) (never roots candidateIds : List ℕ) (limit : Prop) :
    Except Failure (List ℕ × List ℕ) → Prop
  | .error e => e = safetyFailure ∧ limit
  | .ok (seen,preserved) => ¬limit ∧ seen.Nodup ∧ (∀ m, m ∈ seen ↔ s.Reached never roots candidateIds m) ∧
      (∀ m, m ∈ preserved ↔ s.Hit never roots candidateIds m) ∧ ∀ m ∈ seen, m ∉ preserved

theorem Outcome.answers {limit : Prop} {r : Except Failure (List ℕ × List ℕ)}
    (h : s.Outcome never roots candidateIds limit r) : s.Answers never roots candidateIds limit r := by
  cases r with
  | error e =>
    obtain ⟨rfl,hl⟩ := h
    exact ⟨fun _ => rfl,fun hn => absurd hl hn⟩
  | ok r => exact ⟨fun hl => absurd hl h.1,fun _ => ⟨r.1,r.2,rfl,h.2⟩⟩

/-- The first walk fails if it meets more than its roots and more than it may. -/
def descentLimit (s : Tables) (never roots : List ℕ) : Prop :=
  safetyBound < s.reachCount (roots ++ never) roots [] ∧
    ∃ m, m ∉ roots ∧ s.Reached (roots ++ never) roots [] m

theorem leading_left : s.leading memories [] =
    s.provenance.filter fun p => p.sourceMemoryId.any memories.contains := by
  refine List.filter_congr fun p _ => ?_
  cases p.sourceCandidateId <;> simp

/-- One round of the first walk. -/
theorem memoryDescendantsLoop_round (fuel : ℕ) {queue : List ℕ} (h : queue ≠ []) :
    s.memoryDescendantsLoop never (fuel + 1) seen preserved queue =
      let fresh := s.freshMemories never seen preserved (queue.take 100) []
      if fresh ≠ [] ∧ safetyBound < seen.length + fresh.length then .error safetyFailure
      else s.memoryDescendantsLoop never fuel (seen ++ fresh)
        (s.barredMemories never seen preserved (queue.take 100) []) (queue.drop 100 ++ fresh) := by
  cases queue with
  | nil => exact absurd rfl h
  | cons m queue =>
    unfold freshMemories barredMemories foundMemories
    rw [leading_left]
    exact memoryDescendantsLoop.eq_3 s never seen preserved fuel m queue

/-- Roots that have been seen cannot be found again, so sparing them changes nothing. -/
theorem spared_grounded (s : Tables) (never : List ℕ) {found : List ℕ} (h : ∀ m ∈ found, m ∉ roots) :
    s.independentOwnerGroundedIds found never = s.independentOwnerGroundedIds found (roots ++ never) := by
  unfold independentOwnerGroundedIds newMembers
  refine congrArg _ (List.filter_congr fun m hm => ?_)
  have hr := h m ((mem_firstOccurrences _ _).mp hm)
  simp [hr]

theorem spared_round (s : Tables) (never preserved memories candidates : List ℕ)
    (h : ∀ m ∈ roots, m ∈ seen) :
    s.freshMemories never seen preserved memories candidates =
        s.freshMemories (roots ++ never) seen preserved memories candidates ∧
      s.barredMemories never seen preserved memories candidates =
        s.barredMemories (roots ++ never) seen preserved memories candidates := by
  have hfound : ∀ m ∈ s.foundMemories seen preserved memories candidates, m ∉ roots :=
    fun m hm hr => (mem_foundMemories.mp hm).2.1 (h m hr)
  have heq := spared_grounded s never hfound
  refine ⟨?_,?_⟩
  · unfold freshMemories
    dsimp only
    rw [heq]
  · unfold barredMemories
    rw [heq]

theorem Walking.roots_seen
    (h : Walking s (roots ++ never) roots candidateIds visited seen preserved memories candidates) :
    ∀ m ∈ roots, m ∈ seen := fun m hm =>
  (h.walk.started (.inl m) hm).resolve_right fun hr =>
    (h.walk.hit (.inl m) hr).1.1 (List.mem_append_left _ hm)

/-- What one round of the first walk leaves pending. -/
theorem Walking.descend {queue : List ℕ} (h : Walking s (roots ++ never) roots [] [] seen preserved queue []) :
    Walking s (roots ++ never) roots [] []
      (seen ++ s.freshMemories never seen preserved (queue.take 100) [])
      (s.barredMemories never seen preserved (queue.take 100) [])
      (queue.drop 100 ++ s.freshMemories never seen preserved (queue.take 100) []) [] := by
  obtain ⟨hf,hb⟩ := spared_round s never preserved (queue.take 100) [] h.roots_seen
  rw [hf,hb]
  refine h.round (fun m hm => List.mem_of_mem_take hm) (fun _ hc => hc) (fun m hm => ?_)
    (fun c hc => absurd hc List.not_mem_nil) (fun m hm => List.mem_append_right _ hm) (fun m hm => ?_)
    (fun c hc => absurd hc List.not_mem_nil)
  · rw [← List.take_append_drop 100 queue] at hm
    exact (List.mem_append.mp hm).imp_right (List.mem_append_left _)
  · exact (List.mem_append.mp hm).imp_left List.mem_of_mem_drop

theorem memoryDescendantsLoop_outcome (fuel : ℕ) {queue : List ℕ}
    (h : Walking s (roots ++ never) roots [] [] seen preserved queue [])
    (hsize : seen.length ≤ safetyBound ∨ ∀ m ∈ seen, m ∈ roots)
    (hfuel : queue.length + Frontier.unmet s.provenance (·.memoryId) (seen ++ preserved) < fuel) :
    s.Outcome (roots ++ never) roots [] (s.descentLimit never roots)
      (s.memoryDescendantsLoop never fuel seen preserved queue) := by
  induction fuel generalizing seen preserved queue with
  | zero => exact absurd hfuel (Nat.not_lt_zero _)
  | succ fuel ih =>
    by_cases hq : queue = []
    · subst hq
      have hdone := h.done
      refine ⟨fun ⟨hlt,m,hm,hr⟩ => ?_,hdone⟩
      rcases hsize with hsize | hsize
      · rw [reachCount_eq h.nodup hdone.2.1] at hlt
        omega
      · exact hm (hsize m ((hdone.2.1 m).mpr hr))
    · rw [memoryDescendantsLoop_round fuel hq]
      have hnext := h.descend
      have hdown := unmet_round s never seen preserved (queue.take 100) []
      have hnew : ∀ m ∈ s.freshMemories never seen preserved (queue.take 100) [], m ∉ seen :=
        fun m hm => (mem_foundMemories.mp (mem_freshMemories.mp hm).1).2.1
      revert hnext hdown hnew
      generalize s.freshMemories never seen preserved (queue.take 100) [] = fresh
      generalize s.barredMemories never seen preserved (queue.take 100) [] = barred
      intro hnext hdown hnew
      dsimp only
      split
      · next hlimit =>
        obtain ⟨m,hm⟩ := List.exists_mem_of_ne_nil fresh hlimit.1
        have hreached : ∀ m ∈ seen ++ fresh, s.Reached (roots ++ never) roots [] m :=
          fun m hm => hnext.walk.sound (.inl m) hm
        have hle := length_le_reachCount hnext.nodup hreached
        rw [List.length_append] at hle
        refine ⟨rfl,by omega,m,fun hr => hnew m hm (h.roots_seen m hr),?_⟩
        exact hreached m (List.mem_append_right _ hm)
      · next hlimit =>
        have hlen : 0 < queue.length := List.length_pos_iff.mpr hq
        refine ih hnext ?_ ?_
        · by_cases hf : fresh = []
          · rwa [hf,List.append_nil]
          · have hle := not_lt.mp (not_and.mp hlimit hf)
            exact Or.inl (by rwa [List.length_append])
        · rw [List.length_append,List.length_drop]
          omega

/-- The first walk finds what derives from its roots, which it never takes for barriers. -/
theorem memoryDescendants_answers (s : Tables) (never : List ℕ) (hr : roots.Nodup) :
    s.Answers (roots ++ never) roots [] (s.descentLimit never roots)
      (s.memoryDescendants roots never) := by
  refine Outcome.answers (memoryDescendantsLoop_outcome _ ⟨⟨fun x hx => ?_,fun x hx => ?_,
    fun x hx => Or.inl hx,fun x hx hn => absurd hx hn⟩,hr,fun m hm => hm,
    fun c hc => absurd hc List.not_mem_nil⟩ (Or.inr fun m hm => hm) ?_)
  · cases x with
    | inl m => exact .start hx fun hb => hb.1 (List.mem_append_left _ hx)
    | inr c => cases hx
  · cases x with
    | inl m => cases hx
    | inr c => cases hx
  · have hle := Frontier.unmet_le_length s.provenance (·.memoryId) (roots ++ [])
    omega

/-- What one round of the second walk leaves pending. -/
theorem Walking.widen (hs : s.OneSource)
    (h : Walking s never roots candidateIds candidateIds seen preserved memories candidates) :
    Walking s never roots candidateIds candidateIds
      (seen ++ s.freshMemories never seen preserved memories candidates)
      (s.barredMemories never seen preserved memories candidates)
      (s.freshMemories never seen preserved memories candidates)
      (((s.leading memories candidates).filter fun p =>
        (s.freshMemories never seen preserved memories candidates).contains p.memoryId).filterMap
          (·.sourceCandidateId)) := by
  refine h.round (fun m hm => hm) (fun c hc => hc) (fun m hm => Or.inl hm) (fun c hc => Or.inl hc)
    (fun m hm => hm) (fun m hm => Or.inr hm) fun c hc => ?_
  obtain ⟨p,hp,hc⟩ := List.mem_filterMap.mp hc
  obtain ⟨hp,⟨d,_,hd⟩ | ⟨c',hin,hc'⟩⟩ := mem_leading.mp (List.mem_filter.mp hp).1
  · rcases hs p hp with hn | hn
    · cases hn.symm.trans hd
    · cases hn.symm.trans hc
  · cases Option.some.inj (hc.symm.trans hc')
    exact h.candidates c hin

theorem dependentMemoryClosureLoop_outcome (hs : s.OneSource) (fuel : ℕ)
    (h : Walking s never roots candidateIds candidateIds seen preserved memories candidates)
    (hsize : memories = [] → seen.length ≤ safetyBound)
    (hfuel : (memories = [] ∧ candidates = []) ∨
      Frontier.unmet s.provenance (·.memoryId) (seen ++ preserved) < fuel) :
    s.Outcome never roots candidateIds (safetyBound < s.reachCount never roots candidateIds)
      (s.dependentMemoryClosureLoop never fuel seen preserved memories candidates) := by
  induction fuel generalizing seen preserved memories candidates with
  | zero =>
    obtain ⟨rfl,rfl⟩ := hfuel.resolve_right (Nat.not_lt_zero _)
    exact ⟨by rw [reachCount_eq h.nodup h.done.2.1]; exact not_lt.mpr (hsize rfl),h.done⟩
  | succ fuel ih =>
    by_cases hempty : memories = [] ∧ candidates = []
    · obtain ⟨rfl,rfl⟩ := hempty
      exact ⟨by rw [reachCount_eq h.nodup h.done.2.1]; exact not_lt.mpr (hsize rfl),h.done⟩
    · have hlt := hfuel.resolve_left hempty
      rw [dependentMemoryClosureLoop_round fuel fun hm hc => hempty ⟨hm,hc⟩]
      have hnext := h.widen hs
      have hdown := unmet_round s never seen preserved memories candidates
      change Outcome s never roots candidateIds _ (if safetyBound < seen.length +
        (s.freshMemories never seen preserved memories candidates).length then .error safetyFailure
        else s.dependentMemoryClosureLoop never fuel
          (seen ++ s.freshMemories never seen preserved memories candidates)
          (s.barredMemories never seen preserved memories candidates)
          (s.freshMemories never seen preserved memories candidates)
          (((s.leading memories candidates).filter fun p =>
            (s.freshMemories never seen preserved memories candidates).contains p.memoryId).filterMap
              (·.sourceCandidateId)))
      revert hnext hdown
      generalize s.freshMemories never seen preserved memories candidates = fresh
      generalize s.barredMemories never seen preserved memories candidates = barred
      intro hnext hdown
      split
      · have hle := length_le_reachCount hnext.nodup fun m hm => hnext.walk.sound (.inl m) hm
        rw [List.length_append] at hle
        exact ⟨rfl,by omega⟩
      · next hlimit =>
        refine ih hnext (fun _ => by rw [List.length_append]; omega) ?_
        by_cases hf : fresh = []
        · exact Or.inl ⟨hf,by simp [hf]⟩
        · have hpos := List.length_pos_iff.mpr hf
          exact Or.inr (by omega)

/-- The second walk finds what derives from its roots and candidates, unless a barrier. -/
theorem dependentMemoryClosure_answers (hs : s.OneSource) (never candidateIds : List ℕ)
    (hr : roots.Nodup) :
    s.Answers never roots candidateIds (safetyBound < s.reachCount never roots candidateIds)
      (s.dependentMemoryClosure roots candidateIds never) := by
  unfold dependentMemoryClosure
  refine Outcome.answers (dependentMemoryClosureLoop_outcome hs _ ⟨⟨fun x hx => ?_,fun x hx => ?_,
    fun x hx => ?_,fun x hx hn => absurd hx hn⟩,hr.filter _,fun m hm => hm,fun c hc => hc⟩
    (fun hnil => ?_) (Or.inr ?_))
  · cases x with
    | inl m => exact .start (mem_fresh.mp hx).1 (mem_fresh.mp hx).2
    | inr c => exact .start hx id
  · cases x with
    | inl m =>
      have hm := mem_independentOwnerGroundedIds.mp hx
      exact ⟨hm.2,Or.inl hm.1⟩
    | inr c => cases hx
  · cases x with
    | inl m =>
      by_cases hb : s.Barrier never m
      · exact Or.inr (mem_independentOwnerGroundedIds.mpr ⟨hx,hb⟩)
      · exact Or.inl (mem_fresh.mpr ⟨hx,hb⟩)
    | inr c => exact Or.inl hx
  · rw [hnil]
    exact Nat.zero_le _
  · exact Nat.lt_of_le_of_lt (Frontier.unmet_le_length ..) (by omega)

/-- More fuel than the first walk needs changes nothing: its queue has run empty. -/
theorem memoryDescendantsLoop_halts (n fuel : ℕ) {queue : List ℕ}
    (h : queue.length + Frontier.unmet s.provenance (·.memoryId) (seen ++ preserved) < fuel) :
    s.memoryDescendantsLoop never (fuel + n) seen preserved queue =
      s.memoryDescendantsLoop never fuel seen preserved queue := by
  induction fuel generalizing seen preserved queue with
  | zero => exact absurd h (Nat.not_lt_zero _)
  | succ fuel ih =>
    rw [Nat.add_right_comm]
    by_cases hq : queue = []
    · subst hq
      rfl
    · rw [memoryDescendantsLoop_round _ hq,memoryDescendantsLoop_round _ hq]
      have hdown := unmet_round s never seen preserved (queue.take 100) []
      have hlen : 0 < queue.length := List.length_pos_iff.mpr hq
      dsimp only
      split
      · rfl
      · refine ih ?_
        rw [List.length_append,List.length_drop]
        omega

/-- More fuel than the second walk needs changes nothing: its frontiers have run empty. -/
theorem dependentMemoryClosureLoop_halts (n fuel : ℕ)
    (h : (memories = [] ∧ candidates = []) ∨
      Frontier.unmet s.provenance (·.memoryId) (seen ++ preserved) < fuel) :
    s.dependentMemoryClosureLoop never (fuel + n) seen preserved memories candidates =
      s.dependentMemoryClosureLoop never fuel seen preserved memories candidates := by
  induction fuel generalizing seen preserved memories candidates with
  | zero =>
    obtain ⟨rfl,rfl⟩ := h.resolve_right (Nat.not_lt_zero _)
    cases n <;> rfl
  | succ fuel ih =>
    rw [Nat.add_right_comm]
    by_cases hempty : memories = [] ∧ candidates = []
    · obtain ⟨rfl,rfl⟩ := hempty
      rfl
    · have hlt := h.resolve_left hempty
      have hdown := unmet_round s never seen preserved memories candidates
      rw [dependentMemoryClosureLoop_round _ fun hm hc => hempty ⟨hm,hc⟩,
        dependentMemoryClosureLoop_round _ fun hm hc => hempty ⟨hm,hc⟩]
      extract_lets found barriers fresh
      change Frontier.unmet s.provenance (·.memoryId) ((seen ++ fresh) ++ addMembers preserved barriers) +
        fresh.length ≤ _ at hdown
      split
      · rfl
      · refine ih ?_
        by_cases hf : fresh = []
        · exact Or.inl ⟨hf,by simp [hf]⟩
        · have hpos := List.length_pos_iff.mpr hf
          exact Or.inr (by omega)

end Tables

end Memory
end Atlas
