import Atlas.Memory.CommandOutcomes
import Atlas.Memory.DeletionWalks

/-! A deletion that reaches too many memories fails, and leaves nothing but the row of its command. -/
namespace Atlas
namespace Memory

open RowTable

namespace Tables

variable {s : Tables} {never roots : List ℕ}

instance (s : Tables) : Decidable s.OneSource :=
  inferInstanceAs (Decidable (∀ p ∈ s.provenance,
    p.sourceMemoryId = none ∨ p.sourceCandidateId = none))

/-- Roots that are spared anyway are no barriers for either walk. -/
theorem stops_append (h : ∀ m ∈ roots, m ∈ never) : s.Stops (roots ++ never) = s.Stops never := by
  funext x
  cases x with
  | inl m =>
    have hmem : m ∉ roots ++ never ↔ m ∉ never := by
      rw [List.mem_append,not_or]
      exact and_iff_right_of_imp fun hn hr => hn (h m hr)
    exact propext (and_congr_left' hmem)
  | inr c => rfl

theorem descentLimit_of_spared {id : ℕ} (h : safetyBound < s.reachCount [id] [id] []) :
    s.descentLimit [id] [id] := by
  have hstops : s.Stops ([id] ++ [id]) = s.Stops [id] := stops_append fun m hm => hm
  have hcount : s.reachCount ([id] ++ [id]) [id] [] = s.reachCount [id] [id] [] := by
    unfold reachCount Reached
    rw [hstops]
  refine ⟨hcount ▸ h,by_contra fun hn => ?_⟩
  have hsub : {m | s.Reached [id] [id] [] m} ⊆ {id} := fun m hm => by
    by_contra hne
    refine hn ⟨m,fun hin => hne (List.mem_singleton.mp hin),?_⟩
    unfold Reached
    rw [hstops]
    exact hm
  have hle := Set.ncard_le_ncard hsub (Set.finite_singleton id)
  rw [Set.ncard_singleton] at hle
  exact absurd (h.trans_le hle) (by decide)

variable [PyRuntime]

/-- One of the two walks of a deletion would reach more memories than it may. -/
def Oversized (s : Tables) (loaded : Tables → Tables) (memoryId : Option ℕ) (content : Option String)
    (scope : String) (now : Time) (commandId : ℕ) : Prop :=
  ∃ target selected, s.deleteTarget memoryId content = .ok (.selected target selected) ∧
    ((∃ id, target = some id ∧ safetyBound < s.reachCount [id] [id] []) ∨
    ∃ s₁ d, s.deletionSources (.command commandId) scope target selected now = .ok (s₁,d) ∧
      let r := s₁.invalidateCandidates loaded (.command commandId) d.dependencies d.candidateIds
        (d.unsourced selected) selected true now
      safetyBound < r.1.reachCount target.toList
        (addMembers d.affected (r.1.turnDependents d.dependencies)) r.2.1)

omit [PyRuntime] in
theorem deletionClosure_nodup {target : Option ℕ} {r : List ℕ × List ℕ}
    (h : s.deletionClosure target = .ok r) : r.1.Nodup := by
  cases target with
  | none =>
    cases h
    exact List.nodup_nil
  | some id =>
    have ha := memoryDescendants_answers s [id] (List.nodup_singleton id)
    by_cases hl : s.descentLimit [id] [id]
    · cases (ha.exceeded hl).symm.trans h
    · obtain ⟨seen,preserved,he,hn,_⟩ := ha.returned hl
      cases he.symm.trans h
      exact hn

omit [PyRuntime] in
theorem addMembers_nodup {a b : List ℕ} (h : a.Nodup) : (addMembers a b).Nodup :=
  List.Nodup.append h ((firstOccurrences_nodup b).filter _) fun _ ha hb =>
    (mem_newMembers.mp hb).2 ha

theorem deleteMutate_oversized {loaded : Tables → Tables} {memoryId : Option ℕ}
    {content : Option String} {scope : String} {source : OwnerSource} {now : Time} {commandId : ℕ}
    (hs : s.OneSource) (h : s.Oversized loaded memoryId content scope now commandId) :
    s.deleteMutate loaded memoryId content scope source now commandId = .error safetyFailure := by
  obtain ⟨target,selected,ht,h⟩ := h
  unfold deleteMutate
  rw [ht]
  rcases h with ⟨id,rfl,hl⟩ | ⟨s₁,d,hd,hl⟩
  · have he : s.deletionClosure (some id) = .error safetyFailure :=
      (memoryDescendants_answers s [id] (List.nodup_singleton id)).exceeded (descentLimit_of_spared hl)
    have hd : s.deletionSources (.command commandId) scope (some id) selected now =
        .error safetyFailure := by
      unfold deletionSources
      rw [he]
      rfl
    simp only [bind,Except.bind,hd]
  · obtain ⟨⟨affected,preserved⟩,hcl,hd'⟩ := bind_ok hd
    obtain ⟨⟨s₂,redacted⟩,_,hd'⟩ := bind_ok hd'
    have haff : d.affected.Nodup := by
      cases hd'
      exact deletionClosure_nodup hcl
    have hgraph := (invalidateCandidates_graph loaded s₁ (.command commandId) d.dependencies
      d.candidateIds (d.unsourced selected) selected true now).trans (deletionSources_graph hd)
    have hone : ∀ p ∈ (s₁.invalidateCandidates loaded (.command commandId) d.dependencies
        d.candidateIds (d.unsourced selected) selected true now).1.provenance,
        p.sourceMemoryId = none ∨ p.sourceCandidateId = none := by
      rw [graph_provenance hgraph]
      exact hs
    have he := (dependentMemoryClosure_answers hone target.toList _
      (addMembers_nodup haff)).exceeded hl
    simp only [bind,Except.bind,hd]
    rw [he]

end Tables

section

variable [PyRuntime] {w : State}

/-- The store a deletion works in: its command has begun. -/
def deleting (w : State) (arguments : DeleteArguments) (transcriptId : Option ℕ) : Tables :=
  (w.data.beginCommand "delete" arguments.stored (w.data.latestOwnerSource transcriptId)).1

/-- A deletion that would reach too many memories raises and leaves only the row of its command. -/
theorem delete_oversized {loaded : Tables → Tables} {arguments : DeleteArguments}
    {transcriptId : Option ℕ} {now : Time} {content : Option String} (h : w.data.consistent = true)
    (hs : w.data.OneSource) (hnew : w.find (.command w.data.commands.length) = none)
    (hc : arguments.content.mapM (fun c => cleanMemoryContent (some c) "content") = .ok content)
    (hl : (deleting w arguments transcriptId).Oversized loaded arguments.memoryId content
      arguments.effectiveScope now w.data.commands.length) :
    ∃ commands e, delete w loaded arguments transcriptId now =
      ({w with data := {w.data with commands := w.data.commands ++ commands}},.error e) := by
  have hsame : w = {w with data := {w.data with commands := w.data.commands ++ []}} := by simp
  unfold delete
  simp only [hc]
  split
  · exact ⟨[],_,congrArg (·,_) hsame⟩
  · split
    · exact ⟨[],_,congrArg (·,_) hsame⟩
    · obtain ⟨row,message,he⟩ := runCommand_raised h hnew (Tables.deleteMutate_oversized hs hl)
      exact ⟨[row],_,he⟩

/-- Both walks are exact on every graph whose rows name one source each. The first takes no root
for a barrier. A deletion whose walks reach too many memories raises and leaves only the row of its
command. -/
theorem deletion_closure_exact (s : Tables) (never candidateIds : List ℕ) {roots : List ℕ}
    (hr : roots.Nodup) :
    s.Answers (roots ++ never) roots [] (s.descentLimit never roots)
      (s.memoryDescendants roots never) ∧
    (s.OneSource → s.Answers never roots candidateIds
      (Tables.safetyBound < s.reachCount never roots candidateIds)
      (s.dependentMemoryClosure roots candidateIds never)) ∧
    (∀ n, s.memoryDescendantsLoop never (roots.length + s.provenance.length + 1 + n) roots [] roots =
      s.memoryDescendants roots never) ∧
    (∀ n, s.dependentMemoryClosureLoop never (s.provenance.length + 2 + n)
        (roots.filter fun id => !(s.independentOwnerGroundedIds roots never).contains id)
        (s.independentOwnerGroundedIds roots never)
        (roots.filter fun id => !(s.independentOwnerGroundedIds roots never).contains id) candidateIds =
      s.dependentMemoryClosure roots candidateIds never) ∧
    ∀ (w : State) loaded arguments transcriptId now content, w.data.consistent = true →
      w.data.OneSource → w.find (.command w.data.commands.length) = none →
      arguments.content.mapM (fun c => cleanMemoryContent (some c) "content") = .ok content →
      (deleting w arguments transcriptId).Oversized loaded arguments.memoryId content
        arguments.effectiveScope now w.data.commands.length →
      ∃ commands e, delete w loaded arguments transcriptId now =
        ({w with data := {w.data with commands := w.data.commands ++ commands}},.error e) := by
  refine ⟨Tables.memoryDescendants_answers s never hr,fun hs =>
    Tables.dependentMemoryClosure_answers hs never candidateIds hr,fun n => ?_,fun n => ?_,
    fun w loaded arguments transcriptId now content h hs hnew hc hl =>
      delete_oversized h hs hnew hc hl⟩
  · refine Tables.memoryDescendantsLoop_halts n _ ?_
    have hle := Frontier.unmet_le_length s.provenance (·.memoryId) (roots ++ [])
    omega
  · refine Tables.dependentMemoryClosureLoop_halts n _ (Or.inr ?_)
    exact Nat.lt_of_le_of_lt (Frontier.unmet_le_length ..) (by omega)

end

/-- A memory with so many others derived from it. -/
def star (n : ℕ) : State :=
  let row : DurableMemoryRow :=
    {status := .retired, content := some "x", fingerprint := some "x", suppressesRecall := true}
  ⟨fun _ => none,[],{
    memories := List.replicate (n + 1) row
    provenance := (List.range n).map fun i =>
      {memoryId := i + 1, relationship := "derived_from", sourceMemoryId := some 0}}⟩

theorem star_oneSource (n : ℕ) : (star n).data.OneSource := by
  intro p hp
  obtain ⟨i,_,rfl⟩ := List.mem_map.mp hp
  exact Or.inr rfl

theorem star_barrier (n : ℕ) (never : List ℕ) (m : ℕ) : ¬(star n).data.Barrier never m := by
  rintro ⟨_,row,hrow,_,hg,_⟩
  have hmem := List.mem_of_getElem? hrow
  rw [List.eq_of_mem_replicate hmem] at hg
  cases hg

theorem star_reach (n : ℕ) (never : List ℕ) : n + 1 ≤ (star n).data.reachCount never [0] [] := by
  have hroot : (star n).data.Reached never [0] [] 0 :=
    .start List.mem_cons_self (star_barrier n never 0)
  have hall : ∀ m ∈ List.range (n + 1), (star n).data.Reached never [0] [] m := by
    intro m hm
    cases m with
    | zero => exact hroot
    | succ m =>
      refine hroot.step ⟨_,List.mem_map_of_mem (a := m) ?_,rfl,rfl⟩ (star_barrier n never (m + 1))
      simpa using hm
  have hle := Tables.length_le_reachCount List.nodup_range hall
  rwa [List.length_range] at hle

theorem star_target [PyRuntime] (n : ℕ) (arguments : DeleteArguments) :
    (deleting (star n) arguments none).deleteTarget (some 0) none = .ok (.selected (some 0) (some "x")) :=
  rfl

theorem star_consistent : (star Tables.safetyBound).data.consistent = true := by decide +kernel

theorem star_oversized [PyRuntime] {n : ℕ} (hn : Tables.safetyBound ≤ n) (arguments : DeleteArguments)
    (now : Time) :
    (deleting (star n) arguments none).Oversized id (some 0) none "memory_only" now 0 :=
  ⟨some 0,some "x",star_target n arguments,
    Or.inl ⟨0,rfl,(Nat.lt_succ_of_le hn).trans_le (star_reach n [0])⟩⟩

theorem delete_star [PyRuntime] {n : ℕ} (hn : Tables.safetyBound ≤ n)
    (hc : (star n).data.consistent = true) :
    let r := delete (star n) id {memoryId := some 0, scope := some "memory_only"} none 1
    r.2.isOk = false ∧ r.1.data ≠ (star n).data := by
  obtain ⟨row,message,he⟩ : ∃ row message,
      delete (star n) id {memoryId := some 0, scope := some "memory_only"} none 1 =
        ({(star n) with data := {(star n).data with commands := (star n).data.commands ++ [row]}},
          .error ⟨.memoryMutationError,message⟩) :=
    runCommand_raised hc rfl (Tables.deleteMutate_oversized (star_oneSource n) (star_oversized hn _ 1))
  refine ⟨congrArg (·.2.isOk) he,fun h => ?_⟩
  have hcommands := (congrArg (·.1.data.commands) he).symm.trans (congrArg Tables.commands h)
  cases hcommands

/-- A memory row that only its content distinguishes from others. -/
def derivedRow (content : String) : DurableMemoryRow :=
  {content := some content, fingerprint := some content, recordKind := "derived"}

def derivedFrom (source memoryId : ℕ) : ProvenanceRow :=
  {memoryId := memoryId, relationship := "derived_from", sourceMemoryId := some source}

/-- Two paths from the first memory to the last one, a barrier on one of them. -/
def diamond : Tables :=
  { turns := [{transcriptId := 0, sequence := 1, actor := .owner, blocks := [], createdAt := 0}]
    memories := [derivedRow "root",
      {derivedRow "barrier" with groundingStatus := .verified, ownerAssertionTurnId := some 0},
      derivedRow "alternate",derivedRow "downstream"]
    provenance := [derivedFrom 0 1,derivedFrom 0 2,derivedFrom 1 3,derivedFrom 2 3] }

theorem deletion_closure_exact_diamond :
    (∀ m, m ∈ [0,2,3] ↔ diamond.Reached [0] [0] [] m) ∧ (∀ m, m ∈ [1] ↔ diamond.Hit [0] [0] [] m) ∧
    letI := plainRuntime
    let w := star Tables.safetyBound
    ∃ commands e, delete w id {memoryId := some 0, scope := some "memory_only"} none 1 =
      ({w with data := {w.data with commands := w.data.commands ++ commands}},.error e) := by
  have hw := (@deletion_closure_exact plainRuntime diamond [0] [] [0] (List.nodup_singleton 0)).2.1
    (by decide)
  have hres : diamond.dependentMemoryClosure [0] [] [0] = .ok ([0,2,3],[1]) := by decide
  have hlimit : ¬Tables.safetyBound < diamond.reachCount [0] [0] [] := fun hl => by
    cases (hw.exceeded hl).symm.trans hres
  obtain ⟨seen,preserved,he,_,hseen,hpreserved,_⟩ := hw.returned hlimit
  cases he.symm.trans hres
  refine ⟨hseen,hpreserved,?_⟩
  have hop := (@deletion_closure_exact plainRuntime diamond [0] [] [0] (List.nodup_singleton 0)).2.2.2.2
  exact hop (star Tables.safetyBound) id _ none 1 none star_consistent (star_oneSource 1000) rfl rfl
    (@star_oversized plainRuntime _ le_rfl _ 1)

/-- A memory derived from a barrier. -/
def groundedRoot : Tables :=
  { turns := diamond.turns
    memories := [{derivedRow "barrier" with groundingStatus := .verified, ownerAssertionTurnId := some 0},
      derivedRow "derived"]
    provenance := [derivedFrom 0 1] }

/-- A memory derived from another one and from a candidate, with a sibling from the candidate. -/
def twoSources : Tables :=
  { memories := [derivedRow "root",derivedRow "derived",derivedRow "sibling"]
    provenance := [{derivedFrom 0 1 with sourceCandidateId := some 0},
      {memoryId := 2, relationship := "evidenced_by", sourceCandidateId := some 0}] }

/-- The two walks disagree about a root that is a barrier, a row with two sources leads the second
one to a memory that no path reaches, and a deletion that raises leaves a row. -/
theorem deletion_closure_inexact :
    (groundedRoot.memoryDescendants [0] [] = .ok ([0,1],[]) ∧
      groundedRoot.dependentMemoryClosure [0] [] [] = .ok ([],[0]) ∧
      ¬groundedRoot.Reached [] [0] [] 0) ∧
    (twoSources.dependentMemoryClosure [0] [] [] = .ok ([0,1,2],[]) ∧
      ¬twoSources.Reached [] [0] [] 2) ∧
    letI := plainRuntime
    let w := star Tables.safetyBound
    let r := delete w id {memoryId := some 0, scope := some "memory_only"} none 1
    r.2.isOk = false ∧ r.1.data ≠ w.data := by
  refine ⟨⟨by decide,by decide,fun h => ?_⟩,⟨by decide,fun h => ?_⟩,?_⟩
  · refine h.not_stop ?_
    have hb : 0 ∈ groundedRoot.independentOwnerGroundedIds [0] [] := by decide
    exact (Tables.mem_independentOwnerGroundedIds.mp hb).2
  · obtain ⟨r,hr,_,hp⟩ := h
    rcases Relation.ReflTransGen.cases_tail hp with rfl | ⟨x,hx,⟨p,hp,he,hs⟩,_⟩
    · cases List.mem_singleton.mp hr
    · have hcandidate : x = .inr 0 := by
        revert he hs
        rcases List.mem_cons.mp hp with rfl | hp
        · exact fun he => by cases he
        · cases List.mem_singleton.mp hp
          cases x with
          | inl d => exact fun _ hs => by cases hs
          | inr c => exact fun _ hs => congrArg Sum.inr (Option.some.inj hs).symm
      subst hcandidate
      rcases Relation.ReflTransGen.cases_tail hx with rfl | ⟨_,_,⟨_,_,he,_⟩,_⟩
      · cases hr
      · cases he
  · have h := @delete_star plainRuntime Tables.safetyBound le_rfl star_consistent
    exact h

end Memory
end Atlas
