import Mathlib.Data.List.Count
import Mathlib.Data.List.Basic
import Mathlib.Data.Set.Basic
import Mathlib.Logic.Relation

/-! Searches over finitely many edges. A round that meets a new target leaves fewer edges whose
target has not been met, which bounds the number of rounds. A search that stops at some nodes
finds the nodes on paths around them, and those of them that such paths hit. -/
namespace Frontier

section

variable {ε ν : Type*} [DecidableEq ν]

/-- The number of edges whose target has not been met. -/
def unmet (edges : List ε) (target : ε → ν) (met : List ν) : ℕ :=
  edges.countP fun e => !met.contains (target e)

variable {edges : List ε} {target : ε → ν} {met met' : List ν}

theorem unmet_le_length (edges : List ε) (target : ε → ν) (met : List ν) :
    unmet edges target met ≤ edges.length := List.countP_le_length

theorem unmet_anti (h : met ⊆ met') : unmet edges target met' ≤ unmet edges target met := by
  refine List.countP_mono_left fun e _ hn => ?_
  simp only [Bool.not_eq_true',List.contains_eq_mem,decide_eq_false_iff_not] at hn ⊢
  exact fun hm => hn (h hm)

/-- Meeting the target of an edge for the first time. -/
theorem unmet_lt (h : met ⊆ met') {e : ε} (he : e ∈ edges) (hn : target e ∉ met)
    (hm : target e ∈ met') : unmet edges target met' < unmet edges target met := by
  induction edges with
  | nil => cases he
  | cons x edges ih =>
    have hle : unmet edges target met' ≤ unmet edges target met := unmet_anti h
    simp only [unmet,List.countP_cons,Bool.not_eq_true',List.contains_eq_mem,
      decide_eq_false_iff_not] at hle ih ⊢
    rcases List.mem_cons.mp he with rfl | he
    · rw [if_neg (not_not.mpr hm),if_pos hn]
      omega
    · have hlt := ih he
      by_cases hx : target x ∈ met'
      · rw [if_neg (not_not.mpr hx)]
        omega
      · rw [if_pos hx,if_pos fun hx' => hx (h hx')]
        omega

/-- Meeting the targets of several edges, each for the first time. -/
theorem unmet_append_le (edges : List ε) (target : ε → ν) (met : List ν) {new : List ν}
    (hnew : new.Nodup) (h : ∀ n ∈ new, n ∉ met ∧ ∃ e ∈ edges, target e = n) :
    unmet edges target (met ++ new) + new.length ≤ unmet edges target met := by
  induction new generalizing met with
  | nil => simp
  | cons n new ih =>
    obtain ⟨hn,hrest⟩ := List.nodup_cons.mp hnew
    obtain ⟨hmet,e,he,rfl⟩ := h n List.mem_cons_self
    have hle := ih (met ++ [target e]) hrest fun m hm => by
      obtain ⟨hm',hedge⟩ := h m (List.mem_cons_of_mem _ hm)
      refine ⟨fun hin => ?_,hedge⟩
      rcases List.mem_append.mp hin with hin | hin
      · exact hm' hin
      · exact hn (List.mem_singleton.mp hin ▸ hm)
    have hlt : unmet edges target (met ++ [target e]) < unmet edges target met :=
      unmet_lt (List.subset_append_left ..) he hmet (by simp)
    rw [List.append_assoc,List.singleton_append] at hle
    simp only [List.length_cons]
    omega

end

section

variable {ν : Type*} (edge : ν → ν → Prop) (first stop : ν → Prop)

/-- The nodes on paths from a start that meet no stop. -/
def Free (n : ν) : Prop :=
  ∃ r, first r ∧ ¬stop r ∧ Relation.ReflTransGen (fun a b => edge a b ∧ ¬stop b) r n

/-- The stops that those paths hit. -/
def Rim (n : ν) : Prop := stop n ∧ (first n ∨ ∃ d, Free edge first stop d ∧ edge d n)

/-- A search between two rounds: what it has seen and the stops it has hit are right, and only the
nodes that are pending may lead to something new. -/
structure Walk (seen rim pending : Set ν) : Prop where
  sound : ∀ n ∈ seen, Free edge first stop n
  hit : ∀ n ∈ rim, Rim edge first stop n
  started : ∀ n, first n → n ∈ seen ∨ n ∈ rim
  explored : ∀ d ∈ seen, d ∉ pending → ∀ n, edge d n → n ∈ seen ∨ n ∈ rim

variable {edge first stop}

theorem Free.start {n : ν} (h : first n) (hs : ¬stop n) : Free edge first stop n := ⟨n,h,hs,.refl⟩

theorem Free.step {d n : ν} (h : Free edge first stop d) (he : edge d n) (hs : ¬stop n) :
    Free edge first stop n := by
  obtain ⟨r,hr,hrs,hp⟩ := h
  exact ⟨r,hr,hrs,hp.tail ⟨he,hs⟩⟩

theorem Free.not_stop {n : ν} (h : Free edge first stop n) : ¬stop n := by
  obtain ⟨r,_,hrs,hp⟩ := h
  rcases Relation.ReflTransGen.cases_tail hp with rfl | ⟨_,_,_,hs⟩
  · exact hrs
  · exact hs

/-- A node that paths reach is a start or the target of an edge. -/
theorem Free.source {n : ν} (h : Free edge first stop n) : first n ∨ ∃ d, edge d n := by
  obtain ⟨r,hr,_,hp⟩ := h
  rcases Relation.ReflTransGen.cases_tail hp with rfl | ⟨d,_,he,_⟩
  · exact Or.inl hr
  · exact Or.inr ⟨d,he⟩

namespace Walk

variable {seen rim pending : Set ν}

/-- A round expands some nodes and sorts the new ones it finds. -/
theorem round (h : Walk edge first stop seen rim pending) {batch found seen' rim' pending' : Set ν}
    (hbatch : batch ⊆ seen)
    (hfound : ∀ n, n ∈ found ↔ (∃ d ∈ batch, edge d n) ∧ n ∉ seen ∧ n ∉ rim)
    (hseen : ∀ n, n ∈ seen' ↔ n ∈ seen ∨ n ∈ found ∧ ¬stop n)
    (hrim : ∀ n, n ∈ rim' ↔ n ∈ rim ∨ n ∈ found ∧ stop n)
    (hpending : ∀ d ∈ seen, d ∉ pending' → d ∈ batch ∨ d ∉ pending)
    (hfresh : ∀ d ∈ found, ¬stop d → d ∈ pending') :
    Walk edge first stop seen' rim' pending' := by
  have hgrow : ∀ n, n ∈ seen ∨ n ∈ rim → n ∈ seen' ∨ n ∈ rim' := fun n hn =>
    hn.imp (fun hn => (hseen n).mpr (Or.inl hn)) fun hn => (hrim n).mpr (Or.inl hn)
  refine ⟨fun n hn => ?_,fun n hn => ?_,fun n hn => hgrow n (h.started n hn),
    fun d hd hp n he => ?_⟩
  · rcases (hseen n).mp hn with hn | ⟨hn,hs⟩
    · exact h.sound n hn
    · obtain ⟨⟨d,hd,he⟩,_⟩ := (hfound n).mp hn
      exact (h.sound d (hbatch hd)).step he hs
  · rcases (hrim n).mp hn with hn | ⟨hn,hs⟩
    · exact h.hit n hn
    · obtain ⟨⟨d,hd,he⟩,_⟩ := (hfound n).mp hn
      exact ⟨hs,Or.inr ⟨d,h.sound d (hbatch hd),he⟩⟩
  · have hold : d ∈ seen := by
      rcases (hseen d).mp hd with hd | ⟨hd,hs⟩
      · exact hd
      · exact absurd (hfresh d hd hs) hp
    rcases hpending d hold hp with hb | hp
    · by_cases hmet : n ∈ seen ∨ n ∈ rim
      · exact hgrow n hmet
      · have hin := (hfound n).mpr ⟨⟨d,hb,he⟩,not_or.mp hmet⟩
        by_cases hs : stop n
        · exact Or.inr ((hrim n).mpr (Or.inr ⟨hin,hs⟩))
        · exact Or.inl ((hseen n).mpr (Or.inr ⟨hin,hs⟩))
    · exact hgrow n (h.explored d hold hp n he)

/-- A search with nothing pending has found all there is. -/
theorem done (h : Walk edge first stop seen rim pending) (hp : ∀ d ∈ seen, d ∉ pending) :
    (∀ n, n ∈ seen ↔ Free edge first stop n) ∧ ∀ n, n ∈ rim ↔ Rim edge first stop n := by
  have hfree : ∀ n, Free edge first stop n → n ∈ seen := by
    rintro n ⟨r,hr,hrs,hpath⟩
    induction hpath with
    | refl => exact (h.started r hr).resolve_right fun hn => hrs (h.hit r hn).1
    | @tail d n _ he ih =>
      exact (h.explored d ih (hp d ih) n he.1).resolve_right fun hn => he.2 (h.hit n hn).1
  refine ⟨fun n => ⟨h.sound n,hfree n⟩,fun n => ⟨h.hit n,fun ⟨hs,hn⟩ => ?_⟩⟩
  have hmet : n ∈ seen ∨ n ∈ rim := by
    rcases hn with hn | ⟨d,hd,he⟩
    · exact h.started n hn
    · exact h.explored d (hfree d hd) (hp d (hfree d hd)) n he
  exact hmet.resolve_left fun hn => (h.sound n hn).not_stop hs

end Walk

end

end Frontier
