import Mathlib.Data.List.Sort

/-! Reading a growing collection of keyed items page by page behind a cursor. -/
namespace Pages

variable {α : Type*}

/-- The first items of a collection whose keys lie above a cursor, in the order of their keys. -/
def page (key : α → ℕ) (limit : ℕ) (l : List α) (after : ℕ) : List α :=
  ((l.filter fun x => after < key x).insertionSort fun x y => key x ≤ key y).take limit

/-- How far a page leads from a cursor. -/
def reached (key : α → ℕ) (after : ℕ) (rows : List α) : ℕ := (rows.getLast?.map key).getD after

variable {key : α → ℕ} {limit : ℕ} {l : List α} {after : ℕ} {x : α}

theorem mem_of_mem_page (h : x ∈ page key limit l after) : x ∈ l ∧ after < key x := by
  have hm := List.mem_of_mem_take h
  rw [List.mem_insertionSort,List.mem_filter] at hm
  exact ⟨hm.1,of_decide_eq_true hm.2⟩

theorem sorted_rows (key : α → ℕ) (l : List α) :
    (l.insertionSort fun x y => key x ≤ key y).Pairwise (key · ≤ key ·) := by
  have : Std.Total fun x y : α => key x ≤ key y := ⟨fun x y => Nat.le_total _ _⟩
  have : IsTrans α fun x y => key x ≤ key y := ⟨fun _ _ _ => Nat.le_trans⟩
  exact List.pairwise_insertionSort _ l

/-- Where keys are distinct a page is strictly ordered. -/
theorem page_ordered (hl : (l.map key).Nodup) :
    (page key limit l after).Pairwise (key · < key ·) := by
  have hperm := List.perm_insertionSort (fun x y => key x ≤ key y) (l.filter fun x => after < key x)
  have hnodup : ((l.filter fun x => after < key x).map key).Nodup :=
    hl.sublist (List.filter_sublist.map key)
  have hne : ((l.filter fun x => after < key x).insertionSort fun x y => key x ≤ key y).Pairwise
      (key · ≠ key ·) := List.pairwise_map.mp ((hperm.map key).nodup_iff.mpr hnodup)
  refine List.Pairwise.sublist (List.take_sublist _ _) ?_
  refine ((sorted_rows key _).and hne).imp fun h => ?_
  omega

theorem le_reached {rows : List α} (h : rows.Pairwise (key · < key ·)) (hx : x ∈ rows) :
    key x ≤ reached key after rows := by
  rcases List.eq_nil_or_concat rows with rfl | ⟨init,last,rfl⟩
  · cases hx
  · rw [List.concat_eq_append,List.pairwise_append] at h
    rw [List.concat_eq_append,List.mem_append,List.mem_singleton] at hx
    simp only [reached,List.concat_eq_append,List.getLast?_append,List.getLast?_singleton,
      Option.some_or,Option.map_some,Option.getD_some]
    rcases hx with hx | rfl
    · exact Nat.le_of_lt (h.2.2 x hx last (List.mem_singleton_self last))
    · exact Nat.le_refl _

theorem after_le_reached {rows : List α} (h : ∀ x ∈ rows, after < key x) :
    after ≤ reached key after rows := by
  rw [reached]
  cases hlast : rows.getLast? with
  | none => exact Nat.le_refl _
  | some last => exact Nat.le_of_lt (h last (List.mem_of_getLast? hlast))

/-- Nothing between the cursor and the end of a page is left out. -/
theorem mem_page (hl : (l.map key).Nodup) (hx : x ∈ l) (hafter : after < key x)
    (hle : key x ≤ reached key after (page key limit l after)) : x ∈ page key limit l after := by
  have hsorted : x ∈ (l.filter fun x => after < key x).insertionSort fun x y => key x ≤ key y := by
    rw [List.mem_insertionSort,List.mem_filter]
    exact ⟨hx,decide_eq_true hafter⟩
  rw [← List.take_append_drop limit (List.insertionSort _ _),List.mem_append] at hsorted
  rcases hsorted with hm | hm
  · exact hm
  · have hle' := sorted_rows key (l.filter fun x => after < key x)
    rw [← List.take_append_drop limit (List.insertionSort _ _),List.pairwise_append] at hle'
    rw [reached] at hle
    cases hlast : (page key limit l after).getLast? with
    | none =>
      rw [hlast] at hle
      simp only [Option.map_none,Option.getD_none] at hle
      omega
    | some last =>
      rw [hlast] at hle
      have hmem := List.mem_of_getLast? hlast
      have hge := hle'.2.2 last hmem x hm
      have heq : x = last := List.inj_on_of_nodup_map hl hx (mem_of_mem_page hmem).1
        (Nat.le_antisymm hle hge)
      exact heq ▸ hmem

theorem le_of_page_eq_nil (hlimit : 0 < limit) (h : page key limit l after = []) (hx : x ∈ l) :
    key x ≤ after := by
  rw [page,List.take_eq_nil_iff] at h
  rcases h with h | h
  · omega
  · by_contra hgt
    have hm : x ∈ (l.filter fun x => after < key x).insertionSort fun x y => key x ≤ key y := by
      rw [List.mem_insertionSort,List.mem_filter]
      exact ⟨hx,decide_eq_true (by omega)⟩
    rw [h] at hm
    cases hm

end Pages
