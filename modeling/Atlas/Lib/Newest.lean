import Atlas.Lib.Pages

/-! The newest items of a keyed collection, oldest of them first. -/
namespace Newest

variable {α : Type*}

/-- The `n` items with the greatest keys, the newest of them first. -/
def latestFirst (key : α → ℕ) (n : ℕ) (l : List α) : List α :=
  (l.insertionSort fun x y => key y ≤ key x).take n

/-- The `n` items with the greatest keys, in the order of their keys. -/
def latest (key : α → ℕ) (n : ℕ) (l : List α) : List α := (latestFirst key n l).reverse

variable {key : α → ℕ} {n : ℕ} {l : List α} {x y : α}

theorem mem_of_mem_latestFirst (h : x ∈ latestFirst key n l) : x ∈ l :=
  (List.mem_insertionSort _).mp (List.mem_of_mem_take h)

theorem mem_of_mem_newest (h : x ∈ latest key n l) : x ∈ l :=
  mem_of_mem_latestFirst (List.mem_reverse.mp h)

theorem latestFirst_eq_nil (hn : 0 < n) (h : latestFirst key n l = []) : l = [] := by
  rw [latestFirst,List.take_eq_nil_iff] at h
  have hlength := List.length_insertionSort (fun x y => key y ≤ key x) l
  rw [h.resolve_left (by omega)] at hlength
  exact List.length_eq_zero_iff.mp hlength.symm

theorem length_newest (key : α → ℕ) (n : ℕ) (l : List α) :
    (latest key n l).length = min n l.length := by
  rw [latest,latestFirst,List.length_reverse,List.length_take,List.length_insertionSort]

theorem sorted_down (key : α → ℕ) (l : List α) :
    (l.insertionSort fun x y => key y ≤ key x).Pairwise fun x y => key y ≤ key x := by
  have : Std.Total fun x y : α => key y ≤ key x := ⟨fun x y => Nat.le_total _ _⟩
  have : IsTrans α fun x y => key y ≤ key x := ⟨fun _ _ _ h h' => Nat.le_trans h' h⟩
  exact List.pairwise_insertionSort _ l

/-- The first of the newest items is the newest of all. -/
theorem le_of_head_latestFirst (h : (latestFirst key n l).head? = some x) (hy : y ∈ l) :
    key y ≤ key x := by
  obtain ⟨rest,hrest⟩ : ∃ rest, latestFirst key n l = x :: rest :=
    List.head?_eq_some_iff.mp h
  have hin := (List.mem_insertionSort fun x y => key y ≤ key x).mpr hy
  have hle := sorted_down key l
  rw [← List.take_append_drop n (List.insertionSort _ _)] at hin hle
  rw [latestFirst] at hrest
  rw [hrest,List.cons_append] at hin hle
  rcases List.mem_cons.mp hin with rfl | hin
  · exact Nat.le_refl _
  · exact (List.pairwise_cons.mp hle).1 y hin

/-- Where keys are distinct the newest items are strictly ordered. -/
theorem newest_ordered (hl : (l.map key).Nodup) :
    (latest key n l).Pairwise (key · < key ·) := by
  have hperm := List.perm_insertionSort (fun x y => key y ≤ key x) l
  have hne : (l.insertionSort fun x y => key y ≤ key x).Pairwise (key · ≠ key ·) :=
    List.pairwise_map.mp ((hperm.map key).nodup_iff.mpr hl)
  have hlt : (l.insertionSort fun x y => key y ≤ key x).Pairwise fun x y => key y < key x := by
    refine ((sorted_down key l).and hne).imp fun h => ?_
    omega
  exact List.pairwise_reverse.mpr (hlt.sublist (List.take_sublist n _))

/-- What is left out is not newer than what is kept. -/
theorem le_of_not_mem_newest (hy : y ∈ l) (hout : y ∉ latest key n l) (hx : x ∈ latest key n l) :
    key y ≤ key x := by
  rw [latest,latestFirst,List.mem_reverse] at hout hx
  have hin := (List.mem_insertionSort fun x y => key y ≤ key x).mpr hy
  have hle := sorted_down key l
  rw [← List.take_append_drop n (List.insertionSort _ _),List.pairwise_append] at hle
  rw [← List.take_append_drop n (List.insertionSort _ _),List.mem_append] at hin
  exact hle.2.2 x hx y (hin.resolve_left hout)

theorem lt_of_not_mem_newest (hl : (l.map key).Nodup) (hy : y ∈ l) (hout : y ∉ latest key n l)
    (hx : x ∈ latest key n l) : key y < key x := by
  refine Nat.lt_of_le_of_ne (le_of_not_mem_newest hy hout hx) fun heq => hout ?_
  rw [List.inj_on_of_nodup_map hl hy (mem_of_mem_newest hx) heq]
  exact hx

/-- Where one item is asked for it is the newest. -/
theorem newest_one_max (hx : x ∈ l) :
    ∃ y ∈ l, latest key 1 l = [y] ∧ ∀ z ∈ l, key z ≤ key y := by
  have hlength := length_newest key 1 l
  have hpos := List.length_pos_of_mem hx
  obtain ⟨y,hy⟩ := List.length_eq_one_iff.mp (hlength.trans (by omega))
  have hmem : y ∈ latest key 1 l := by
    rw [hy]
    exact List.mem_singleton_self y
  refine ⟨y,mem_of_mem_newest hmem,hy,fun z hz => ?_⟩
  by_cases hin : z ∈ latest key 1 l
  · rw [hy,List.mem_singleton] at hin
    rw [hin]
  · exact le_of_not_mem_newest hz hin hmem

theorem newest_one (hl : (l.map key).Nodup) (hx : x ∈ l) (hmax : ∀ y ∈ l, key y ≤ key x) :
    latest key 1 l = [x] := by
  obtain ⟨y,hy,hone,hle⟩ := @newest_one_max _ key _ _ hx
  rw [hone,List.inj_on_of_nodup_map hl hx hy (Nat.le_antisymm (hle x hx) (hmax y hy))]

end Newest
