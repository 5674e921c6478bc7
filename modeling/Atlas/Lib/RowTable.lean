import Mathlib.Data.List.Basic
import Mathlib.Data.List.Induction
import Mathlib.Data.List.Nodup

/-! Append-only tables. A row is never removed and is identified by its position,
so identifiers are unique by construction and list order is creation order. -/
namespace RowTable

variable {ρ σ : Type*}

/-- Identifiers of the rows that satisfy a condition, in creation order. -/
def ids (p : ρ → Bool) (t : List ρ) : List ℕ :=
  (List.range t.length).filter fun i => (t[i]?).any p

theorem mem_ids {p : ρ → Bool} {t : List ρ} {i : ℕ} :
    i ∈ ids p t ↔ ∃ r, t[i]? = some r ∧ p r = true := by
  simp only [ids,List.mem_filter,List.mem_range,Option.any_eq_true]
  constructor
  · rintro ⟨_,r,hr,hp⟩
    exact ⟨r,hr,hp⟩
  · rintro ⟨r,hr,hp⟩
    exact ⟨(List.getElem?_eq_some_iff.mp hr).1,r,hr,hp⟩

theorem nodup_ids (p : ρ → Bool) (t : List ρ) : (ids p t).Nodup :=
  List.nodup_range.filter _

@[simp] theorem getElem?_modify_self (t : List ρ) (i : ℕ) (f : ρ → ρ) :
    (t.modify i f)[i]? = t[i]?.map f := by
  simp

@[simp] theorem getElem?_modify_ne (t : List ρ) {i j : ℕ} (f : ρ → ρ) (h : i ≠ j) :
    (t.modify i f)[j]? = t[j]? := by
  simp [h]

theorem getElem?_insert (t : List ρ) (r : ρ) (i : ℕ) :
    (t ++ [r])[i]? = if i = t.length then some r else t[i]? := by
  rcases Nat.lt_trichotomy i t.length with h | h | h
  · rw [List.getElem?_append_left h,if_neg (Nat.ne_of_lt h)]
  · simp [h]
  · have hn : t[i]? = none := List.getElem?_eq_none (Nat.le_of_lt h)
    rw [if_neg (Nat.ne_of_gt h),hn]
    exact List.getElem?_eq_none (by simpa using Nat.succ_le_of_lt h)

theorem getElem?_insert_of_some {t : List ρ} {r x : ρ} {i : ℕ} (h : t[i]? = some x) :
    (t ++ [r])[i]? = some x := by
  rw [List.getElem?_append_left (List.getElem?_eq_some_iff.mp h).1,h]

/-- A row of an updated table is an old one or the update of the one at the position. -/
theorem mem_modify {t : List ρ} {i : ℕ} {f : ρ → ρ} {x : ρ} (h : x ∈ t.modify i f) :
    x ∈ t ∨ ∃ y, t[i]? = some y ∧ x = f y := by
  obtain ⟨j,hj⟩ := List.mem_iff_getElem?.mp h
  by_cases hij : i = j
  · subst hij
    rw [getElem?_modify_self] at hj
    obtain ⟨y,hy,rfl⟩ := Option.map_eq_some_iff.mp hj
    exact Or.inr ⟨y,hy,rfl⟩
  · rw [getElem?_modify_ne t f hij] at hj
    exact Or.inl (List.mem_of_getElem? hj)

/-- Rows with the same key in a column without repetitions are one row. -/
theorem eq_of_nodup_filterMap {f : ρ → Option σ} {t : List ρ} (h : (t.filterMap f).Nodup)
    {i j : ℕ} {x y : ρ} {k : σ} (hi : t[i]? = some x) (hj : t[j]? = some y) (hx : f x = some k)
    (hy : f y = some k) : i = j := by
  rw [List.Nodup,List.pairwise_filterMap,List.pairwise_iff_getElem] at h
  obtain ⟨hli,rfl⟩ := List.getElem?_eq_some_iff.mp hi
  obtain ⟨hlj,rfl⟩ := List.getElem?_eq_some_iff.mp hj
  rcases Nat.lt_trichotomy i j with hlt | rfl | hlt
  · exact absurd rfl (h i j hli hlj hlt k hx k hy)
  · rfl
  · exact absurd rfl (h j i hlj hli hlt k hy k hx)

/-- A column of the table that the update leaves alone is the same afterwards. -/
theorem map_column_modify {β : Type*} (t : List ρ) (i : ℕ) (f : ρ → ρ) (g : ρ → β)
    (hg : ∀ r, g (f r) = g r) (j : ℕ) : ((t.modify i f)[j]?).map g = (t[j]?).map g := by
  rw [List.getElem?_modify]
  cases t[j]? with
  | none => rfl
  | some r => by_cases h : i = j <;> simp [h,hg]

/-- One row of the table changed from one value to another, the rest is as before. -/
structure Changes (t t' : List ρ) (i : ℕ) (r r' : ρ) : Prop where
  before : t[i]? = some r
  after : t'[i]? = some r'
  others : ∀ j, j ≠ i → t'[j]? = t[j]?

namespace Changes

variable {t t' t'' : List ρ} {i : ℕ} {r r' r'' : ρ}

theorem modify (h : t[i]? = some r) (f : ρ → ρ) : Changes t (t.modify i f) i r (f r) :=
  ⟨h,by rw [getElem?_modify_self,h]; rfl,fun _ hj => getElem?_modify_ne t f (Ne.symm hj)⟩

theorem refl (h : t[i]? = some r) : Changes t t i r r := ⟨h,h,fun _ _ => rfl⟩

theorem trans (h : Changes t t' i r r') (h' : Changes t' t'' i r' r'') : Changes t t'' i r r'' :=
  ⟨h.before,h'.after,fun j hj => (h'.others j hj).trans (h.others j hj)⟩

theorem modify_twice (h : t[i]? = some r) (f g : ρ → ρ) :
    Changes t ((t.modify i f).modify i g) i r (g (f r)) :=
  (modify h f).trans (modify (modify h f).after g)

/-- The rows afterwards are the changed one and the old ones elsewhere. -/
theorem cases (h : Changes t t' i r r') {j : ℕ} {x : ρ} (hx : t'[j]? = some x) :
    (j = i ∧ x = r') ∨ (j ≠ i ∧ t[j]? = some x) := by
  by_cases hj : j = i
  · subst hj
    exact Or.inl ⟨rfl,Option.some.inj (hx.symm.trans h.after)⟩
  · exact Or.inr ⟨hj,(h.others j hj).symm.trans hx⟩

theorem isSome (h : Changes t t' i r r') (j : ℕ) : (t'[j]?).isSome = (t[j]?).isSome := by
  by_cases hj : j = i
  · subst hj
    rw [h.before,h.after]
    rfl
  · rw [h.others j hj]

theorem length (h : Changes t t' i r r') : t'.length = t.length := by
  have hn : ∀ j : ℕ, t'[j]? = none ↔ t[j]? = none := by
    intro j
    rw [← Option.not_isSome_iff_eq_none,← Option.not_isSome_iff_eq_none,h.isSome j]
  simp only [List.getElem?_eq_none_iff] at hn
  have h₁ := hn t.length
  have h₂ := hn t'.length
  omega

end Changes

theorem length_ids (p : ρ → Bool) (t : List ρ) : (ids p t).length = t.countP p := by
  induction t using List.reverseRecOn with
  | nil => rfl
  | append_singleton t r ih =>
    have hold : ((List.range t.length).filter fun i => ((t ++ [r])[i]?).any p) = ids p t := by
      apply List.filter_congr
      intro i hi
      rw [List.getElem?_append_left (List.mem_range.mp hi)]
    rw [List.countP_append,← ih,← hold,ids,List.length_append,List.length_singleton,
      List.range_succ,List.filter_append,List.length_append]
    by_cases hp : p r = true
    · simp [hp]
    · simp [hp]

theorem countP_modify_eq {p : ρ → Bool} {t : List ρ} {i : ℕ} {f : ρ → ρ}
    (h : ∀ r, t[i]? = some r → p (f r) = p r) : (t.modify i f).countP p = t.countP p := by
  induction t generalizing i with
  | nil => simp
  | cons x t ih =>
    cases i with
    | zero => simp [List.countP_cons,h x rfl]
    | succ i => simp [List.countP_cons,ih (i := i) fun r hr => h r (by simpa using hr)]

theorem countP_modify_le {p : ρ → Bool} {t : List ρ} {i : ℕ} {f : ρ → ρ}
    (h : ∀ r, t[i]? = some r → p (f r) = true → p r = true) :
    (t.modify i f).countP p ≤ t.countP p := by
  induction t generalizing i with
  | nil => simp
  | cons x t ih =>
    cases i with
    | zero =>
      have hx := h x rfl
      simp only [List.modify_zero_cons,List.countP_cons]
      by_cases hf : p (f x) = true
      · simp [hf,hx hf]
      · simp [hf]
    | succ i =>
      have := ih (i := i) (fun r hr => h r (by simpa using hr))
      simp only [List.modify_succ_cons,List.countP_cons]
      omega

/-- An update that takes a counted row out of the count. -/
theorem countP_modify_lt {p : ρ → Bool} {t : List ρ} {i : ℕ} {f : ρ → ρ} {r : ρ}
    (hr : t[i]? = some r) (hp : p r = true) (hf : p (f r) = false) :
    (t.modify i f).countP p + 1 = t.countP p := by
  induction t generalizing i with
  | nil => simp at hr
  | cons x t ih =>
    cases i with
    | zero =>
      obtain rfl : x = r := by simpa using hr
      simp [hp,hf]
    | succ i =>
      have := ih (i := i) (by simpa using hr)
      simp only [List.modify_succ_cons,List.countP_cons]
      omega

theorem countP_map_le {p : ρ → Bool} {t : List ρ} {f : ρ → ρ}
    (h : ∀ r, p (f r) = true → p r = true) : (t.map f).countP p ≤ t.countP p := by
  rw [List.countP_map]
  exact List.countP_mono_left fun r _ => h r

theorem countP_eq_zero_of_ids {p : ρ → Bool} {t : List ρ} (h : (ids p t).head? = none) :
    t.countP p = 0 := by
  rw [List.countP_eq_zero]
  intro r hr hp
  obtain ⟨i,hi⟩ := List.mem_iff_getElem?.mp hr
  rw [List.head?_eq_none_iff] at h
  exact List.not_mem_nil (h ▸ mem_ids.mpr ⟨r,hi,hp⟩)

end RowTable
