import Atlas.Lib.RowTable

/-! Counting rows across the change of one row or the addition of one. -/
namespace RowTable

variable {ρ σ : Type*}

theorem Changes.eq_modify {t t' : List ρ} {i : ℕ} {r r' : ρ} (h : Changes t t' i r r') :
    t' = t.modify i fun _ => r' := by
  apply List.ext_getElem?
  intro j
  by_cases hj : i = j
  · subst hj
    rw [h.after,getElem?_modify_self,h.before]
    rfl
  · rw [h.others j (Ne.symm hj),getElem?_modify_ne _ _ hj]

theorem Changes.countP_le {t t' : List ρ} {i : ℕ} {r r' : ρ} (h : Changes t t' i r r')
    {p : ρ → Bool} (hp : p r' = true → p r = true) : t'.countP p ≤ t.countP p := by
  rw [h.eq_modify]
  apply countP_modify_le
  intro x hx hpx
  obtain rfl := Option.some.inj (h.before.symm.trans hx)
  exact hp hpx

theorem Changes.countP_eq {t t' : List ρ} {i : ℕ} {r r' : ρ} (h : Changes t t' i r r')
    {p : ρ → Bool} (hp : p r' = p r) : t'.countP p = t.countP p := by
  rw [h.eq_modify]
  apply countP_modify_eq
  intro x hx
  obtain rfl := Option.some.inj (h.before.symm.trans hx)
  exact hp

theorem Changes.map {t t' : List ρ} {i : ℕ} {r r' : ρ} (h : Changes t t' i r r') (g : ρ → σ) :
    Changes (t.map g) (t'.map g) i (g r) (g r') := by
  refine ⟨by simp [h.before],by simp [h.after],fun j hj => ?_⟩
  rw [List.getElem?_map,List.getElem?_map,h.others j hj]

theorem map_modify_eq {t : List ρ} (i : ℕ) {f : ρ → ρ} {g : ρ → σ} (hg : ∀ r, g (f r) = g r) :
    (t.modify i f).map g = t.map g := by
  apply List.ext_getElem?
  intro j
  rw [List.getElem?_map,List.getElem?_map]
  exact map_column_modify t i f g hg j

theorem modify_of_eq {t : List ρ} {i : ℕ} {f : ρ → ρ} (h : ∀ r, t[i]? = some r → f r = r) :
    t.modify i f = t := by
  apply List.ext_getElem?
  intro j
  by_cases hj : i = j
  · subst hj
    rw [getElem?_modify_self]
    cases hr : t[i]? with
    | none => rfl
    | some r => simp [h r hr]
  · rw [getElem?_modify_ne _ _ hj]

end RowTable
