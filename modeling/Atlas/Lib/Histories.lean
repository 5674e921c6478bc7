import Atlas.Lib.RowTable

/-! Histories of a deterministic machine: the list of the steps taken so far. How often a condition
comes to hold, where it came to hold first, and what becomes of the rows of a table meanwhile. -/
namespace Histories

variable {σ α : Type*}

/-- The number of steps at which a condition comes to hold. -/
def entries (step : σ → α → σ) (p : σ → Bool) : σ → List α → ℕ
  | _, [] => 0
  | s, a :: as => (if !p s && p (step s a) then 1 else 0) + entries step p (step s a) as

variable {step : σ → α → σ} {p : σ → Bool}

theorem entries_append (as bs : List α) : ∀ s : σ, entries step p s (as ++ bs) =
    entries step p s as + entries step p (as.foldl step s) bs := by
  induction as with
  | nil => intro s; simp [entries]
  | cons a as ih => intro s; simp [entries,ih,Nat.add_assoc]

/-- A rank that no step lowers is left behind for good, and with it what holds below it only. -/
theorem entries_eq_zero {rank : σ → ℕ} (hrank : ∀ s a, rank s ≤ rank (step s a)) {n : ℕ}
    (hp : ∀ s, p s = true → rank s ≤ n) (as : List α) :
    ∀ {s : σ}, n < rank s → entries step p s as = 0 := by
  induction as with
  | nil => intro s _; rfl
  | cons a as ih =>
    intro s hs
    have hnext : n < rank (step s a) := Nat.lt_of_lt_of_le hs (hrank s a)
    have hnot : p (step s a) = false := by
      by_contra hn
      have hle := hp _ (by simpa using hn)
      omega
    simp [entries,hnot,ih hnext]

/-- A rank that has not been reached yet was never reached before. -/
theorem entries_eq_zero_of_last {rank : σ → ℕ} (hrank : ∀ s a, rank s ≤ rank (step s a)) {n : ℕ}
    (hp : ∀ s, p s = true → n ≤ rank s) (s : σ) (as : List α)
    (h : rank (as.foldl step s) < n) : entries step p s as = 0 := by
  induction as using List.reverseRecOn with
  | nil => rfl
  | append_singleton as a ih =>
    rw [List.foldl_append,List.foldl_cons,List.foldl_nil] at h
    have hle := hrank (as.foldl step s) a
    have hnot : p (step (as.foldl step s) a) = false := by
      by_contra hn
      have := hp _ (by simpa using hn)
      omega
    simp [entries_append,entries,hnot,ih (by omega)]

/-- What holds at one rank only, and of every state of that rank, comes to hold at most once. -/
theorem entries_le_one {rank : σ → ℕ} (hrank : ∀ s a, rank s ≤ rank (step s a)) {n : ℕ}
    (hp : ∀ s, p s = true ↔ rank s = n) (as : List α) :
    ∀ s : σ, entries step p s as ≤ 1 ∧ (p s = true → entries step p s as = 0) := by
  induction as with
  | nil => intro s; simp [entries]
  | cons a as ih =>
    intro s
    obtain ⟨hone,hzero⟩ := ih (step s a)
    by_cases hs : p s = true
    · simp only [entries,hs,Bool.not_true,Bool.false_and,Bool.false_eq_true,if_false,Nat.zero_add,
        forall_const]
      suffices h : entries step p (step s a) as = 0 by simp [h]
      by_cases hn : p (step s a) = true
      · exact hzero hn
      · apply entries_eq_zero hrank (n := n) fun t ht => Nat.le_of_eq ((hp t).mp ht)
        have hle := hrank s a
        have heq := (hp s).mp hs
        have hne : rank (step s a) ≠ n := fun h => hn ((hp _).mpr h)
        omega
    · refine ⟨?_,fun h => absurd h hs⟩
      simp only [entries,hs,Bool.not_false,Bool.true_and]
      by_cases hn : p (step s a) = true
      · simp [hn,hzero hn]
      · simpa [hn] using hone

/-- The step at which a condition came to hold. -/
theorem exists_entry (as : List α) {s : σ} (hs : p s = false)
    (h : p (as.foldl step s) = true) : ∃ before a after, as = before ++ a :: after ∧
      p (before.foldl step s) = false ∧ p ((before ++ [a]).foldl step s) = true := by
  induction as using List.reverseRecOn with
  | nil => simp [hs] at h
  | append_singleton as a ih =>
    by_cases hp : p (as.foldl step s) = true
    · obtain ⟨before,b,after,rfl,hb⟩ := ih hp
      exact ⟨before,b,after ++ [a],by simp,hb⟩
    · exact ⟨as,a,[],rfl,by simpa using hp,h⟩

end Histories

namespace RowTable

variable {ρ : Type*} {R : ρ → ρ → Prop} {t t' t'' : List ρ}

/-- Every row is still there, in a relation to what it was. -/
def Evolves (R : ρ → ρ → Prop) (t t' : List ρ) : Prop :=
  ∀ (i : ℕ) (r : ρ), t[i]? = some r → ∃ r', t'[i]? = some r' ∧ R r r'

namespace Evolves

theorem of_eq (hrefl : ∀ r, R r r) (h : t' = t) : Evolves R t t' :=
  fun _ r hr => ⟨r,h ▸ hr,hrefl r⟩

theorem trans (htrans : ∀ {a b c}, R a b → R b c → R a c) (h : Evolves R t t')
    (h' : Evolves R t' t'') : Evolves R t t'' := by
  intro i r hr
  obtain ⟨r',hr',hb⟩ := h i r hr
  obtain ⟨r'',hr'',hc⟩ := h' i r' hr'
  exact ⟨r'',hr'',htrans hb hc⟩

theorem mono {R' : ρ → ρ → Prop} (hR : ∀ {a b}, R a b → R' a b) (h : Evolves R t t') :
    Evolves R' t t' := by
  intro i r hr
  obtain ⟨r',hr',hb⟩ := h i r hr
  exact ⟨r',hr',hR hb⟩

theorem added (hrefl : ∀ r, R r r) {x : ρ} (h : t' = t ++ [x]) : Evolves R t t' := by
  intro i r hr
  exact ⟨r,by rw [h]; exact getElem?_insert_of_some hr,hrefl r⟩

theorem changed (hrefl : ∀ r, R r r) {i : ℕ} {r r' : ρ} (h : Changes t t' i r r') (hR : R r r') :
    Evolves R t t' := by
  intro j x hx
  by_cases hj : j = i
  · subst hj
    obtain rfl := Option.some.inj (h.before.symm.trans hx)
    exact ⟨r',h.after,hR⟩
  · exact ⟨x,(h.others j hj).trans hx,hrefl x⟩

theorem modified (hrefl : ∀ r, R r r) {i : ℕ} {f : ρ → ρ} (h : t' = t.modify i f)
    (hR : ∀ r, t[i]? = some r → R r (f r)) : Evolves R t t' := by
  subst h
  intro j x hx
  by_cases hj : i = j
  · subst hj
    exact ⟨f x,by simp [hx],hR x hx⟩
  · exact ⟨x,by rw [getElem?_modify_ne t f hj]; exact hx,hrefl x⟩

theorem isSome (h : Evolves R t t') {i : ℕ} (hi : (t[i]?).isSome) : (t'[i]?).isSome := by
  obtain ⟨r,hr⟩ := Option.isSome_iff_exists.mp hi
  obtain ⟨r',hr',_⟩ := h i r hr
  simp [hr']

end Evolves

end RowTable
