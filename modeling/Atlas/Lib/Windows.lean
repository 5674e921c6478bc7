import Mathlib.Data.List.Basic

/-! The end of a list from one of the last marked elements on. -/
namespace Windows

variable {α : Type} (p : α → Bool)

/-- The places of the marked elements, counted from a first place on. -/
def places : List α → ℕ → List ℕ
  | [],_ => []
  | x :: l,k => if p x then k :: places l (k + 1) else places l (k + 1)

theorem length_places (l : List α) (k : ℕ) : (places p l k).length = l.countP p := by
  induction l generalizing k with
  | nil => rfl
  | cons x l ih => by_cases hx : p x = true <;> simp [places,hx,ih]

/-- The list from the last of the given number of marked elements on. -/
def ending (n : ℕ) (l : List α) : List α :=
  l.drop ((places p l 0).getD ((places p l 0).length - n) 0)

/-- The list from the last of the given number of marked elements on; all of it if there are no
more. -/
def window (n : ℕ) (l : List α) : List α := if l.countP p ≤ n then l else ending p n l

/-- An end of a list that starts at a marked element and holds the given number of them. -/
structure EndsAt (n : ℕ) (l e : List α) : Prop where
  suffix : e <:+ l
  marked : ∃ x rest, e = x :: rest ∧ p x = true
  count : e.countP p = n

variable {p}

theorem EndsAt.cons {n : ℕ} {l e : List α} (h : EndsAt p n l e) (x : α) : EndsAt p n (x :: l) e :=
  ⟨h.suffix.trans (List.suffix_cons x l),h.marked,h.count⟩

theorem drop_places (n : ℕ) (l : List α) (k : ℕ) (hn : 0 < n) (hl : n ≤ l.countP p) :
    ∃ i, (places p l k).getD ((places p l k).length - n) 0 = k + i ∧ EndsAt p n l (l.drop i) := by
  induction l generalizing k with
  | nil => simp at hl; omega
  | cons x l ih =>
    by_cases hx : p x = true
    · simp only [places,hx,if_true,List.length_cons,length_places]
      rw [List.countP_cons_of_pos hx] at hl
      by_cases hlast : n = l.countP p + 1
      · refine ⟨0,by simp [hlast],⟨List.suffix_refl _,⟨x,l,rfl,hx⟩,?_⟩⟩
        rw [List.drop_zero,List.countP_cons_of_pos hx,hlast]
      · obtain ⟨i,hi,hend⟩ := ih (k + 1) (by omega)
        rw [length_places] at hi
        have hplace : l.countP p + 1 - n = l.countP p - n + 1 := by omega
        refine ⟨i + 1,?_,hend.cons x⟩
        rw [hplace,List.getD_cons_succ,hi]
        omega
    · simp only [places,hx]
      rw [List.countP_cons_of_neg hx] at hl
      obtain ⟨i,hi,hend⟩ := ih (k + 1) hl
      refine ⟨i + 1,?_,hend.cons x⟩
      simp only [Bool.false_eq_true,if_false,hi]
      omega

theorem window_all {n : ℕ} {l : List α} (h : l.countP p ≤ n) : window p n l = l := by
  simp [window,h]

theorem ending_ends {n : ℕ} {l : List α} (hn : 0 < n) (h : n ≤ l.countP p) :
    EndsAt p n l (ending p n l) := by
  obtain ⟨i,hi,hend⟩ := drop_places n l 0 hn h
  rw [ending,hi,Nat.zero_add]
  exact hend

theorem ending_suffix (n : ℕ) (l : List α) : ending p n l <:+ l := List.drop_suffix _ l

theorem ending_none {l : List α} (n : ℕ) (h : l.countP p = 0) : ending p n l = l := by
  have hplaces : places p l 0 = [] := List.length_eq_zero_iff.mp ((length_places p l 0).trans h)
  rw [ending,hplaces]
  rfl

theorem window_more {n : ℕ} {l : List α} (h : n < l.countP p) : window p n l = ending p n l :=
  if_neg (by omega)

/-- Two ends with the same marked elements start at the same one. -/
theorem EndsAt.unique {n : ℕ} {l e e' : List α} (h : EndsAt p n l e) (h' : EndsAt p n l e') :
    e = e' := by
  have hshort : ∀ {e e' : List α}, EndsAt p n l e → EndsAt p n l e' → e.length ≤ e'.length →
      e = e' := by
    intro e e' h h' hlength
    obtain ⟨pre,rfl⟩ := List.suffix_of_suffix_length_le h.suffix h'.suffix hlength
    cases pre with
    | nil => rfl
    | cons x pre =>
      obtain ⟨y,rest,hy,hmarked⟩ := h'.marked
      have hcount := h'.count
      rw [List.cons_append] at hy
      cases hy
      rw [List.cons_append,List.countP_cons_of_pos hmarked,List.countP_append,h.count] at hcount
      omega
  rcases Nat.le_total e.length e'.length with hle | hle
  · exact hshort h h' hle
  · exact (hshort h' h hle).symm

/-- The end of a window is that of the list. -/
theorem ending_window {m n : ℕ} (l : List α) (hm : 0 < m) (hmn : m ≤ n) :
    ending p m (window p n l) = ending p m l := by
  by_cases hn : l.countP p ≤ n
  · rw [window_all hn]
  have hends := ending_ends (p := p) (show 0 < n by omega) (Nat.le_of_not_le hn)
  rw [window_more (Nat.lt_of_not_le hn)]
  have hsmall := ending_ends (p := p) (l := ending p n l) hm (by rw [hends.count]; omega)
  have hlarge := ending_ends (p := p) (l := l) hm (by omega)
  exact EndsAt.unique ⟨hsmall.suffix.trans hends.suffix,hsmall.marked,hsmall.count⟩ hlarge

theorem countP_window {n : ℕ} {l : List α} (hn : 0 < n) :
    (window p n l).countP p = min n (l.countP p) := by
  by_cases h : l.countP p ≤ n
  · rw [window_all h]
    omega
  · rw [window_more (Nat.lt_of_not_le h),(ending_ends hn (Nat.le_of_not_le h)).count]
    omega

end Windows
