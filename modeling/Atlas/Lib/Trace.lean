import Mathlib.Data.List.Basic
import Mathlib.Data.List.Nodup

/-! Runs of a deterministic transition function under a guard on the steps taken,
with the induction rules for invariants, stable properties and loops over rows. -/
namespace Trace

variable {σ α β γ : Type*}

/-- States reached from an initial state by steps that satisfy the guard. -/
inductive Reach (step : σ → α → σ) (ok : σ → α → Prop) (init : σ → Prop) : σ → Prop
  | start {s : σ} : init s → Reach step ok init s
  | next {s : σ} {a : α} : Reach step ok init s → ok s a → Reach step ok init (step s a)

/-- Runs of guarded steps from one state to a later one. -/
inductive Path (step : σ → α → σ) (ok : σ → α → Prop) (s : σ) : σ → Prop
  | refl : Path step ok s s
  | tail {t : σ} {a : α} : Path step ok s t → ok t a → Path step ok s (step t a)

variable {step : σ → α → σ} {ok : σ → α → Prop} {init : σ → Prop}

theorem Reach.invariant {I : σ → Prop} (hinit : ∀ s, init s → I s)
    (hstep : ∀ s a, I s → ok s a → I (step s a)) {s : σ} (h : Reach step ok init s) : I s := by
  induction h with
  | start hs => exact hinit _ hs
  | next _ ha ih => exact hstep _ _ ih ha

theorem Reach.mono {ok' : σ → α → Prop} (hok : ∀ s a, ok s a → ok' s a) {s : σ}
    (h : Reach step ok init s) : Reach step ok' init s := by
  induction h with
  | start hs => exact .start hs
  | next _ ha ih => exact .next ih (hok _ _ ha)

theorem Reach.path {s t : σ} (h : Reach step ok init s) (hp : Path step ok s t) :
    Reach step ok init t := by
  induction hp with
  | refl => exact h
  | tail _ ha ih => exact .next ih ha

/-- A property that every guarded step out of a reachable state keeps holds ever after. -/
theorem Path.stable {I : σ → Prop}
    (hstep : ∀ t a, Reach step ok init t → I t → ok t a → I (step t a))
    {s t : σ} (hs : Reach step ok init s) (hp : Path step ok s t) (hi : I s) : I t := by
  induction hp with
  | refl => exact hi
  | tail hst ha ih => exact hstep _ _ (hs.path hst) ih ha

/-- A list of steps, each of which satisfies the guard where it is taken. -/
def Allowed (step : σ → α → σ) (ok : σ → α → Prop) : σ → List α → Prop
  | _, [] => True
  | s, a :: as => ok s a ∧ Allowed step ok (step s a) as

instance [∀ s a, Decidable (ok s a)] : ∀ (s : σ) (as : List α), Decidable (Allowed step ok s as)
  | _, [] => .isTrue trivial
  | s, a :: as =>
      have := instDecidableAllowed (step s a) as
      inferInstanceAs (Decidable (ok s a ∧ Allowed step ok (step s a) as))

theorem Reach.run {s : σ} (h : Reach step ok init s) {as : List α} (has : Allowed step ok s as) :
    Reach step ok init (as.foldl step s) := by
  induction as generalizing s with
  | nil => exact h
  | cons a as ih => exact ih (.next h has.1) has.2

/-- Where no step is ruled out every list of steps is a run. -/
theorem Reach.steps {s : σ} (h : Reach step (fun _ _ => True) init s) (as : List α) :
    Reach step (fun _ _ => True) init (as.foldl step s) := by
  induction as generalizing s with
  | nil => exact h
  | cons a as ih => exact ih (.next h trivial)

theorem foldl_invariant {I : σ → Prop} {f : σ → β → σ} (l : List β)
    (hf : ∀ s, ∀ b ∈ l, I s → I (f s b)) {s : σ} (hs : I s) : I (l.foldl f s) := by
  induction l generalizing s with
  | nil => exact hs
  | cons b l ih =>
    exact ih (fun s x hx => hf s x (List.mem_cons_of_mem _ hx)) (hf s b List.mem_cons_self hs)

/-- A loop that treats each listed key once and leaves the others alone. -/
theorem foldl_rows {κ : Type*} {g : σ → κ → γ} {f : σ → β → σ} {k : β → κ} {R : β → γ → γ → Prop}
    {I : σ → Prop} (l : List β) (hl : (l.map k).Nodup)
    (hframe : ∀ s b j, I s → j ≠ k b → g (f s b) j = g s j)
    (hI : ∀ s b, I s → I (f s b))
    (hrow : ∀ s, ∀ b ∈ l, I s → R b (g s (k b)) (g (f s b) (k b))) {s : σ} (hs : I s) (j : κ) :
    (j ∉ l.map k ∧ g (l.foldl f s) j = g s j) ∨
      ∃ b ∈ l, k b = j ∧ R b (g s j) (g (l.foldl f s) j) := by
  induction l generalizing s with
  | nil => exact Or.inl ⟨List.not_mem_nil,rfl⟩
  | cons b l ih =>
    rw [List.map_cons,List.nodup_cons] at hl
    have hrest := ih hl.2 (fun s x hx => hrow s x (List.mem_cons_of_mem _ hx)) (hI s b hs)
    simp only [List.foldl_cons]
    by_cases hj : j = k b
    · subst hj
      rcases hrest with ⟨_,he⟩ | ⟨x,hx,hk,_⟩
      · refine Or.inr ⟨b,List.mem_cons_self,rfl,?_⟩
        rw [he]
        exact hrow s b List.mem_cons_self hs
      · exact absurd (hk ▸ List.mem_map_of_mem hx) hl.1
    · have hf := hframe s b j hs hj
      rcases hrest with ⟨hm,he⟩ | ⟨x,hx,hk,hr⟩
      · exact Or.inl ⟨by simpa [hj] using hm,he.trans hf⟩
      · exact Or.inr ⟨x,List.mem_cons_of_mem _ hx,hk,hf ▸ hr⟩

/-- A loop whose rounds each take the state to a related one. -/
theorem foldl_rel {R : σ → σ → Prop} (hrefl : ∀ s, R s s) (htrans : ∀ {s t u}, R s t → R t u → R s u)
    {f : σ → β → σ} (l : List β) (hstep : ∀ t b, R t (f t b)) (s : σ) : R s (l.foldl f s) :=
  foldl_invariant (I := R s) l (fun _ _ _ ht => htrans ht (hstep _ _)) (hrefl s)

/-- A loop over keys, each named once, whose rounds need what only they change. -/
theorem foldl_keyed {κ : Type*} {R : σ → σ → Prop} (hrefl : ∀ s, R s s)
    (htrans : ∀ {s t u}, R s t → R t u → R s u) {f : σ → β → σ} {k : β → κ} {g : σ → κ → γ}
    {Q : β → γ → Prop} (l : List β) (hl : (l.map k).Nodup)
    (hstep : ∀ t, ∀ b ∈ l, Q b (g t (k b)) → R t (f t b))
    (hframe : ∀ t, ∀ b ∈ l, ∀ j, j ≠ k b → g (f t b) j = g t j)
    {s : σ} (hq : ∀ b ∈ l, Q b (g s (k b))) : R s (l.foldl f s) := by
  induction l generalizing s with
  | nil => exact hrefl s
  | cons b l ih =>
    rw [List.map_cons,List.nodup_cons] at hl
    refine htrans (hstep s b List.mem_cons_self (hq b List.mem_cons_self)) (ih hl.2
      (fun t x hx => hstep t x (List.mem_cons_of_mem _ hx))
      (fun t x hx => hframe t x (List.mem_cons_of_mem _ hx)) fun x hx => ?_)
    have hne : k x ≠ k b := fun he => hl.1 (he ▸ List.mem_map_of_mem hx)
    rw [hframe s b List.mem_cons_self _ hne]
    exact hq x (List.mem_cons_of_mem _ hx)

end Trace
