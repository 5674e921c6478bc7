import Atlas.Lib.Dialogue

/-! Any number of programs that put their requests to one host. A request may have to wait, a
program may be given up at any point, and what a program keeps is proved against everything that
the host and the other programs may do between two of its requests. -/
namespace Dialogue

variable {Q : Type} {R : Q → Type} {ε α β σ κ υ : Type}

/-- A host that programs share; a request that has to wait is not answered. -/
structure Shared (σ υ Q : Type) (R : Q → Type) where
  stir : σ → υ → σ
  enter : σ → ℕ → σ
  answer : σ → ℕ → (q : Q) → Option (R q × σ)
  leave : σ → ℕ → σ

/-- The invariant of the host, what each program may do to it, and the requests that are put. -/
structure Contract (σ Q : Type) where
  inv : σ → Prop
  does : ℕ → σ → σ → Prop
  may : σ → ℕ → Q → Prop

namespace Shared

variable (w : Shared σ υ Q R) (C : Contract σ Q)

/-- A change of the host that a program does not make itself. -/
def Around (i : ℕ) (s t : σ) : Prop :=
  C.inv s ∧ C.inv t ∧ ((∃ e, t = w.stir s e) ∨ ∃ j, j ≠ i ∧ C.does j s t)

def Meanwhile (i : ℕ) : σ → σ → Prop := Relation.ReflTransGen (w.Around C i)

/-- What the others cannot undo. -/
def Lasting (i : ℕ) (P : σ → Prop) : Prop := ∀ s t, w.Around C i s t → P s → P t

/-- Every request of the program keeps the contract, whatever happens in between, and the result
meets the postcondition. -/
def Honours (w : Shared σ υ Q R) (C : Contract σ Q) (i : ℕ) (Post : Except ε α → σ → Prop) :
    Prog Q R ε α → σ → Prop
  | .done r, s => ∀ t, w.Meanwhile C i s t → Post r t
  | .ask q k, s => ∀ t, w.Meanwhile C i s t → C.inv t → C.may t i q →
      ∀ r u, w.answer t i q = some (r,u) →
        C.inv u ∧ C.does i t u ∧ w.Honours C i Post (k r) u

variable {w C} {i : ℕ} {P P' : σ → Prop}

theorem Lasting.meanwhile (hP : w.Lasting C i P) {s t : σ} (h : w.Meanwhile C i s t) (hs : P s) :
    P t := by
  induction h with
  | refl => exact hs
  | tail _ hst ih => exact hP _ _ hst ih

theorem Lasting.and (hP : w.Lasting C i P) (hP' : w.Lasting C i P') :
    w.Lasting C i fun s => P s ∧ P' s := fun s t h hs => ⟨hP s t h hs.1,hP' s t h hs.2⟩

theorem Lasting.imp (hP : w.Lasting C i P) (c : Prop) : w.Lasting C i fun s => c → P s :=
  fun s t h hs hc => hP s t h (hs hc)

theorem lasting_true : w.Lasting C i fun _ => True := fun _ _ _ _ => trivial

section

variable {Post Post' : Except ε α → σ → Prop} {p : Prog Q R ε α} {s t : σ}

theorem Honours.meanwhile (h : w.Honours C i Post p s) (hst : w.Meanwhile C i s t) :
    w.Honours C i Post p t := by
  cases p with
  | done r => exact fun u hu => h u (hst.trans hu)
  | ask q k => exact fun u hu => h u (hst.trans hu)

theorem Honours.mono (h : w.Honours C i Post p s) (hpost : ∀ r u, Post r u → Post' r u) :
    w.Honours C i Post' p s := by
  induction p generalizing s with
  | done r => exact fun u hu => hpost r u (h u hu)
  | ask q k ih =>
    intro u hu hi hm r v hv
    have hstep := h u hu hi hm r v hv
    exact ⟨hstep.1,hstep.2.1,ih r hstep.2.2⟩

/-- A program goes on from every state in which its first part may end. -/
theorem Honours.bind {f : α → Prog Q R ε β} {Mid : Except ε α → σ → Prop}
    {Post : Except ε β → σ → Prop} (h : w.Honours C i Mid p s)
    (hok : ∀ a t, Mid (.ok a) t → w.Honours C i Post (f a) t)
    (herror : ∀ e t, Mid (.error e) t → Post (.error e) t) :
    w.Honours C i Post (p >>= f) s := by
  induction p generalizing s with
  | done r =>
    cases r with
    | ok a => exact hok a s (h s .refl)
    | error e => exact fun u hu => herror e u (h u hu)
  | ask q k ih =>
    intro u hu hi hm r v hv
    have hstep := h u hu hi hm r v hv
    exact ⟨hstep.1,hstep.2.1,ih r hstep.2.2⟩

theorem Honours.bind_returns {f : α → Prog Q R ε β} {mid : α → σ → Prop}
    {Post : Except ε β → σ → Prop} (h : w.Honours C i (World.Returns mid) p s)
    (hok : ∀ a t, mid a t → w.Honours C i Post (f a) t) : w.Honours C i Post (p >>= f) s :=
  h.bind hok fun _ _ hf => hf.elim

theorem Honours.done {r : Except ε α} (hP : w.Lasting C i P) (hs : P s)
    (h : ∀ u, P u → Post r u) : w.Honours C i Post (.done r) s :=
  fun u hu => h u (hP.meanwhile hu hs)

theorem Honours.ask {q : Q} {k : R q → Prog Q R ε α} (hP : w.Lasting C i P) (hs : P s)
    (h : ∀ t, P t → C.inv t → C.may t i q → ∀ r u, w.answer t i q = some (r,u) →
      C.inv u ∧ C.does i t u ∧ w.Honours C i Post (k r) u) :
    w.Honours C i Post (.ask q k) s :=
  fun t ht => h t (hP.meanwhile ht hs)

end

end Shared

/-- A host and the programs that are under way. -/
structure Crowd (σ κ Q : Type) (R : Q → Type) (ε α : Type) where
  host : σ
  threads : List (Option (κ × Prog Q R ε α)) := []

inductive Move (υ κ : Type) where
  | stir (e : υ)
  | begin (c : κ)
  | proceed (i : ℕ)
  | quit (i : ℕ)

namespace Crowd

variable (w : Shared σ υ Q R) (program : κ → Prog Q R ε α)

def step (m : Crowd σ κ Q R ε α) : Move υ κ → Crowd σ κ Q R ε α
  | .stir e => {m with host := w.stir m.host e}
  | .begin c => {
      host := w.enter m.host m.threads.length
      threads := m.threads ++ [some (c,program c)]}
  | .proceed i =>
      match m.threads[i]? with
      | some (some (c,.ask q k)) =>
          match w.answer m.host i q with
          | some (r,host) => {host := host, threads := m.threads.set i (some (c,k r))}
          | none => m
      | _ => m
  | .quit i =>
      match m.threads[i]? with
      | some (some _) => {host := w.leave m.host i, threads := m.threads.set i none}
      | _ => m

variable (C : Contract σ Q) (Post : κ → ℕ → Except ε α → σ → Prop)

/-- The invariant holds and every program under way honours the contract. -/
def Sound (m : Crowd σ κ Q R ε α) : Prop :=
  C.inv m.host ∧ ∀ i c p, m.threads[i]? = some (some (c,p)) →
    w.Honours C i (Post c i) p m.host

/-- The next request of a program that goes on is one that may be put. -/
def Permits (m : Crowd σ κ Q R ε α) (a : Move υ κ) : Prop :=
  ∀ i, a = .proceed i → ∀ c q k, m.threads[i]? = some (some (c,.ask q k)) → C.may m.host i q

instance decidablePermits [∀ s i q, Decidable (C.may s i q)] (m : Crowd σ κ Q R ε α)
    (a : Move υ κ) : Decidable (Permits C m a) :=
  match a with
  | .stir _ => .isTrue fun _ h => by cases h
  | .begin _ => .isTrue fun _ h => by cases h
  | .quit _ => .isTrue fun _ h => by cases h
  | .proceed i =>
      match hi : m.threads[i]? with
      | some (some (c,.ask q k)) => decidable_of_iff (C.may m.host i q) (by
          constructor
          · intro hm j hj c' q' k' hj'
            cases hj
            rw [hi] at hj'
            cases hj'
            exact hm
          · exact fun h => h i rfl c q k hi)
      | some (some (_,.done _)) => .isTrue fun j hj c q k hj' => by
          cases hj
          rw [hi] at hj'
          cases hj'
      | some none => .isTrue fun j hj c q k hj' => by
          cases hj
          rw [hi] at hj'
          cases hj'
      | none => .isTrue fun j hj c q k hj' => by
          cases hj
          rw [hi] at hj'
          cases hj'

/-- The host by itself, a program's first step and its end keep the contract. -/
structure Lawful : Prop where
  stir : ∀ s e, C.inv s → C.inv (w.stir s e)
  enter : ∀ s i c, C.inv s → C.inv (w.enter s i) ∧ C.does i s (w.enter s i) ∧
    w.Honours C i (Post c i) (program c) (w.enter s i)
  leave : ∀ s i, C.inv s → C.inv (w.leave s i) ∧ C.does i s (w.leave s i)

variable {w program C Post} {m : Crowd σ κ Q R ε α}

theorem Sound.over (h : m.Sound w C Post) {i : ℕ} {c : κ} {r : Except ε α}
    (hm : m.threads[i]? = some (some (c,.done r))) : Post c i r m.host :=
  h.2 i c _ hm _ .refl

/-- The other programs see a step of one program as something that happened around them. -/
theorem Sound.around (h : m.Sound w C Post) {i : ℕ} {host : σ} (hi : C.inv host)
    (hd : C.does i m.host host) {j : ℕ} {c : κ} {p : Prog Q R ε α} (hj : j ≠ i)
    (hm : m.threads[j]? = some (some (c,p))) : w.Honours C j (Post c j) p host :=
  (h.2 j c p hm).meanwhile (.single ⟨h.1,hi,Or.inr ⟨i,hj.symm,hd⟩⟩)

theorem Sound.step (hl : Lawful w program C Post) (h : m.Sound w C Post) (a : Move υ κ)
    (ha : Permits C m a) : (m.step w program a).Sound w C Post := by
  cases a with
  | stir e =>
    have hi := hl.stir m.host e h.1
    exact ⟨hi,fun i c p hm => (h.2 i c p hm).meanwhile
      (.single ⟨h.1,hi,Or.inl ⟨e,rfl⟩⟩)⟩
  | begin c =>
    have he := hl.enter m.host m.threads.length c h.1
    refine ⟨he.1,fun i c' p hm => ?_⟩
    simp only [Crowd.step] at hm
    rcases Nat.lt_or_ge i m.threads.length with hlt | hge
    · rw [List.getElem?_append_left hlt] at hm
      exact h.around he.1 he.2.1 (Nat.ne_of_lt hlt) hm
    · rw [List.getElem?_append_right hge] at hm
      rcases Nat.eq_or_lt_of_le hge with heq | hgt
      · rw [heq,Nat.sub_self] at hm
        simp only [List.getElem?_cons_zero,Option.some.injEq,Prod.mk.injEq] at hm
        rw [← hm.1,← hm.2,← heq]
        exact he.2.2
      · rw [List.getElem?_eq_none (by simp; omega)] at hm
        cases hm
  | proceed i =>
    simp only [Crowd.step]
    split
    · next c q k hi =>
      split
      · next r host hans =>
        have hstep := h.2 i c _ hi m.host .refl h.1 (ha i rfl c q k hi) r host hans
        refine ⟨hstep.1,fun j c' p hm => ?_⟩
        by_cases hj : j = i
        · subst hj
          rw [List.getElem?_set_self (List.getElem?_eq_some_iff.mp hi).1] at hm
          simp only [Option.some.injEq,Prod.mk.injEq] at hm
          rw [← hm.1,← hm.2]
          exact hstep.2.2
        · rw [List.getElem?_set_ne (Ne.symm hj)] at hm
          exact h.around hstep.1 hstep.2.1 hj hm
      · exact h
    · exact h
  | quit i =>
    simp only [Crowd.step]
    split
    · next x hi =>
      have hq := hl.leave m.host i h.1
      refine ⟨hq.1,fun j c p hm => ?_⟩
      by_cases hj : j = i
      · subst hj
        rw [List.getElem?_set_self (List.getElem?_eq_some_iff.mp hi).1] at hm
        cases hm
      · rw [List.getElem?_set_ne (Ne.symm hj)] at hm
        exact h.around hq.1 hq.2 hj hm
    · exact h

/-- Whatever steps are taken, as long as only requests are put that may be. -/
theorem reach_sound (hl : Lawful w program C Post) {init : Crowd σ κ Q R ε α → Prop}
    (hinit : ∀ m, init m → C.inv m.host ∧ m.threads = [])
    (h : Trace.Reach (Crowd.step w program) (Permits C) init m) : m.Sound w C Post := by
  refine h.invariant (fun s hs => ?_) fun s a hs ha => hs.step hl a ha
  refine ⟨(hinit s hs).1,fun i c p hm => ?_⟩
  rw [(hinit s hs).2] at hm
  cases hm

end Crowd

attribute [irreducible] Shared.Honours

end Dialogue
