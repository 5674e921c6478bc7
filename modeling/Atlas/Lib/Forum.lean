import Atlas.Lib.Crowd
import Mathlib.Data.List.Pairwise

/-! Programs that take turns at one host, with the record of all that was asked and answered. What
a program minds is a matter of its text alone, whatever it is answered; what the host has gone
through between two entries of the record is a matter of the host alone. -/
namespace Dialogue

variable {Q : Type} {R : Q → Type} {ε α β σ κ υ : Type}

/-- A request and the answer it was given. -/
abbrev Exchange (Q : Type) (R : Q → Type) := (q : Q) × R q

namespace Prog

/-- Whatever the program is answered, each of its requests is in order after what was said so far,
and so is its result. -/
def Minds (ok : List (Exchange Q R) → Q → Prop)
    (Post : List (Exchange Q R) → Except ε α → Prop) :
    List (Exchange Q R) → Prog Q R ε α → Prop
  | said, .done r => Post said r
  | said, .ask q k => ok said q ∧ ∀ r, (k r).Minds ok Post (said ++ [⟨q,r⟩])

/-- A program that goes on where it would have raised. -/
def attempt : Prog Q R ε α → Prog Q R ε (Except ε α)
  | .done r => .done (.ok r)
  | .ask q k => .ask q fun r => (k r).attempt

/-- What a program comes to where every request is always answered alike. -/
def given (ans : (q : Q) → R q) : Prog Q R ε α → Except ε α
  | .done r => r
  | .ask q k => (k (ans q)).given ans

theorem given_bind (ans : (q : Q) → R q) (p : Prog Q R ε α) (f : α → Prog Q R ε β) :
    (p >>= f).given ans = p.given ans >>= fun a => (f a).given ans := by
  induction p with
  | done r => cases r <;> rfl
  | ask q k ih => exact ih (ans q)

theorem given_of_yields {w : World σ υ Q R} {ans : (q : Q) → R q} {p : Prog Q R ε α}
    {r : Except ε α} {s t : σ} (h : w.Yields (fun q x => x = ans q) p s r t) :
    r = p.given ans := by
  induction h with
  | done _ => rfl
  | ask _ ha _ ih => rw [ih,given,ha]

/-- A host that never changes and always answers alike lets a program come to what it is given. -/
theorem yields_given (ans : (q : Q) → R q) (allowed : (q : Q) → R q → Prop)
    (h : ∀ q, allowed q (ans q)) (p : Prog Q R ε α) :
    (⟨fun s _ => s,fun s q => (ans q,s)⟩ : World Unit Unit Q R).Yields allowed p ()
      (p.given ans) () := by
  induction p with
  | done r => exact .done .refl
  | ask q k ih => exact .ask .refl (h q) (ih (ans q))

variable {ok : List (Exchange Q R) → Q → Prop} {said : List (Exchange Q R)}

section

variable {Post Mid : List (Exchange Q R) → Except ε α → Prop} {p : Prog Q R ε α}

theorem Minds.mono (h : p.Minds ok Mid said) (hpost : ∀ said r, Mid said r → Post said r) :
    p.Minds ok Post said := by
  induction p generalizing said with
  | done r => exact hpost said r h
  | ask q k ih => exact ⟨h.1,fun r => ih r (h.2 r)⟩

theorem Minds.bind {f : α → Prog Q R ε β} {Post : List (Exchange Q R) → Except ε β → Prop}
    (h : p.Minds ok Mid said) (hok : ∀ said a, Mid said (.ok a) → (f a).Minds ok Post said)
    (herror : ∀ said e, Mid said (.error e) → Post said (.error e)) :
    (p >>= f).Minds ok Post said := by
  induction p generalizing said with
  | done r =>
    cases r with
    | ok a => exact hok said a h
    | error e => exact herror said e h
  | ask q k ih => exact ⟨h.1,fun r => ih r (h.2 r)⟩

theorem Minds.attempt (h : p.Minds ok Mid said) :
    p.attempt.Minds ok (fun said r => ∃ x, r = .ok x ∧ Mid said x) said := by
  induction p generalizing said with
  | done r => exact ⟨r,rfl,h⟩
  | ask q k ih => exact ⟨h.1,fun r => ih r (h.2 r)⟩

theorem minds_pure {a : α} (h : Post said (.ok a)) :
    (pure a : Prog Q R ε α).Minds ok Post said := h

theorem minds_raise {e : ε} (h : Post said (.error e)) :
    (raise e : Prog Q R ε α).Minds ok Post said := h

theorem minds_ite {c : Prop} [Decidable c] {p p' : Prog Q R ε α}
    (h : c → p.Minds ok Post said) (h' : ¬c → p'.Minds ok Post said) :
    (if c then p else p').Minds ok Post said := by
  split
  · next hc => exact h hc
  · next hc => exact h' hc

end

end Prog

/-- A turn of a program: the host it found, what it asked and what it was answered. -/
structure Entry (σ Q : Type) (R : Q → Type) where
  thread : ℕ
  before : σ
  said : Exchange Q R

/-- What the host became by answering. -/
def Entry.after (w : World σ υ Q R) (e : Entry σ Q R) : σ := (w.answer e.before e.said.1).2

/-- What a program has said according to the record. -/
def talk (i : ℕ) (journal : List (Entry σ Q R)) : List (Exchange Q R) :=
  (journal.filter (·.thread == i)).map (·.said)

@[simp] theorem talk_append_self (journal : List (Entry σ Q R)) (i : ℕ) (s : σ)
    (x : Exchange Q R) : talk i (journal ++ [⟨i,s,x⟩]) = talk i journal ++ [x] := by
  simp [talk]

theorem talk_append_ne (journal : List (Entry σ Q R)) {i j : ℕ} (h : j ≠ i) (s : σ)
    (x : Exchange Q R) : talk i (journal ++ [⟨j,s,x⟩]) = talk i journal := by
  simp [talk,h]

theorem mem_talk {journal : List (Entry σ Q R)} {i : ℕ} {x : Exchange Q R} :
    x ∈ talk i journal ↔ ∃ e ∈ journal, e.thread = i ∧ e.said = x := by
  simp [talk,and_assoc]

/-- A host, the programs that were begun on it and the record of their turns. -/
structure Forum (σ κ Q : Type) (R : Q → Type) (ε α : Type) where
  host : σ
  threads : List (κ × Option (Prog Q R ε α)) := []
  journal : List (Entry σ Q R) := []

namespace Forum

variable (w : World σ υ Q R) (program : κ → Prog Q R ε α)

def step (m : Forum σ κ Q R ε α) : Move υ κ → Forum σ κ Q R ε α
  | .stir e => {m with host := w.stir m.host e}
  | .begin c => {m with threads := m.threads ++ [(c,some (program c))]}
  | .proceed i =>
      match m.threads[i]? with
      | some (c,some (.ask q k)) => {
          host := (w.answer m.host q).2
          threads := m.threads.set i (c,some (k (w.answer m.host q).1))
          journal := m.journal ++ [⟨i,m.host,⟨q,(w.answer m.host q).1⟩⟩]}
      | _ => m
  | .quit i =>
      match m.threads[i]? with
      | some (c,some _) => {m with threads := m.threads.set i (c,none)}
      | _ => m

/-- Whatever turns are taken, on a host that begins as allowed. -/
def Reachable (init : σ → Prop) (m : Forum σ κ Q R ε α) : Prop :=
  Trace.Reach (step w program) (fun _ _ => True) (fun m => ∃ s, init s ∧ m = ⟨s,[],[]⟩) m

/-- Every program under way minds what it has said, and every turn of the record was in order. -/
structure Sound (ok : κ → List (Exchange Q R) → Q → Prop)
    (Post : κ → List (Exchange Q R) → Except ε α → Prop) (m : Forum σ κ Q R ε α) : Prop where
  known : ∀ e ∈ m.journal, e.thread < m.threads.length
  threads : ∀ (i : ℕ) (c : κ) (p : Prog Q R ε α), m.threads[i]? = some (c,some p) →
    p.Minds (ok c) (Post c) (talk i m.journal)
  journal : ∀ before e after, m.journal = before ++ e :: after →
    ∃ c p, m.threads[e.thread]? = some (c,p) ∧ ok c (talk e.thread before) e.said.1

variable {w program} {ok : κ → List (Exchange Q R) → Q → Prop}
  {Post : κ → List (Exchange Q R) → Except ε α → Prop} {m : Forum σ κ Q R ε α}

theorem Sound.silent (h : m.Sound ok Post) : talk m.threads.length m.journal = [] := by
  rw [talk,List.filter_eq_nil_iff.mpr,List.map_nil]
  intro e he
  have := h.known e he
  simp only [beq_iff_eq]
  omega

/-- A list with an entry added at its end is cut there or earlier. -/
theorem cut_append {γ : Type} {l before after : List γ} {x e : γ}
    (h : l ++ [x] = before ++ e :: after) :
    (before = l ∧ e = x ∧ after = []) ∨ ∃ rest, after = rest ++ [x] ∧ l = before ++ e :: rest := by
  rcases List.eq_nil_or_concat after with rfl | ⟨rest,y,rfl⟩
  · obtain ⟨rfl,hx⟩ := List.append_inj' h rfl
    exact Or.inl ⟨rfl,(List.cons.inj hx).1.symm,rfl⟩
  · have hsplit : l ++ [x] = (before ++ e :: rest) ++ [y] := by simpa using h
    obtain ⟨hl,hx⟩ := List.append_inj' hsplit rfl
    exact Or.inr ⟨rest,by simp [(List.cons.inj hx).1],hl⟩

theorem Sound.step (hprogram : ∀ c, (program c).Minds (ok c) (Post c) []) (h : m.Sound ok Post)
    (a : Move υ κ) : (m.step w program a).Sound ok Post := by
  cases a with
  | stir e => exact ⟨h.known,h.threads,h.journal⟩
  | begin c =>
    refine ⟨fun e he => ?_,fun i c' p hp => ?_,fun before e after hj => ?_⟩
    · have := h.known e he
      simp only [Forum.step,List.length_append,List.length_singleton]
      omega
    · simp only [Forum.step] at hp
      rcases Nat.lt_trichotomy i m.threads.length with hlt | rfl | hgt
      · rw [List.getElem?_append_left hlt] at hp
        exact h.threads i c' p hp
      · simp only [List.getElem?_concat_length,Option.some.injEq,Prod.mk.injEq] at hp
        obtain ⟨rfl,rfl⟩ := hp
        simp only [Forum.step,h.silent]
        exact hprogram c
      · rw [List.getElem?_eq_none (by simp; omega)] at hp
        cases hp
    · obtain ⟨c',p,hp,hok⟩ := h.journal before e after hj
      exact ⟨c',p,by rw [Forum.step,List.getElem?_append_left (List.getElem?_eq_some_iff.mp hp).1,
        hp],hok⟩
  | proceed i =>
    simp only [Forum.step]
    split
    · next c q k hi =>
      have hlt := (List.getElem?_eq_some_iff.mp hi).1
      have hminds := h.threads i c _ hi
      refine ⟨fun e he => ?_,fun j c' p hp => ?_,fun before e after hj => ?_⟩
      · rw [List.length_set]
        rcases List.mem_append.mp he with he | he
        · exact h.known e he
        · rw [List.mem_singleton.mp he]
          exact hlt
      · by_cases hj : j = i
        · subst hj
          rw [List.getElem?_set_self hlt] at hp
          simp only [Option.some.injEq,Prod.mk.injEq] at hp
          obtain ⟨rfl,rfl⟩ := hp
          rw [talk_append_self]
          exact hminds.2 _
        · rw [List.getElem?_set_ne (Ne.symm hj)] at hp
          rw [talk_append_ne _ (Ne.symm hj)]
          exact h.threads j c' p hp
      · rcases cut_append hj with ⟨rfl,rfl,_⟩ | ⟨rest,_,hm⟩
        · exact ⟨c,_,List.getElem?_set_self hlt,hminds.1⟩
        · obtain ⟨c',p,hp,hok⟩ := h.journal before e rest hm
          by_cases he : e.thread = i
          · rw [he] at hp
            rw [hi] at hp
            obtain ⟨rfl,_⟩ := Prod.mk.inj (Option.some.inj hp)
            exact ⟨c,_,by rw [he]; exact List.getElem?_set_self hlt,hok⟩
          · exact ⟨c',p,by rw [List.getElem?_set_ne (Ne.symm he),hp],hok⟩
    · exact h
  | quit i =>
    simp only [Forum.step]
    split
    · next c p hi =>
      have hlt := (List.getElem?_eq_some_iff.mp hi).1
      refine ⟨fun e he => by rw [List.length_set]; exact h.known e he,fun j c' p' hp => ?_,
        fun before e after hj => ?_⟩
      · by_cases hj : j = i
        · subst hj
          rw [List.getElem?_set_self hlt] at hp
          simp at hp
        · rw [List.getElem?_set_ne (Ne.symm hj)] at hp
          exact h.threads j c' p' hp
      · obtain ⟨c',p',hp,hok⟩ := h.journal before e after hj
        by_cases he : e.thread = i
        · rw [he,hi] at hp
          obtain ⟨rfl,_⟩ := Prod.mk.inj (Option.some.inj hp)
          exact ⟨c,none,by rw [he]; exact List.getElem?_set_self hlt,hok⟩
        · exact ⟨c',p',by rw [List.getElem?_set_ne (Ne.symm he),hp],hok⟩
    · exact h

theorem reach_sound {init : σ → Prop} (hprogram : ∀ c, (program c).Minds (ok c) (Post c) [])
    (h : m.Reachable w program init) : m.Sound ok Post := by
  refine h.invariant ?_ fun m a hm _ => hm.step hprogram a
  rintro m ⟨s,_,rfl⟩
  exact ⟨by simp,by simp,by simp⟩

/-- The record tells what the host answered, and the host has only gone on since. -/
structure Recorded (w : World σ υ Q R) (I : σ → Prop) (S : σ → σ → Prop)
    (m : Forum σ κ Q R ε α) : Prop where
  invariant : I m.host
  before : ∀ e ∈ m.journal, I e.before
  answered : ∀ e ∈ m.journal, e.said.2 = (w.answer e.before e.said.1).1
  now : ∀ e ∈ m.journal, S (e.after w) m.host
  order : m.journal.Pairwise fun e e' => S (e.after w) e'.before

variable {I : σ → Prop} {S : σ → σ → Prop}

theorem reach_recorded {init : σ → Prop} (hinit : ∀ s, init s → I s)
    (hrefl : ∀ s, S s s) (htrans : ∀ {s t u}, S s t → S t u → S s u)
    (hstir : ∀ s e, I s → I (w.stir s e) ∧ S s (w.stir s e))
    (hanswer : ∀ s q, I s → I (w.answer s q).2 ∧ S s (w.answer s q).2)
    (h : m.Reachable w program init) : m.Recorded w I S := by
  refine h.invariant ?_ fun m a hm _ => ?_
  · rintro m ⟨s,hs,rfl⟩
    exact ⟨hinit s hs,by simp,by simp,by simp,by simp⟩
  · obtain ⟨hi,hbefore,hanswered,hnow,horder⟩ := hm
    cases a with
    | stir e =>
      obtain ⟨hi',hs⟩ := hstir m.host e hi
      exact ⟨hi',hbefore,hanswered,fun x hx => htrans (hnow x hx) hs,horder⟩
    | begin c => exact ⟨hi,hbefore,hanswered,hnow,horder⟩
    | proceed i =>
      simp only [Forum.step]
      split
      · next c q k hk =>
        obtain ⟨hi',hs⟩ := hanswer m.host q hi
        refine ⟨hi',?_,?_,?_,?_⟩
        · intro e he
          rcases List.mem_append.mp he with he | he
          · exact hbefore e he
          · rw [List.mem_singleton.mp he]
            exact hi
        · intro e he
          rcases List.mem_append.mp he with he | he
          · exact hanswered e he
          · rw [List.mem_singleton.mp he]
        · intro e he
          rcases List.mem_append.mp he with he | he
          · exact htrans (hnow e he) hs
          · rw [List.mem_singleton.mp he]
            exact hrefl _
        · rw [List.pairwise_append]
          refine ⟨horder,List.pairwise_singleton _ _,fun e he e' he' => ?_⟩
          rw [List.mem_singleton.mp he']
          exact hnow e he
      · exact ⟨hi,hbefore,hanswered,hnow,horder⟩
    | quit i =>
      simp only [Forum.step]
      split
      · exact ⟨hi,hbefore,hanswered,hnow,horder⟩
      · exact ⟨hi,hbefore,hanswered,hnow,horder⟩

end Forum

end Dialogue
