import Atlas.Lib.Trace
import Mathlib.Logic.Relation

/-! Programs that put one request after the other to a host that also changes by itself, and the
rules by which what such a program keeps, step by step, is read off its text. -/
namespace Dialogue

/-- A program over requests that each have a type of answers. -/
inductive Prog (Q : Type) (R : Q → Type) (ε α : Type) where
  | done (result : Except ε α)
  | ask (q : Q) (k : R q → Prog Q R ε α)

variable {Q : Type} {R : Q → Type} {ε α β σ κ υ : Type}

namespace Prog

def bind : Prog Q R ε α → (α → Prog Q R ε β) → Prog Q R ε β
  | done (.ok a), f => f a
  | done (.error e), _ => done (.error e)
  | ask q k, f => ask q fun r => (k r).bind f

instance : Monad (Prog Q R ε) where
  pure a := done (.ok a)
  bind := bind

def request (q : Q) : Prog Q R ε (R q) := ask q fun r => done (.ok r)

def raise (e : ε) : Prog Q R ε α := done (.error e)

/-- Every request that the program may put is of a kind. -/
def Asks (kind : Q → Prop) : Prog Q R ε α → Prop
  | done _ => True
  | ask q k => kind q ∧ ∀ r, (k r).Asks kind

theorem Asks.bind {kind : Q → Prop} {p : Prog Q R ε α} {f : α → Prog Q R ε β}
    (h : p.Asks kind) (hf : ∀ a, (f a).Asks kind) : (p >>= f).Asks kind := by
  induction p with
  | done r =>
    cases r with
    | ok a => exact hf a
    | error e => trivial
  | ask q k ih => exact ⟨h.1,fun r => ih r (h.2 r)⟩

@[simp] theorem pure_bind (a : α) (f : α → Prog Q R ε β) : (pure a : Prog Q R ε α) >>= f = f a := rfl

@[simp] theorem raise_bind (e : ε) (f : α → Prog Q R ε β) :
    (raise e : Prog Q R ε α) >>= f = raise e := rfl

@[simp] theorem request_bind (q : Q) (f : R q → Prog Q R ε β) :
    (request q : Prog Q R ε (R q)) >>= f = ask q f := rfl

@[simp] theorem done_bind (a : α) (f : α → Prog Q R ε β) :
    (done (.ok a) : Prog Q R ε α).bind f = f a := rfl

end Prog

/-- How a host changes by itself and what it answers. -/
structure World (σ υ : Type) (Q : Type) (R : Q → Type) where
  stir : σ → υ → σ
  answer : σ → (q : Q) → R q × σ

namespace World

/-- What the host may become by itself. -/
def Stirs (w : World σ υ Q R) : σ → σ → Prop :=
  Relation.ReflTransGen fun s t => ∃ e, t = w.stir s e

/-- What no change of the host by itself undoes. -/
def Stable (w : World σ υ Q R) (P : σ → Prop) : Prop := ∀ s e, P s → P (w.stir s e)

variable {w : World σ υ Q R}

theorem Stable.stirs {P : σ → Prop} (hP : w.Stable P) {s t : σ} (h : w.Stirs s t) (hs : P s) :
    P t := by
  induction h with
  | refl => exact hs
  | tail _ hst ih =>
    rcases hst with ⟨e,rfl⟩
    exact hP _ e ih

theorem Stable.and {P P' : σ → Prop} (hP : w.Stable P) (hP' : w.Stable P') :
    w.Stable fun s => P s ∧ P' s := fun s e h => ⟨hP s e h.1,hP' s e h.2⟩

theorem Stable.imp {P : σ → Prop} (hP : w.Stable P) (c : Prop) : w.Stable fun s => c → P s :=
  fun s e h hc => hP s e (h hc)

/-- The invariant holds whenever the program waits or the host has changed, and the last state
together with the result meets the postcondition. -/
def Keeps (w : World σ υ Q R) (I : σ → Prop) (Post : Except ε α → σ → Prop) :
    Prog Q R ε α → σ → Prop
  | .done r, s => ∀ t, w.Stirs s t → I t ∧ Post r t
  | .ask q k, s => ∀ t, w.Stirs s t →
      I t ∧ w.Keeps I Post (k (w.answer t q).1) (w.answer t q).2

section

variable {I I' : σ → Prop} {Post Post' : Except ε α → σ → Prop} {p : Prog Q R ε α} {s t : σ}

theorem Keeps.invariant (h : w.Keeps I Post p s) : I s := by
  cases p with
  | done r => exact (h s .refl).1
  | ask q k => exact (h s .refl).1

theorem Keeps.stirs (h : w.Keeps I Post p s) (hst : w.Stirs s t) : w.Keeps I Post p t := by
  cases p with
  | done r => exact fun u hu => h u (hst.trans hu)
  | ask q k => exact fun u hu => h u (hst.trans hu)

theorem Keeps.mono (h : w.Keeps I Post p s) (hpost : ∀ r u, Post r u → Post' r u) :
    w.Keeps I Post' p s := by
  induction p generalizing s with
  | done r => exact fun u hu => ⟨(h u hu).1,hpost r u (h u hu).2⟩
  | ask q k ih => exact fun u hu => ⟨(h u hu).1,ih _ (h u hu).2⟩

theorem Keeps.and (h : w.Keeps I Post p s) (h' : w.Keeps I' Post' p s) :
    w.Keeps (fun u => I u ∧ I' u) (fun r u => Post r u ∧ Post' r u) p s := by
  induction p generalizing s with
  | done r => exact fun u hu => ⟨⟨(h u hu).1,(h' u hu).1⟩,(h u hu).2,(h' u hu).2⟩
  | ask q k ih => exact fun u hu => ⟨⟨(h u hu).1,(h' u hu).1⟩,ih _ (h u hu).2 (h' u hu).2⟩

/-- A program goes on from every state in which its first part may end. -/
theorem Keeps.bind {f : α → Prog Q R ε β} {M : Except ε α → σ → Prop}
    {Post : Except ε β → σ → Prop} (h : w.Keeps I M p s)
    (hok : ∀ a t, M (.ok a) t → w.Keeps I Post (f a) t)
    (herror : ∀ e t, M (.error e) t → Post (.error e) t) : w.Keeps I Post (p >>= f) s := by
  induction p generalizing s with
  | done r =>
    cases r with
    | ok a => exact hok a s (h s .refl).2
    | error e => exact fun u hu => ⟨(h u hu).1,herror e u (h u hu).2⟩
  | ask q k ih => exact fun u hu => ⟨(h u hu).1,ih _ (h u hu).2⟩

/-- A postcondition of programs that raise nothing. -/
def Returns (post : α → σ → Prop) : Except ε α → σ → Prop
  | .ok a, s => post a s
  | .error _, _ => False

theorem Keeps.bind_returns {f : α → Prog Q R ε β} {mid : α → σ → Prop}
    {Post : Except ε β → σ → Prop} (h : w.Keeps I (Returns mid) p s)
    (hok : ∀ a t, mid a t → w.Keeps I Post (f a) t) : w.Keeps I Post (p >>= f) s :=
  h.bind hok fun _ _ hf => hf.elim

variable {P : σ → Prop}

theorem Keeps.done {r : Except ε α} (hP : w.Stable P) (hs : P s)
    (h : ∀ u, P u → I u ∧ Post r u) : w.Keeps I Post (.done r) s :=
  fun u hu => h u (hP.stirs hu hs)

theorem Keeps.ask {q : Q} {k : R q → Prog Q R ε α} (hP : w.Stable P) (hs : P s)
    (hI : ∀ u, P u → I u)
    (h : ∀ u, P u → w.Keeps I Post (k (w.answer u q).1) (w.answer u q).2) :
    w.Keeps I Post (.ask q k) s :=
  fun u hu => ⟨hI u (hP.stirs hu hs),h u (hP.stirs hu hs)⟩

end

end World

namespace World

/-- A program runs to its end on a host that changes by itself before each request and at the
end, and whose answers are of those allowed. -/
inductive Yields (w : World σ υ Q R) (allowed : (q : Q) → R q → Prop) :
    Prog Q R ε α → σ → Except ε α → σ → Prop
  | done {r : Except ε α} {s t : σ} (h : w.Stirs s t) : Yields w allowed (.done r) s r t
  | ask {q : Q} {k : R q → Prog Q R ε α} {s t u : σ} {r : Except ε α} (h : w.Stirs s t)
      (ha : allowed q (w.answer t q).1)
      (hk : Yields w allowed (k (w.answer t q).1) (w.answer t q).2 r u) :
      Yields w allowed (.ask q k) s r u

variable {w : World σ υ Q R} {allowed : (q : Q) → R q → Prop} {r : Except ε α} {s t : σ}

theorem yields_done {r' : Except ε α} :
    w.Yields allowed (.done r') s r t ↔ r = r' ∧ w.Stirs s t := by
  constructor
  · rintro ⟨h⟩
    exact ⟨rfl,h⟩
  · rintro ⟨rfl,h⟩
    exact .done h

theorem yields_ask {q : Q} {k : R q → Prog Q R ε α} :
    w.Yields allowed (.ask q k) s r t ↔ ∃ u, w.Stirs s u ∧ allowed q (w.answer u q).1 ∧
      w.Yields allowed (k (w.answer u q).1) (w.answer u q).2 r t := by
  constructor
  · rintro ⟨⟩
    exact ⟨_,‹_›,‹_›,‹_›⟩
  · rintro ⟨u,h,ha,hk⟩
    exact .ask h ha hk

/-- What the requests of one kind keep, and the host by itself, a program of that kind keeps. -/
theorem Yields.keeps {kind : Q → Prop} {P : σ → Prop} {p : Prog Q R ε α}
    (h : w.Yields allowed p s r t) (hP : w.Stable P)
    (hanswer : ∀ u q, kind q → P u → P (w.answer u q).2) (hp : p.Asks kind) (hs : P s) :
    P t := by
  induction h with
  | done h => exact hP.stirs h hs
  | ask h _ _ ih => exact ih (hp.2 _) (hanswer _ _ hp.1 (hP.stirs h hs))

end World

/-- A host and the call that is being served, if any. -/
structure Served (σ κ Q : Type) (R : Q → Type) (ε α : Type) where
  host : σ
  thread : Option (κ × Prog Q R ε α) := none

/-- A step of the host by itself or of the call being served. -/
inductive Turn (υ κ : Type) where
  | stir (e : υ)
  | begin (c : κ)
  | proceed
  | finish

namespace Served

variable (w : World σ υ Q R) (program : κ → Prog Q R ε α)

/-- One call is served at a time; another begins when it is over. -/
def step (m : Served σ κ Q R ε α) : Turn υ κ → Served σ κ Q R ε α
  | .stir e => {m with host := w.stir m.host e}
  | .begin c =>
      match m.thread with
      | none => {m with thread := some (c,program c)}
      | some _ => m
  | .proceed =>
      match m.thread with
      | some (c,.ask q k) =>
          {host := (w.answer m.host q).2,thread := some (c,k (w.answer m.host q).1)}
      | _ => m
  | .finish =>
      match m.thread with
      | some (_,.done _) => {m with thread := none}
      | _ => m

/-- Between two calls the host is at rest, and a call being served keeps the invariant. -/
def Sound (I J : σ → Prop) (Post : κ → Except ε α → σ → Prop) (m : Served σ κ Q R ε α) : Prop :=
  match m.thread with
  | none => I m.host ∧ J m.host
  | some (c,p) => w.Keeps I (fun r s => J s ∧ Post c r s) p m.host

variable {w program} {I J : σ → Prop} {Post : κ → Except ε α → σ → Prop}
  {m : Served σ κ Q R ε α}

theorem Sound.invariant (h : m.Sound w I J Post) : I m.host := by
  unfold Sound at h
  split at h
  · exact h.1
  · exact h.invariant

/-- A call that is over leaves what its postcondition says. -/
theorem Sound.over (h : m.Sound w I J Post) {c : κ} {r : Except ε α}
    (hm : m.thread = some (c,.done r)) : I m.host ∧ J m.host ∧ Post c r m.host := by
  unfold Sound at h
  rw [hm] at h
  exact h _ .refl

theorem Sound.step (hI : w.Stable I) (hJ : w.Stable J) (h : m.Sound w I J Post) (a : Turn υ κ)
    (hcall : ∀ c, a = .begin c → m.thread = none → I m.host → J m.host →
      w.Keeps I (fun r s => J s ∧ Post c r s) (program c) m.host) :
    (m.step w program a).Sound w I J Post := by
  cases a with
  | stir e =>
    unfold Sound at h ⊢
    simp only [Served.step]
    cases hm : m.thread with
    | none =>
      simp only [hm] at h
      exact ⟨hI _ e h.1,hJ _ e h.2⟩
    | some cp =>
      simp only [hm] at h
      exact h.stirs (.single ⟨e,rfl⟩)
  | begin c =>
    simp only [Served.step]
    split
    · next hn =>
      have h' := h
      unfold Sound at h'
      rw [hn] at h'
      exact hcall c rfl hn h'.1 h'.2
    · exact h
  | proceed =>
    simp only [Served.step]
    split
    · next hs =>
      unfold Sound at h
      rw [hs] at h
      exact (h _ .refl).2
    · exact h
  | finish =>
    simp only [Served.step]
    split
    · next hs => exact ⟨(h.over hs).1,(h.over hs).2.1⟩
    · exact h

end Served

attribute [irreducible] World.Keeps

end Dialogue
