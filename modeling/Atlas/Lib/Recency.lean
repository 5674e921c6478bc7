import Mathlib.Data.List.Basic
import Mathlib.Data.List.Induction
import Mathlib.Data.List.Nodup
import Mathlib.Tactic.Common

/-! Lists of keys in the order in which each was used last. -/
namespace Recency

variable {κ : Type*}

/-- A key is used, or keys are dropped. -/
inductive Move (κ : Type*) where
  | use (k : κ)
  | drop (ks : List κ)

/-- Whether a move says something about a key. -/
def Move.names (k : κ) : Move κ → Prop
  | .use k' => k' = k
  | .drop ks => k ∈ ks

/-- The key was used at this place and nothing has been said about it since. -/
def LastUse (moves : List (Move κ)) (k : κ) (i : ℕ) : Prop :=
  moves[i]? = some (.use k) ∧ ∀ j m, i < j → moves[j]? = some m → ¬m.names k

theorem LastUse.lt_length {moves : List (Move κ)} {k : κ} {i : ℕ} (h : LastUse moves k i) :
    i < moves.length :=
  (List.getElem?_eq_some_iff.mp h.1).1

/-- A key has at most one last use. -/
theorem LastUse.unique {moves : List (Move κ)} {k : κ} {i j : ℕ} (h : LastUse moves k i)
    (h' : LastUse moves k j) : i = j := by
  rcases Nat.lt_trichotomy i j with hlt | heq | hgt
  · exact absurd rfl (h.2 j _ hlt h'.1)
  · exact heq
  · exact absurd rfl (h'.2 i _ hgt h.1)

/-- One more move, seen from a key. -/
theorem lastUse_concat {moves : List (Move κ)} {m : Move κ} {k : κ} {i : ℕ} :
    LastUse (moves ++ [m]) k i ↔
      (LastUse moves k i ∧ ¬m.names k) ∨ (m = .use k ∧ i = moves.length) := by
  constructor
  · rintro ⟨hi,hlater⟩
    have hlt := (List.getElem?_eq_some_iff.mp hi).1
    rw [List.length_append,List.length_singleton] at hlt
    by_cases hlast : i = moves.length
    · right
      rw [hlast,List.getElem?_concat_length] at hi
      exact ⟨Option.some.inj hi,hlast⟩
    · left
      have hin : i < moves.length := by omega
      refine ⟨⟨?_,fun j m' hj hm' => hlater j m' hj ?_⟩,
        hlater moves.length m hin List.getElem?_concat_length⟩
      · rw [List.getElem?_append_left hin] at hi
        exact hi
      · rw [List.getElem?_append_left (List.getElem?_eq_some_iff.mp hm').1]
        exact hm'
  · rintro (⟨h,hm⟩ | ⟨rfl,rfl⟩)
    · refine ⟨?_,fun j m' hj hm' => ?_⟩
      · rw [List.getElem?_append_left h.lt_length]
        exact h.1
      · have hlt := (List.getElem?_eq_some_iff.mp hm').1
        rw [List.length_append,List.length_singleton] at hlt
        by_cases hlast : j = moves.length
        · rw [hlast,List.getElem?_concat_length] at hm'
          obtain rfl := Option.some.inj hm'
          exact hm
        · rw [List.getElem?_append_left (by omega)] at hm'
          exact h.2 j m' hj hm'
    · refine ⟨List.getElem?_concat_length,fun j m' hj hm' => ?_⟩
      have hlt := (List.getElem?_eq_some_iff.mp hm').1
      rw [List.length_append,List.length_singleton] at hlt
      omega

/-- A list holds the keys with a last use, each once, in the order of these. -/
structure Ordered (moves : List (Move κ)) (l : List κ) : Prop where
  mem : ∀ k, k ∈ l ↔ ∃ i, LastUse moves k i
  nodup : l.Nodup
  sorted : l.Pairwise fun a b => ∀ i j, LastUse moves a i → LastUse moves b j → i < j

theorem Ordered.nil : Ordered ([] : List (Move κ)) [] where
  mem k := by simp [LastUse]
  nodup := List.nodup_nil
  sorted := List.Pairwise.nil

/-- What a move leaves in place. -/
theorem Ordered.kept {moves : List (Move κ)} {l : List κ} (h : Ordered moves l) (m : Move κ)
    (p : κ → Bool) (hp : ∀ k, p k = true → ¬m.names k) :
    (l.filter p).Pairwise fun a b =>
      ∀ i j, LastUse (moves ++ [m]) a i → LastUse (moves ++ [m]) b j → i < j := by
  have hold : ∀ k i, k ∈ l.filter p → LastUse (moves ++ [m]) k i → LastUse moves k i := by
    intro k i hk hi
    rcases lastUse_concat.mp hi with hi | ⟨rfl,_⟩
    · exact hi.1
    · exact absurd rfl (hp k (List.mem_filter.mp hk).2)
  exact (h.sorted.filter p).imp_of_mem fun ha hb hab i j hi hj =>
    hab i j (hold _ i ha hi) (hold _ j hb hj)

section

variable [DecidableEq κ]

/-- A used key goes to the end. -/
def move (l : List κ) : Move κ → List κ
  | .use k => l.filter (· ≠ k) ++ [k]
  | .drop ks => l.filter (· ∉ ks)

theorem Ordered.move {moves : List (Move κ)} {l : List κ} (h : Ordered moves l) (m : Move κ) :
    Ordered (moves ++ [m]) (move l m) := by
  cases m with
  | drop ks =>
    refine ⟨fun k => ?_,h.nodup.filter _,h.kept _ _ fun k hk => ?_⟩
    · simp only [Recency.move,List.mem_filter,h.mem,decide_eq_true_eq,lastUse_concat,Move.names,
        reduceCtorEq,false_and,or_false,exists_and_right]
    · exact (of_decide_eq_true hk : k ∉ ks)
  | use k =>
    refine ⟨fun a => ?_,?_,?_⟩
    · simp only [Recency.move,List.mem_append,List.mem_filter,List.mem_singleton,h.mem,
        decide_eq_true_eq,lastUse_concat,Move.names,Move.use.injEq]
      constructor
      · rintro (⟨⟨i,hi⟩,hne⟩ | rfl)
        · exact ⟨i,.inl ⟨hi,Ne.symm hne⟩⟩
        · exact ⟨_,.inr ⟨rfl,rfl⟩⟩
      · rintro ⟨i,⟨hi,hne⟩ | ⟨rfl,_⟩⟩
        · exact .inl ⟨⟨i,hi⟩,Ne.symm hne⟩
        · exact .inr rfl
    · refine List.Nodup.append (h.nodup.filter _) (List.nodup_singleton k) ?_
      intro a ha hk
      obtain rfl := List.mem_singleton.mp hk
      simp at ha
    · refine List.pairwise_append.mpr ⟨h.kept _ _ fun a ha => ?_,List.pairwise_singleton _ _,?_⟩
      · exact fun hnames => of_decide_eq_true ha hnames.symm
      · intro a ha b hb i j hi hj
        obtain rfl := List.mem_singleton.mp hb
        have hne : a ≠ b := by simpa using (List.mem_filter.mp ha).2
        rcases lastUse_concat.mp hi with hi | ⟨he,_⟩
        · rcases lastUse_concat.mp hj with hj | ⟨_,rfl⟩
          · exact absurd rfl hj.2
          · exact hi.1.lt_length
        · exact absurd (Move.use.inj he).symm hne

/-- After any moves the list holds the keys with a last use, in its order. -/
theorem ordered_foldl (moves : List (Move κ)) : Ordered moves (moves.foldl move []) := by
  induction moves using List.reverseRecOn with
  | nil => exact Ordered.nil
  | append_singleton moves m ih =>
    rw [List.foldl_append]
    exact ih.move m

end

end Recency
