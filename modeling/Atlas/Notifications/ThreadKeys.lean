import Atlas.Notifications.Bridge
import Atlas.Lib.Lines
import Atlas.Lib.Numerals

/-! The texts of threads. -/
namespace Atlas
namespace Notifications

open Actions Numerals

theorem stateText_injective {a b : AttentionState} (h : stateText a = stateText b) : a = b := by
  cases a <;> cases b <;> first | rfl | exact absurd h (by decide)

theorem runText_injective {a b : Option ℕ}
    (h : a.elim "None" (toString : ℕ → String) = b.elim "None" toString) : a = b := by
  have hne : ∀ n : ℕ, "None" ≠ toString n := by
    intro n hn
    have hnot : 'N' ∉ (toString n).toList := not_mem_toString (by decide)
    rw [← hn] at hnot
    exact hnot (by decide)
  cases a with
  | none => cases b with
    | none => rfl
    | some n => exact absurd h (hne n)
  | some m => cases b with
    | none => exact absurd h.symm (hne m)
    | some n => rw [toString_injective h]

theorem runText_count (a : Option ℕ) :
    (a.elim "None" (toString : ℕ → String)).toList.count ':' = 0 := by
  cases a with
  | none => decide
  | some n => exact List.count_eq_zero.mpr (not_mem_toString (by decide))

/-- Different threads have different texts. -/
theorem text_injective {a b : ThreadKey} (h : a.text = b.text) : a = b := by
  have hlist := congrArg String.toList h
  cases a with
  | action m => cases b with
    | action n =>
      simp only [ThreadKey.text,String.toList_append,List.append_cancel_left_eq] at hlist
      rw [toString_injective (String.toList_inj.mp hlist)]
    | attention n => simp [ThreadKey.text] at hlist
    | run r state => simp [ThreadKey.text] at hlist
  | attention m => cases b with
    | action n => simp [ThreadKey.text] at hlist
    | attention n =>
      simp only [ThreadKey.text,String.toList_append,List.append_cancel_left_eq] at hlist
      rw [toString_injective (String.toList_inj.mp hlist)]
    | run r state => simp [ThreadKey.text] at hlist
  | run q s => cases b with
    | action n => simp [ThreadKey.text] at hlist
    | attention n => simp [ThreadKey.text] at hlist
    | run r state =>
      simp only [ThreadKey.text,String.toList_append,List.append_assoc,
        List.append_cancel_left_eq] at hlist
      obtain ⟨hrun,hstate⟩ := Lines.append_cons_inj hlist
        ((runText_count q).trans (runText_count r).symm)
      rw [runText_injective (String.toList_inj.mp hrun),
        stateText_injective (String.toList_inj.mp hstate)]

end Notifications
end Atlas
