import Atlas.Lib.Lines
import Atlas.Lib.Numerals
import Atlas.Memory.Tombstones

/-! The digest of an evidence set tells candidates apart: every candidate's digest is that of the
references it cites, and a turn that was just appended is in no other candidate's set. -/
namespace Atlas
namespace Memory

open RowTable Numerals

/-- One line of the text that is digested for an evidence set. -/
def refLine (r : ℕ × String) : String := toString r.1 ++ ":" ++ r.2

/-- The text that is digested for an evidence set. -/
def evidenceText (refs : List (ℕ × String)) : String :=
  "\n".intercalate ((refs.map refLine).insertionSort (· ≤ ·))

theorem evidenceSetHash_eq [PyRuntime] (refs : List (ℕ × String)) :
    evidenceSetHash refs = PyRuntime.sha256 (evidenceText refs) := rfl

/-- A span as `enqueue` accepts it: empty, or a text block with an index. -/
def Tidy (span : String) : Prop :=
  span = "" ∨ ∃ index : String, span = "text:" ++ index ∧ ':' ∉ index.toList

/-- The number before the first colon of a line. -/
theorem number_splits {m n : ℕ} {x y : List Char}
    (h : (toString m).toList ++ ':' :: x = (toString n).toList ++ ':' :: y) : m = n := by
  have hcount : ∀ k : ℕ, (toString k).toList.count ':' = 0 :=
    fun k => List.count_eq_zero.mpr (not_mem_toString (by decide))
  have hl := Lines.append_cons_inj h ((hcount m).trans (hcount n).symm)
  exact toString_injective (String.toList_inj.mp hl.1)

theorem toList_refLine (r : ℕ × String) :
    (refLine r).toList = (toString r.1).toList ++ ':' :: r.2.toList := by
  simp [refLine]

/-- The line of a text reference is a line of no tidy reference to another turn. -/
theorem refLine_lines {r : ℕ × String} (hr : Tidy r.2) {n : ℕ} (hn : r.1 ≠ n) :
    (refLine (n,"text:0")).toList ∉ (refLine r).toList.splitOn '\n' := by
  have hcolon : ':' ∈ (refLine (n,"text:0")).toList := by simp [toList_refLine]
  have hdigits : '\n' ∉ (toString r.1).toList := not_mem_toString (by decide)
  intro h
  rw [toList_refLine r] at h
  have hstart : ∀ x y : List Char, '\n' ∉ x → ':' ∉ y →
      (refLine (n,"text:0")).toList ∈ ((toString r.1).toList ++ ':' :: (x ++ y)).splitOn '\n' →
      False := by
    intro x y hx hy hmem
    rw [show (toString r.1).toList ++ ':' :: (x ++ y) = ((toString r.1).toList ++ ':' :: x) ++ y
      by simp] at hmem
    have hsep : '\n' ∉ (toString r.1).toList ++ ':' :: x := by
      simp only [List.mem_append,List.mem_cons,not_or]
      exact ⟨hdigits,by decide,hx⟩
    rcases Lines.mem_splitOn_append hsep hmem with ⟨z,hz⟩ | hsub
    · rw [toList_refLine,List.append_assoc,List.cons_append] at hz
      exact hn (number_splits hz)
    · exact hy (hsub hcolon)
  rcases hr with hempty | ⟨index,htext,hindex⟩
  · exact hstart [] [] (by simp) (by simp) (by simpa [hempty] using h)
  · refine hstart "text:".toList index.toList (by decide) hindex ?_
    simpa [htext] using h

theorem evidenceText_lines {refs : List (ℕ × String)} (h : refs ≠ []) (line : List Char) :
    line ∈ (evidenceText refs).toList.splitOn '\n' ↔
      ∃ r ∈ refs, line ∈ (refLine r).toList.splitOn '\n' := by
  have hperm := List.perm_insertionSort (· ≤ ·) (refs.map refLine)
  have hne : ((refs.map refLine).insertionSort (· ≤ ·)).map String.toList ≠ [] := by
    intro hnil
    have hlen := hperm.length_eq
    rw [List.map_eq_nil_iff.mp hnil,List.length_map,List.length_nil] at hlen
    exact h (List.length_eq_zero_iff.mp hlen.symm)
  rw [evidenceText,String.toList_intercalate,show "\n".toList = ['\n'] from rfl,
    Lines.splitOn_intercalate hne]
  simp only [List.mem_flatMap,List.mem_map]
  constructor
  · rintro ⟨_,⟨s,hs,rfl⟩,hline⟩
    obtain ⟨r,hr,rfl⟩ := List.mem_map.mp (hperm.mem_iff.mp hs)
    exact ⟨r,hr,hline⟩
  · rintro ⟨r,hr,hline⟩
    exact ⟨_,⟨_,hperm.mem_iff.mpr (List.mem_map_of_mem hr),rfl⟩,hline⟩

/-- An evidence set with a text reference to a turn differs from every set without the turn. -/
theorem evidenceText_ne {refs refs' : List (ℕ × String)} {n : ℕ} (hin : (n,"text:0") ∈ refs)
    (hne : refs' ≠ []) (hout : ∀ r ∈ refs', r.1 ≠ n ∧ Tidy r.2) :
    evidenceText refs ≠ evidenceText refs' := by
  intro h
  have hline : (refLine (n,"text:0")).toList ∈ (evidenceText refs).toList.splitOn '\n' := by
    refine (evidenceText_lines (List.ne_nil_of_mem hin) _).mpr ⟨_,hin,?_⟩
    have hnone : '\n' ∉ (refLine (n,"text:0")).toList := by
      rw [toList_refLine]
      simp only [List.mem_append,not_or]
      exact ⟨not_mem_toString (by decide),by simp⟩
    rw [List.splitOn_eq_singleton hnone]
    exact List.mem_singleton_self _
  rw [h] at hline
  obtain ⟨r,hr,hline⟩ := (evidenceText_lines hne _).mp hline
  exact refLine_lines (hout r hr).2 (hout r hr).1 hline

end Memory
end Atlas
