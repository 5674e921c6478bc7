import Mathlib.Data.List.Basic

/-! Lines of a text that arrives in chunks: the lines that a separator completes, and what is left
behind the last of them. -/
namespace Chunks

variable {α : Type*} [DecidableEq α] (sep : α)

/-- The first complete line of a text, with its separator, and what follows it. -/
def takeLine : List α → Option (List α × List α)
  | [] => none
  | c :: cs =>
      if c = sep then some ([c],cs) else (takeLine cs).map fun p => (c :: p.1,p.2)

/-- The complete lines of a text, and the rest. -/
def split : List α → List (List α) × List α
  | [] => ([],[])
  | c :: cs =>
      let (lines,rest) := split cs
      if c = sep then ([c] :: lines,rest)
      else match lines with
      | [] => ([],c :: rest)
      | line :: lines => ((c :: line) :: lines,rest)

def lines (text : List α) : List (List α) := (split sep text).1

def rest (text : List α) : List α := (split sep text).2

variable {sep} {text line left : List α}

theorem takeLine_eq (h : takeLine sep text = some (line,left)) :
    text = line ++ left ∧ line ≠ [] := by
  induction text generalizing line with
  | nil => cases h
  | cons c cs ih =>
    rw [takeLine] at h
    split at h
    · obtain ⟨rfl,rfl⟩ := Prod.mk.inj (Option.some.inj h)
      exact ⟨rfl,List.cons_ne_nil _ _⟩
    · obtain ⟨p,hp,h⟩ := Option.map_eq_some_iff.mp h
      obtain ⟨rfl,rfl⟩ := Prod.mk.inj h
      exact ⟨by rw [(ih hp).1]; rfl,List.cons_ne_nil _ _⟩

/-- A text with a complete line in front. -/
theorem split_takeLine (h : takeLine sep text = some (line,left)) (more : List α) :
    split sep (text ++ more) =
      (line :: lines sep (left ++ more),rest sep (left ++ more)) := by
  induction text generalizing line with
  | nil => cases h
  | cons c cs ih =>
    rw [takeLine] at h
    split at h
    · next hc =>
      obtain ⟨rfl,rfl⟩ := Prod.mk.inj (Option.some.inj h)
      simp [split,lines,rest,hc]
    · next hc =>
      obtain ⟨p,hp,h⟩ := Option.map_eq_some_iff.mp h
      obtain ⟨rfl,rfl⟩ := Prod.mk.inj h
      simp [split,hc,ih hp]

theorem split_none (h : takeLine sep text = none) : split sep text = ([],text) := by
  induction text with
  | nil => rfl
  | cons c cs ih =>
    rw [takeLine] at h
    split at h
    · cases h
    · next hc =>
      rw [Option.map_eq_none_iff] at h
      simp [split,hc,ih h]

theorem lines_takeLine (h : takeLine sep text = some (line,left)) (more : List α) :
    lines sep (text ++ more) = line :: lines sep (left ++ more) := by
  rw [lines,split_takeLine h]

theorem rest_takeLine (h : takeLine sep text = some (line,left)) (more : List α) :
    rest sep (text ++ more) = rest sep (left ++ more) := by
  rw [rest,split_takeLine h]

theorem lines_none (h : takeLine sep text = none) : lines sep text = [] := by
  rw [lines,split_none h]

theorem rest_none (h : takeLine sep text = none) : rest sep text = text := by
  rw [rest,split_none h]

/-- More text completes the rest of what was there. -/
theorem lines_append (text more : List α) :
    lines sep (text ++ more) = lines sep text ++ lines sep (rest sep text ++ more) := by
  induction hn : text.length using Nat.strongRecOn generalizing text with
  | ind n ih =>
    cases h : takeLine sep text with
    | none => rw [lines_none h,rest_none h,List.nil_append]
    | some p =>
      obtain ⟨line,left⟩ := p
      obtain ⟨htext,hne⟩ := takeLine_eq h
      have hshort : left.length < n := by
        have hpos := List.length_pos_of_ne_nil hne
        rw [← hn,htext,List.length_append]
        omega
      have hnil := lines_takeLine h []
      have hrest := rest_takeLine h []
      rw [List.append_nil,List.append_nil] at hnil hrest
      rw [lines_takeLine h,hnil,hrest,ih left.length hshort left rfl,List.cons_append]

end Chunks
