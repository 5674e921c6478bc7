import Mathlib.Data.Nat.Init
import Mathlib.Logic.Function.Iterate

/-! Nodes with at most one outgoing pointer each. A node is rooted if following pointers from
it ends at a node without one; new nodes and pointers to roots keep every node rooted. -/
namespace Pointers

variable {α : Type*}

/-- `ptr a` is absent if there is no such node, and holds the node's pointer otherwise. -/
inductive Rooted (ptr : α → Option (Option α)) : α → Prop
  | root {a : α} : ptr a = some none → Rooted ptr a
  | link {a b : α} : ptr a = some (some b) → Rooted ptr b → Rooted ptr a

variable {ptr ptr' : α → Option (Option α)} {a : α}

/-- The node reached after some number of pointers. -/
def follow (ptr : α → Option (Option α)) : ℕ → α → Option α
  | 0, a => some a
  | n + 1, a => ((ptr a).bind id).bind (follow ptr n)

theorem Rooted.follow (h : Rooted ptr a) : ∃ n b, follow ptr n a = some b ∧ ptr b = some none := by
  induction h with
  | root h => exact ⟨0,_,rfl,h⟩
  | link h _ ih =>
    obtain ⟨n,b,hb,hr⟩ := ih
    exact ⟨n + 1,b,by simp [Pointers.follow,h,hb],hr⟩

/-- Nodes keep their pointers, other nodes may appear. -/
theorem Rooted.extend (h : Rooted ptr a) (hp : ∀ a, (ptr a).isSome = true → ptr' a = ptr a) :
    Rooted ptr' a := by
  induction h with
  | root h => exact .root ((hp _ (by rw [h]; rfl)).trans h)
  | link h _ ih => exact .link ((hp _ (by rw [h]; rfl)).trans h) ih

/-- One node's pointer is set to a root. -/
theorem Rooted.redirect {x y : α} (h : Rooted ptr a) (hp : ∀ a, a ≠ x → ptr' a = ptr a)
    (hx : ptr' x = some (some y)) (hy : ptr' y = some none) : Rooted ptr' a := by
  induction h with
  | @root a h =>
    by_cases ha : a = x
    · exact ha ▸ .link hx (.root hy)
    · exact .root ((hp a ha).trans h)
  | @link a b h _ ih =>
    by_cases ha : a = x
    · exact ha ▸ .link hx (.root hy)
    · exact .link ((hp a ha).trans h) ih

theorem Rooted.isSome (h : Rooted ptr a) : (ptr a).isSome = true := by
  cases h with
  | root h => rw [h]; rfl
  | link h _ => rw [h]; rfl

end Pointers
