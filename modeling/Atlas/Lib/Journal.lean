import Mathlib.Data.List.Induction
import Mathlib.Logic.Function.Basic

/-! Writes to a medium that holds them for certain only once it was synchronised: what a crash may
leave of a run, and why a marker that is written last tells a whole run from a part of one. -/
namespace Journal

/-- One write, or the wait until all writes before it are on the medium. -/
inductive Step (κ ν : Type*) where
  | put (key : κ) (value : ν)
  | sync

variable {κ ν : Type*} [DecidableEq κ]

/-- What is under a key after a step. -/
def store (m : κ → Option ν) : Step κ ν → κ → Option ν
  | .put key value => Function.update m key (some value)
  | .sync => m

/-- What was last put under each key. -/
def content (steps : List (Step κ ν)) : κ → Option ν := steps.foldl store fun _ => none

omit [DecidableEq κ] in
/-- The keys written since the medium was synchronised. -/
def pending (steps : List (Step κ ν)) : List κ :=
  steps.foldl (fun keys step =>
    match step with
    | .put key _ => key :: keys
    | .sync => []) []

/-- A crash after some of the steps: what was not synchronised may be there, be missing or be
anything else. -/
def Crash (steps : List (Step κ ν)) (m : κ → Option ν) : Prop :=
  ∃ n, ∀ key, key ∉ pending (steps.take n) → m key = content (steps.take n) key

/-- The keys that steps write. -/
def Writes (steps : List (Step κ ν)) (key : κ) : Prop := ∃ value, Step.put key value ∈ steps

theorem content_append_of_not_writes {steps rest : List (Step κ ν)} {key : κ}
    (h : ¬Writes rest key) : content (steps ++ rest) key = content steps key := by
  rw [content,content,List.foldl_append]
  generalize steps.foldl store (fun _ => none) = m
  induction rest generalizing m with
  | nil => rfl
  | cons step rest ih =>
    have hrest : ¬Writes rest key := fun ⟨v,hv⟩ => h ⟨v,List.mem_cons_of_mem _ hv⟩
    rw [List.foldl_cons,ih hrest]
    cases step with
    | sync => rfl
    | put k v =>
      refine Function.update_of_ne (fun he => h ⟨v,?_⟩) _ _
      rw [he]
      exact List.mem_cons_self

theorem content_of_not_writes {steps : List (Step κ ν)} {key : κ} (h : ¬Writes steps key) :
    content steps key = none := by
  rw [← List.nil_append steps]
  exact content_append_of_not_writes h

omit [DecidableEq κ] in
theorem pending_append_sync (steps rest : List (Step κ ν)) :
    pending (steps ++ .sync :: rest) = pending rest := by
  simp [pending,List.foldl_append]

omit [DecidableEq κ] in
/-- Only what is written is pending. -/
theorem writes_of_mem_pending {steps : List (Step κ ν)} {key : κ} (h : key ∈ pending steps) :
    Writes steps key := by
  induction steps using List.reverseRecOn with
  | nil => cases h
  | append_singleton steps step ih =>
    rw [pending,List.foldl_append,List.foldl_cons,List.foldl_nil] at h
    have hold : Writes steps key → Writes (steps ++ [step]) key := fun ⟨v,hv⟩ =>
      ⟨v,List.mem_append_left _ hv⟩
    cases step with
    | sync => cases h
    | put k v =>
      rcases List.mem_cons.mp h with rfl | h
      · exact ⟨v,by simp⟩
      · exact hold (ih h)

omit [DecidableEq κ] in
theorem Writes.of_take {steps : List (Step κ ν)} {n : ℕ} {key : κ} (h : Writes (steps.take n) key) :
    Writes steps key :=
  h.imp fun _ hv => List.mem_of_mem_take hv

/-- A key that no step writes is not there after a crash. -/
theorem Crash.absent {steps : List (Step κ ν)} {m : κ → Option ν} (h : Crash steps m) {key : κ}
    (hkey : ¬Writes steps key) : m key = none := by
  obtain ⟨n,hn⟩ := h
  rw [hn key fun hp => hkey (writes_of_mem_pending hp).of_take]
  exact content_of_not_writes fun hw => hkey hw.of_take

/-- Where a marker is written after all else was synchronised, a crash that left the marker left all
else as it was written. -/
theorem Crash.published {body : List (Step κ ν)} {marker : κ} {value : ν}
    (hbody : ¬Writes body marker) {m : κ → Option ν}
    (h : Crash (body ++ [Step.sync,.put marker value,.sync]) m) :
    m marker = none ∨ ∀ key, key ≠ marker → m key = content body key := by
  obtain ⟨n,hn⟩ := h
  rcases Nat.lt_or_ge body.length n with hlt | hle
  · right
    intro key hkey
    obtain ⟨j,rfl⟩ := Nat.exists_eq_add_of_lt hlt
    have htake : (body ++ [Step.sync,.put marker value,.sync]).take (body.length + j + 1) =
        body ++ Step.sync :: [Step.put marker value,.sync].take j := by
      rw [Nat.add_assoc,List.take_length_add_append,List.take_succ_cons]
    have hafter : ¬Writes ([Step.put marker value,.sync].take j) key := fun hw => by
      obtain ⟨v,hv⟩ := hw.of_take
      simp only [List.mem_cons,Step.put.injEq,List.not_mem_nil,reduceCtorEq,or_false] at hv
      exact hkey hv.1
    rw [htake] at hn
    rw [hn key]
    · apply content_append_of_not_writes
      rintro ⟨v,hv⟩
      rcases List.mem_cons.mp hv with hv | hv
      · cases hv
      · exact hafter ⟨v,hv⟩
    · rw [pending_append_sync]
      exact fun hp => hafter (writes_of_mem_pending hp)
  · left
    rw [List.take_append_of_le_length hle] at hn
    rw [hn marker fun hp => hbody (writes_of_mem_pending hp).of_take]
    exact content_of_not_writes fun hw => hbody hw.of_take

omit [DecidableEq κ] in
/-- The keys of the writes, in their order. -/
def keys (steps : List (Step κ ν)) : List κ := steps.filterMap fun step =>
  match step with
  | .put key _ => some key
  | .sync => none

omit [DecidableEq κ] in
theorem writes_iff_mem_keys {steps : List (Step κ ν)} {key : κ} : Writes steps key ↔ key ∈ keys steps := by
  rw [keys,List.mem_filterMap]
  constructor
  · rintro ⟨v,hv⟩
    exact ⟨_,hv,rfl⟩
  · rintro ⟨step,hstep,hk⟩
    cases step with
    | sync => cases hk
    | put k v =>
      obtain rfl := Option.some.inj hk
      exact ⟨v,hstep⟩

/-- Where no key is written twice a value that was put stays. -/
theorem content_eq_some_iff {steps : List (Step κ ν)} (h : (keys steps).Nodup) {key : κ} {value : ν} :
    content steps key = some value ↔ Step.put key value ∈ steps := by
  induction steps using List.reverseRecOn with
  | nil => simp [content]
  | append_singleton steps step ih =>
    rw [keys,List.filterMap_append] at h
    have hsteps := (List.nodup_append.mp h).1
    cases step with
    | sync =>
      rw [content_append_of_not_writes (by rintro ⟨v,hv⟩; cases List.mem_singleton.mp hv),
        ih hsteps]
      simp
    | put k v =>
      have hnew : ¬Writes steps k := by
        rw [writes_iff_mem_keys]
        exact fun hk => (List.nodup_append.mp h).2.2 k hk k (by simp) rfl
      have hput : content (steps ++ [Step.put k v]) = Function.update (content steps) k (some v) := by
        simp [content,List.foldl_append,store]
      rw [hput,List.mem_append,List.mem_singleton,Step.put.injEq]
      by_cases hk : key = k
      · subst hk
        rw [Function.update_self,Option.some.injEq]
        constructor
        · exact fun hv => Or.inr ⟨rfl,hv.symm⟩
        · rintro (hv | ⟨_,hv⟩)
          · exact absurd ⟨_,hv⟩ hnew
          · exact hv.symm
      · rw [Function.update_of_ne hk,ih hsteps]
        simp [hk]

end Journal
