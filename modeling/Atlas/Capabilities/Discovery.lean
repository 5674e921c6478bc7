import Atlas.Capabilities.Calls

/-! What the owner is offered before a call is made: the results of a search and the preflight of the
grants of a task. -/
namespace Atlas
namespace Capabilities

open Actions Dialogue
open Memory (strip)

namespace CapabilityRuntime

section

variable [PyRuntime] (terms : List String)

instance : Std.Total (ranksBefore terms) where
  total a b := by
    rcases Nat.lt_trichotomy (searchScore terms a) (searchScore terms b) with h | h | h
    · exact Or.inr (Or.inl h)
    · rcases String.le_total a.id b.id with hid | hid
      · exact Or.inl (Or.inr ⟨h,hid⟩)
      · exact Or.inr (Or.inr ⟨h.symm,hid⟩)
    · exact Or.inl (Or.inl h)

instance : IsTrans OperationDescriptor (ranksBefore terms) where
  trans a b c h h' := by
    rcases h with h | ⟨h,hid⟩
    · rcases h' with h' | ⟨h',_⟩
      · exact Or.inl (h'.trans h)
      · exact Or.inl (h' ▸ h)
    · rcases h' with h' | ⟨h',hid'⟩
      · exact Or.inl (h ▸ h')
      · exact Or.inr ⟨h.trans h',String.le_trans hid hid'⟩

/-- A search lists what is enabled and matches, the best first, up to the limit; what it leaves out
ranks behind all that it lists, and it leaves nothing out while there is room. -/
theorem search_exact (rt : CapabilityRuntime) (query : String) (limit : ℤ) (enabled : List String) :
    ∃ rest, (rt.search query limit enabled ++ rest).Perm
        (rt.operations.filter (found (searchTerms query) enabled)) ∧
      (rt.search query limit enabled ++ rest).Pairwise (ranksBefore (searchTerms query)) ∧
      (rt.search query limit enabled).length ≤ (max 1 (min limit 20)).toNat ∧
      ((rt.search query limit enabled).length < (max 1 (min limit 20)).toNat → rest = []) := by
  have hperm := (List.perm_insertionSort (ranksBefore (searchTerms query))
    (rt.sorted.filter (found (searchTerms query) enabled))).trans
    ((List.perm_insertionSort (fun a b => a.id ≤ b.id) rt.operations).filter _)
  have hpairwise := List.pairwise_insertionSort (ranksBefore (searchTerms query))
    (rt.sorted.filter (found (searchTerms query) enabled))
  rw [← List.take_append_drop (max 1 (min limit 20)).toNat
    (List.insertionSort (ranksBefore (searchTerms query)) _)] at hperm hpairwise
  refine ⟨_,hperm,hpairwise,List.length_take_le _ _,fun hlt => ?_⟩
  simp only [search,List.length_take] at hlt
  apply List.drop_eq_nil_of_le
  omega

end

/-! The grants of a task. -/

variable (rt : CapabilityRuntime) (enabled : List String) (raw : List (String × String))

/-- The operations that a list of grants names. -/
def named (grants : List String) : List String := (grants.map strip).filter (· ≠ "")

end CapabilityRuntime

/-- The answers are those of one policy, one list of the owner's decisions and one state of the
task. -/
def Told (enabled : List String) (raw : List (String × String)) (state : Dict) :
    (q : Request) → q.Reply → Prop
  | .enabledCapabilities,r => r = .ok enabled
  | .operationAuthorities,r => r = .ok raw
  | .taskState _,r => r = .ok state
  | _,_ => True

variable {σ υ : Type} {w : World σ υ Request Request.Reply} {rt : CapabilityRuntime}
  {enabled : List String} {raw : List (String × String)} {state : Dict} {s t : σ}

def sendMail : OperationDescriptor where
  id := "mail.send"
  capabilityId := "mail"
  family := "mail"
  description := "Send a message"
  effect := .execute

def mailRuntime : CapabilityRuntime where
  operations := [sendMail]
  executors := ["mail.send"]
  authorityResolvers := []
  schemaError _ _ := .ok none
  ids := by decide

/-- One enabled capability, no decision of the owner and no task. -/
def mailAnswers : (q : Request) → q.Reply
  | .enabledCapabilities => .ok ["mail"]
  | .operationAuthorities => .ok []
  | .taskState _ => .ok []
  | _ => .error ⟨.valueError,"out of reach"⟩

section

variable [ActionRuntime] {transcriptId : ℕ} {d : OperationDescriptor}
  {ans : (q : Request) → q.Reply}

/-- The authority of an operation is settled without its arguments: nothing refines it for a call,
or the owner has decided. -/
def Settled (rt : CapabilityRuntime) (raw : List (String × String)) (d : OperationDescriptor) :
    Prop :=
  d.id ∉ rt.authorityResolvers ∨ d.authority = .forbidden ∨ overrideOf raw d.id ≠ none

omit [ActionRuntime] in
theorem resolveAuthority_given (hraw : ans .operationAuthorities = .ok raw)
    (hd : rt.descriptor d.id = some d) (h : Settled rt raw d) (arguments : Dict) :
    (rt.resolveAuthority d.id arguments).given ans =
      .ok ((overrideOf raw d.id).getD d.authority) := by
  have hover : (authorityOverride d.id).given ans = .ok (overrideOf raw d.id) := by
    show Prog.given ans ((Prog.done (ans .operationAuthorities)).bind _) = _
    rw [hraw]
    rfl
  cases ho : overrideOf raw d.id with
  | some mode =>
    rw [ho] at hover
    simp only [CapabilityRuntime.resolveAuthority,hd,Prog.given_bind,hover]
    rfl
  | none =>
    have hcond : d.id ∉ rt.authorityResolvers ∨ d.authority = .forbidden := by
      rcases h with h | h | h
      · exact Or.inl h
      · exact Or.inr h
      · exact absurd ho h
    rw [ho] at hover
    simp only [CapabilityRuntime.resolveAuthority,hd,Prog.given_bind,hover,if_pos hcond]
    rfl

omit [ActionRuntime] in
theorem applyTaskGrant_given (hraw : ans .operationAuthorities = .ok raw)
    (hd : rt.descriptor d.id = some d) (h : d.id ∉ nonDelegableManagedOperations)
    {mode : AuthorityMode} (hmode : mode = (overrideOf raw d.id).getD d.authority) :
    (rt.applyTaskGrant d.id mode).given ans =
      .ok (if mode = .approvalRequired then .auto else mode) := by
  have hover : (authorityOverride d.id).given ans = .ok (overrideOf raw d.id) := by
    show Prog.given ans ((Prog.done (ans .operationAuthorities)).bind _) = _
    rw [hraw]
    rfl
  rw [CapabilityRuntime.applyTaskGrant]
  by_cases hm : mode = .approvalRequired
  · rw [if_neg (by simp [h,hm]),if_pos hm]
    simp only [hd,Prog.given_bind,hover]
    show Prog.given ans (if _ then _ else _) = _
    rw [if_neg]
    · rfl
    · rw [hm] at hmode
      rintro (ho | ⟨ho,hf⟩)
      · rw [ho] at hmode
        cases hmode
      · rw [ho,Option.getD_none,hf] at hmode
        cases hmode
  · rw [if_pos (Or.inr hm),if_neg hm]
    rfl

/-- A call is handled with the authority that its card shows. -/
theorem handlerAuthority_given (hraw : ans .operationAuthorities = .ok raw)
    (hstate : ans (.taskState transcriptId) = .ok state) (hd : rt.descriptor d.id = some d)
    (h : Settled rt raw d) (hn : d.id ∉ nonDelegableManagedOperations) (arguments : Dict) :
    (rt.handlerAuthority transcriptId d.id arguments).given ans =
      .ok ((cardOf raw (managedTaskGrants state) d).authority,
        (cardOf raw (managedTaskGrants state) d).granted) := by
  have hstate' : (put (.taskState transcriptId)).given ans = .ok state := hstate
  simp only [CapabilityRuntime.handlerAuthority,Prog.given_bind,resolveAuthority_given hraw hd h]
  show Prog.given ans (put (.taskState transcriptId)) >>= _ = _
  rw [hstate']
  show Prog.given ans (if _ then _ else _) = _
  simp only [cardOf]
  by_cases hg : d.id ∈ managedTaskGrants state
  · rw [if_pos hg]
    simp only [Prog.given_bind,applyTaskGrant_given hraw hd hn rfl]
    by_cases hm : (overrideOf raw d.id).getD d.authority = .approvalRequired
    · simp only [hm,hg]
      rfl
    · simp only [hm,and_false,if_false]
      show Except.ok _ = _
      simp [hm]
  · rw [if_neg hg]
    simp only [hg,false_and,if_false]
    rfl

theorem searchTool_given (hraw : ans .operationAuthorities = .ok raw)
    (henabled : ans .enabledCapabilities = .ok enabled)
    (hstate : ans (.taskState transcriptId) = .ok state) (query : String) (limit : ℤ) :
    (searchTool rt transcriptId query limit).given ans =
      .ok ((rt.search query limit enabled).map (cardOf raw (managedTaskGrants state))) := by
  show Prog.given ans ((Prog.done (ans .enabledCapabilities)).bind _) = _
  rw [henabled]
  show Prog.given ans ((Prog.done (ans .operationAuthorities)).bind _) = _
  rw [hraw]
  show Prog.given ans ((Prog.done (ans (.taskState transcriptId))).bind _) = _
  rw [hstate]
  rfl

/-- While the owner decides nothing and the task stays as it is, a search shows the best matches
among the enabled operations, and a call of any operation that it shows is then handled with the
authority shown, if that does not depend on the arguments and the operation is not one of those that
no task is granted. -/
theorem search_shows_authority (hraw : ans .operationAuthorities = .ok raw)
    (henabled : ans .enabledCapabilities = .ok enabled)
    (hstate : ans (.taskState transcriptId) = .ok state) {query : String} {limit : ℤ}
    {shown : Except Refusal (List Card)}
    (h : w.Yields (fun q r => r = ans q) (searchTool rt transcriptId query limit) s shown t) :
    ∃ cards, shown = .ok cards ∧ cards.length ≤ (max 1 (min limit 20)).toNat ∧
      (∃ rest, (cards.map (·.operation) ++ rest).Perm (rt.operations.filter
          (CapabilityRuntime.found (CapabilityRuntime.searchTerms query) enabled)) ∧
        (cards.map (·.operation) ++ rest).Pairwise
          (CapabilityRuntime.ranksBefore (CapabilityRuntime.searchTerms query)) ∧
        (cards.length < (max 1 (min limit 20)).toNat → rest = [])) ∧
      ∀ card ∈ cards, card.operation.capabilityId ∈ enabled ∧
        (Settled rt raw card.operation → card.operation.id ∉ nonDelegableManagedOperations →
          ∀ (arguments : Dict) (s' t' : σ) (r : Except Refusal (AuthorityMode × Bool)),
            w.Yields (fun q x => x = ans q)
              (rt.handlerAuthority transcriptId card.operation.id arguments) s' r t' →
            r = .ok (card.authority,card.granted)) := by
  obtain rfl := (Prog.given_of_yields h).trans (searchTool_given hraw henabled hstate query limit)
  have hoperation : ∀ x : OperationDescriptor,
      (cardOf raw (managedTaskGrants state) x).operation = x := by
    intro x
    simp only [cardOf]
    split <;> rfl
  have hmap : ((rt.search query limit enabled).map (cardOf raw (managedTaskGrants state))).map
      (·.operation) = rt.search query limit enabled := by
    simp [Function.comp_def,hoperation]
  obtain ⟨rest,hperm,hpairwise,hlength,hroom⟩ := rt.search_exact query limit enabled
  refine ⟨_,rfl,by simpa using hlength,⟨rest,?_,?_,by simpa using hroom⟩,?_⟩
  · rw [hmap]
    exact hperm
  · rw [hmap]
    exact hpairwise
  · intro card hcard
    obtain ⟨x,hx,rfl⟩ := List.mem_map.mp hcard
    have hmem := hperm.mem_iff.mp (List.mem_append_left rest hx)
    obtain ⟨hop,hfound⟩ := List.mem_filter.mp hmem
    rw [hoperation]
    refine ⟨?_,fun hsettled hn arguments s' t' r hr => ?_⟩
    · simp only [CapabilityRuntime.found,Bool.and_eq_true,decide_eq_true_eq] at hfound
      exact hfound.1
    · exact (Prog.given_of_yields hr).trans (handlerAuthority_given hraw hstate
        (CapabilityRuntime.descriptor_of_mem hop) hsettled hn arguments)

omit [ActionRuntime] in
theorem search_shows_authority_mail : letI := plainActions
    ∃ cards, (searchTool mailRuntime 0 "mail" 8).given mailAnswers = .ok cards ∧
      cards.length ≤ 8 := by
  let _ := plainActions
  have hyields := Prog.yields_given mailAnswers (fun q r => r = mailAnswers q) (fun _ => rfl)
    (searchTool mailRuntime 0 "mail" 8)
  obtain ⟨cards,h,hlength,_⟩ := search_shows_authority rfl rfl rfl hyields
  exact ⟨cards,h,hlength⟩

end

end Capabilities
end Atlas
