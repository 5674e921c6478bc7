import Atlas.Actions.AuthoritySteps
import Atlas.Lib.Histories
import Mathlib.Logic.Relation

/-! The life of an action: what a transaction may make of its row, and what is left of it after
any number of them. -/
namespace Atlas
namespace Actions

/-- The statuses that no transaction takes an action out of. -/
def ActionStatus.ended : ActionStatus → Bool
  | .prepared | .executing => false
  | _ => true

/-- How far an action has come. -/
def ActionStatus.rank : ActionStatus → ℕ
  | .prepared => 0
  | .executing => 1
  | _ => 2

/-- What one transaction may make of a status; only the report of a result closes an action. -/
inductive ActionStatus.Move (closing : Bool) : ActionStatus → ActionStatus → Prop
  | stay (x : ActionStatus) : Move closing x x
  | begin : Move closing .prepared .executing
  | cancel : Move closing .prepared .cancelled
  | doubt : Move closing .executing .uncertain
  | finish {x : ActionStatus} : closing = true → x ∈ [ActionStatus.succeeded,.failed,.uncertain] →
      Move closing .executing x

namespace ActionStatus

theorem rank_eq_one {x : ActionStatus} : x.rank = 1 ↔ x = .executing := by
  cases x <;> simp [rank]

variable {closing : Bool} {x y : ActionStatus}

theorem Move.rank_le (h : Move closing x y) : x.rank ≤ y.rank := by
  cases h with
  | stay => exact le_rfl
  | begin => simp [rank]
  | cancel => simp [rank]
  | doubt => simp [rank]
  | finish _ hx =>
    simp only [List.mem_cons,List.not_mem_nil,or_false] at hx
    rcases hx with rfl | rfl | rfl <;> simp [rank]

theorem Move.of_ended (h : Move closing x y) (hx : x.ended = true) : y = x := by
  cases h with
  | stay => rfl
  | begin => simp [ended] at hx
  | cancel => simp [ended] at hx
  | doubt => simp [ended] at hx
  | finish => simp [ended] at hx

theorem Move.loosen (h : Move closing x y) : Move true x y := by
  cases h with
  | stay => exact .stay _
  | begin => exact .begin
  | cancel => exact .cancel
  | doubt => exact .doubt
  | finish _ hx => exact .finish rfl hx

/-- What becomes of an executing action while nothing reports its result. -/
theorem Move.of_executing (h : Move false .executing y) : y = .executing ∨ y = .uncertain := by
  cases h with
  | stay => exact Or.inl rfl
  | doubt => exact Or.inr rfl
  | finish hc => cases hc

end ActionStatus

/-- The entries of the evidence that say what an action is to do. -/
def ActionRow.settledKeys : List String := ["proposal","arguments","automatic","capability_id"]

/-- What a transaction keeps of the row of an action, and what it may make of its status. -/
structure ActionRow.Kept (closing : Bool) (a b : ActionRow) : Prop where
  runId : b.runId = a.runId
  operation : b.operation = a.operation
  targetHash : b.targetHash = a.targetHash
  idempotencyKey : b.idempotencyKey = a.idempotencyKey
  settled : ∀ key ∈ settledKeys, Dict.get b.evidence key = Dict.get a.evidence key
  status : ActionStatus.Move closing a.status b.status

namespace ActionRow

variable {closing : Bool}

theorem Kept.refl (a : ActionRow) : a.Kept closing a := ⟨rfl,rfl,rfl,rfl,fun _ _ => rfl,.stay _⟩

theorem Kept.loosen {a b : ActionRow} (h : a.Kept closing b) : a.Kept true b :=
  ⟨h.runId,h.operation,h.targetHash,h.idempotencyKey,h.settled,h.status.loosen⟩

theorem get_put_settled (d : Dict) (value : Json) {key k : String} (hk : k ∈ settledKeys)
    (h : key ∉ settledKeys) : Dict.get (Dict.put d key value) k = Dict.get d k :=
  Dict.get_put_of_ne d value fun he => h (he ▸ hk)

theorem begin_kept {a : ActionRow} (h : a.status = .prepared) (now : Instant) :
    a.Kept closing (a.begin now) :=
  ⟨rfl,rfl,rfl,rfl,fun _ _ => rfl,h ▸ .begin⟩

theorem cancel_kept {a : ActionRow} (h : a.status = .prepared) : a.Kept closing a.cancel :=
  ⟨rfl,rfl,rfl,rfl,fun _ hk => get_put_settled _ _ hk (by simp [settledKeys]),h ▸ .cancel⟩

theorem completedEvidence_settled (evidence result : Dict) (externalId : Option String) {k : String}
    (hk : k ∈ settledKeys) : Dict.get (completedEvidence evidence result externalId) k =
      Dict.get evidence k := by
  have hresult : "result" ∉ settledKeys := by simp [settledKeys]
  have hdecision : "decision" ∉ settledKeys := by simp [settledKeys]
  have hid : "external_id" ∉ settledKeys := by simp [settledKeys]
  simp only [completedEvidence]
  split
  · rw [get_put_settled _ _ hk hresult,get_put_settled _ _ hk hdecision]
  · rw [get_put_settled _ _ hk hid,get_put_settled _ _ hk hresult,get_put_settled _ _ hk hdecision]

theorem complete_kept {a : ActionRow} {status : ActionStatus} (h : a.status = .executing)
    (hs : status ∈ [ActionStatus.succeeded,.failed,.uncertain]) (result : Dict)
    (externalId : Option String) : a.Kept true (a.complete status result externalId) :=
  ⟨rfl,rfl,rfl,rfl,fun _ hk => completedEvidence_settled _ _ _ hk,h ▸ .finish rfl hs⟩

theorem remark_kept (a : ActionRow) (text : String) {key : String} (h : key ∉ settledKeys) :
    a.Kept closing (a.remark key text) :=
  ⟨rfl,rfl,rfl,rfl,fun _ hk => get_put_settled _ _ hk h,.stay _⟩

/-- What an interruption makes of an action. -/
def Abandoned (a b : ActionRow) : Prop := b = a ∨ (a.status = .executing ∧ b = a.doubt)

theorem Abandoned.refl (a : ActionRow) : a.Abandoned a := Or.inl rfl

theorem Abandoned.kept {a b : ActionRow} (h : a.Abandoned b) : a.Kept closing b := by
  rcases h with rfl | ⟨hs,rfl⟩
  · exact Kept.refl b
  · exact ⟨rfl,rfl,rfl,rfl,fun _ _ => rfl,hs ▸ .doubt⟩

theorem Abandoned.trans {a b c : ActionRow} (h : a.Abandoned b) (h' : b.Abandoned c) :
    a.Abandoned c := by
  rcases h with rfl | ⟨hs,rfl⟩
  · exact h'
  · rcases h' with rfl | ⟨hd,_⟩
    · exact Or.inr ⟨hs,rfl⟩
    · cases hd

end ActionRow

/-- Whether an operation reports the result of an action. -/
def Op.closes : Op → Bool
  | .complete .. | .finishAction .. => true
  | _ => false

namespace Ledger

open RowTable

variable {s s' : Ledger} {id runId : ℕ} {a : ActionRow} {now : Instant} {closing : Bool}

/-- The actions are the same ones, each kept as a transaction keeps it. -/
structure Keeps (closing : Bool) (s s' : Ledger) : Prop where
  rows : Evolves (ActionRow.Kept closing) s.actions s'.actions
  length : s'.actions.length = s.actions.length

theorem Keeps.same (h : s'.actions = s.actions) : Keeps closing s s' :=
  ⟨Evolves.of_eq ActionRow.Kept.refl h,by rw [h]⟩

theorem Keeps.changed {f : ActionRow → ActionRow} (hrow : s.actions[id]? = some a)
    (h : s'.actions = s.actions.modify id f) (hf : a.Kept closing (f a)) : Keeps closing s s' := by
  refine ⟨Evolves.modified ActionRow.Kept.refl h fun r hr => ?_,by rw [h,List.length_modify]⟩
  obtain rfl := Option.some.inj (hrow.symm.trans hr)
  exact hf

theorem Keeps.remarked {text key : String} (hkey : key ∉ ActionRow.settledKeys)
    (h : s'.actions = s.actions.modify id (·.remark key text)) : Keeps closing s s' :=
  ⟨Evolves.modified ActionRow.Kept.refl h fun r _ => r.remark_kept text hkey,
    by rw [h,List.length_modify]⟩

theorem Doubted.abandoned (h : Doubted s s' id) :
    Evolves ActionRow.Abandoned s.actions s'.actions := by
  obtain ⟨x,hrow,hstatus,hmarked⟩ := h
  apply Evolves.modified ActionRow.Abandoned.refl hmarked.actions
  intro r hr
  obtain rfl := Option.some.inj (hrow.symm.trans hr)
  exact Or.inr ⟨hstatus,rfl⟩

theorem Doubted.keeps (h : Doubted s s' id) : Keeps closing s s' :=
  ⟨h.abandoned.mono ActionRow.Abandoned.kept,h.length⟩

theorem abandonActions_abandoned {reason : String} (l : List ℕ) : ∀ {s s' : Ledger},
    l.foldlM (abandonAction reason) s = .ok s' →
      Evolves ActionRow.Abandoned s.actions s'.actions := by
  induction l with
  | nil =>
    intro s s' h
    obtain rfl := Except.ok.inj h
    exact Evolves.of_eq ActionRow.Abandoned.refl rfl
  | cons id l ih =>
    intro s s' h
    rw [List.foldlM_cons] at h
    obtain ⟨t,ht,hrest⟩ := accepted h
    rcases abandonAction_ok ht with rfl | hd
    · exact ih hrest
    · exact hd.abandoned.trans ActionRow.Abandoned.trans (ih hrest)

theorem cancel_keeps (h : s.cancel id now = .ok s') : Keeps closing s s' := by
  obtain ⟨x,hrow,hstatus,hclosed⟩ := cancel_ok h
  exact Keeps.changed hrow hclosed.actions (ActionRow.cancel_kept hstatus)

theorem complete_keeps {status : ActionStatus} {result : Dict} {externalId : Option String}
    (h : s.complete id status result externalId now = .ok s') : Keeps true s s' := by
  obtain ⟨x,hrow,hstatus,⟨rfl,hmarked⟩ | ⟨hends,hclosed⟩⟩ := complete_ok h
  · exact Keeps.changed hrow hmarked.actions
      (ActionRow.complete_kept hstatus (by simp) result externalId)
  · apply Keeps.changed hrow hclosed.actions
    apply ActionRow.complete_kept hstatus
    rcases hends with rfl | rfl <;> simp

theorem supersede_keeps (h : s.supersede id now = .ok s') : Keeps closing s s' := by
  -- The remark falls on a row that the cancellation has just ended.
  obtain ⟨t,hcancel,rfl⟩ := supersede_ok h
  obtain ⟨x,hrow,hstatus,hclosed⟩ := cancel_ok hcancel
  have hchange : Changes s.actions t.actions id x x.cancel := by
    rw [hclosed.actions]
    exact Changes.modify hrow _
  have hboth := hchange.trans (Changes.modify hchange.after
    (·.remark "cancel_reason" "superseded_by_current_auto_authority"))
  have hkept : x.Kept closing x.cancel := ActionRow.cancel_kept hstatus
  obtain ⟨h₁,h₂,h₃,h₄,h₅,h₆⟩ := hkept
  refine ⟨Evolves.changed ActionRow.Kept.refl hboth ⟨h₁,h₂,h₃,h₄,fun k hk => ?_,h₆⟩,hboth.length⟩
  exact (ActionRow.get_put_settled _ _ hk (by simp [ActionRow.settledKeys])).trans (h₅ k hk)

variable [ActionRuntime]

theorem interruptRun_keeps {reason : String} (h : s.interruptRun runId reason now = .ok s') :
    Keeps closing s s' := by
  rcases interruptRun_ok h with ⟨rfl,_⟩ | ⟨run,t,u,_,_,rfl,hfold,hs⟩
  · exact Keeps.same rfl
  · have hu := abandonActions_abandoned _ hfold
    have hlast : s'.actions = u.actions := by
      rcases hs with rfl | hs
      · simp
      · rcases noteInterruption_ok hs with rfl | ⟨row,_,rfl⟩
        · simp
        · simp [addAttention]
    refine ⟨?_,?_⟩
    · rw [hlast]
      exact hu.mono ActionRow.Abandoned.kept
    · rw [hlast]
      exact (abandoned_grows _ hfold).2

theorem finishAction_keeps {result : CapabilityCallResult} {evidenceId : String}
    (h : s.finishAction runId id result evidenceId now = .ok s') : Keeps true s s' := by
  rcases finishAction_ok h with ⟨x,_,_,rfl⟩ | ⟨t,hcomplete,rfl⟩
  · exact Keeps.remarked (by simp [ActionRow.settledKeys]) rfl
  · have hk := complete_keeps hcomplete
    rcases noteStagedChange_eq t runId result with he | ⟨row,_,he⟩
    · rw [he]
      exact hk
    · rw [he]
      exact ⟨hk.rows,hk.length⟩

/-- The row that a transaction of this kind enters, under its number. -/
def Enters (op : Op) (id : ℕ) (now : Instant) (x : ActionRow) : Prop :=
  match op with
  | .prepareProposal runId operation arguments title capabilityId =>
      x = preparedAction id runId operation arguments title
        ((orNone capabilityId).getD (operationPrefix operation)) now
  | .beginAutomaticExecution runId operation arguments summary capabilityId =>
      x = automaticAction id runId operation arguments summary capabilityId now
  | .recordExecution runId operation arguments status summary output =>
      x = recordedAction id runId operation arguments status summary output now
  | _ => False

/-- What one transaction may make of the actions. -/
theorem apply_actions {op : Op} (hc : s.apply op now = .ok s') : Keeps op.closes s s' ∨
    ∃ x, Enters op s.actions.length now x ∧ s'.actions = s.actions ++ [x] := by
  cases op with
  | openTranscript row =>
    obtain rfl := Except.ok.inj hc
    exact Or.inl (Keeps.same rfl)
  | document transcriptId state =>
    obtain rfl := Except.ok.inj hc
    exact Or.inl (Keeps.same rfl)
  | createRun transcriptId intent kind =>
    obtain ⟨⟨t,i⟩,ht,rfl⟩ := map_accepted hc
    obtain ⟨_,rfl,_⟩ := createRun_ok ht
    exact Or.inl (Keeps.same rfl)
  | queueRun transcriptId intent scheduleId scheduledFor snapshot =>
    obtain ⟨⟨t,i⟩,ht,rfl⟩ := map_accepted hc
    obtain ⟨row,_,_,_,_,_,_,_,_,_,rfl,_⟩ := queueRun_ok ht
    exact Or.inl (Keeps.same rfl)
  | startRun runId =>
    obtain rfl := Except.ok.inj hc
    exact Or.inl (Keeps.same rfl)
  | heartbeat runId =>
    obtain rfl := Except.ok.inj hc
    exact Or.inl (Keeps.same rfl)
  | finishRun runId succeeded =>
    rcases finishRun_ok hc with rfl | ⟨run,_,_,_,rfl⟩
    · exact Or.inl (Keeps.same rfl)
    · exact Or.inl (Keeps.same (by rw [recomputeRun_actions]; rfl))
  | interruptRun runId reason => exact Or.inl (interruptRun_keeps hc)
  | expireRun runId cutoff =>
    obtain rfl := Except.ok.inj hc
    exact Or.inl (Keeps.same rfl)
  | prepareProposal runId operation arguments title capabilityId =>
    obtain ⟨⟨t,i⟩,ht,rfl⟩ := map_accepted hc
    obtain ⟨_,_,ht⟩ := accepted ht
    obtain ⟨_,_,ht⟩ := accepted ht
    obtain ⟨rfl,_⟩ := Prod.mk.inj (Except.ok.inj ht)
    exact Or.inr ⟨_,rfl,by rw [recomputeRun_actions]; rfl⟩
  | beginExecution actionId reviewed =>
    obtain ⟨⟨t,proposal⟩,ht,rfl⟩ := map_accepted hc
    obtain ⟨x,hrow,hstatus,_,_,rfl⟩ := beginExecution_ok ht
    exact Or.inl (Keeps.changed hrow (by rw [recomputeRun_actions]; rfl)
      (ActionRow.begin_kept hstatus now))
  | beginAutomaticExecution runId operation arguments summary capabilityId =>
    obtain ⟨⟨t,i⟩,ht,rfl⟩ := map_accepted hc
    obtain ⟨_,_,rfl,rfl⟩ := beginAutomaticExecution_ok ht
    exact Or.inr ⟨_,rfl,rfl⟩
  | recordExecution runId operation arguments status summary output =>
    obtain ⟨⟨t,i⟩,ht,rfl⟩ := map_accepted hc
    obtain ⟨_,rfl,rfl⟩ := recordExecution_ok ht
    exact Or.inr ⟨_,rfl,rfl⟩
  | cancel actionId => exact Or.inl (cancel_keeps hc)
  | supersede actionId =>
    exact Or.inl (supersede_keeps hc)
  | complete actionId status result externalId => exact Or.inl (complete_keeps hc)
  | finishAction runId actionId result evidenceId => exact Or.inl (finishAction_keeps hc)
  | reconcileStaleExecution actionId staleBefore =>
    rcases reconcileStaleExecution_ok hc with rfl | hd
    · exact Or.inl (Keeps.same rfl)
    · exact Or.inl hd.keeps
  | acknowledgeUncertain actionId =>
    obtain ⟨x,i,hrow,_,_,rfl⟩ := acknowledgeUncertain_ok hc
    exact Or.inl (Keeps.remarked (by simp [ActionRow.settledKeys]) rfl)
  | dismissInterruption attentionId =>
    rcases dismissInterruption_ok hc with rfl | ⟨row,_,_,rfl⟩
    · exact Or.inl (Keeps.same rfl)
    · exact Or.inl (Keeps.same rfl)
  | dismissInformationalNotices =>
    obtain rfl := Except.ok.inj hc
    exact Or.inl (Keeps.same rfl)
  | ownerMessage transcriptId =>
    obtain rfl := Except.ok.inj hc
    exact Or.inl (Keeps.same rfl)
  | stallAttention transcriptId runId title detail =>
    obtain rfl := Except.ok.inj hc
    simp only [stallAttention]
    split
    · exact Or.inl (Keeps.same rfl)
    · exact Or.inl (Keeps.same rfl)
  | resolveStallAttention transcriptId =>
    obtain rfl := Except.ok.inj hc
    exact Or.inl (Keeps.same rfl)

/-- What one step may make of the actions. -/
theorem step_actions (s : Ledger) (e : Op × Instant) : Keeps e.1.closes s (s.step e) ∨
    ∃ x, Enters e.1 s.actions.length e.2 x ∧ (s.step e).actions = s.actions ++ [x] := by
  simp only [step]
  split
  · next t ht => exact apply_actions ht
  · exact Or.inl (Keeps.same rfl)

theorem step_keeps (s : Ledger) (e : Op × Instant) :
    Evolves (ActionRow.Kept e.1.closes) s.actions (s.step e).actions := by
  rcases s.step_actions e with h | ⟨x,_,h⟩
  · exact h.rows
  · exact Evolves.added ActionRow.Kept.refl h

end Ledger

end Actions
end Atlas
