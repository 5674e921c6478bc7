import Atlas.Runtime.OneInference
import Atlas.Actions.Attention

/-! Whether a claim gets to the managed tasks that it could continue. -/
namespace Atlas
namespace Runtime

open Actions RowTable
open Memory (TranscriptRow)

section

variable [ActionRuntime]

/-- The loop of `_claim_one`: a task looked at later is seen with what was written before. -/
def claimFrom (auto : ℕ → Bool) (fresh : String) (now : Instant) : List ℕ → Ledger →
    Except Refusal (Option (Ledger × ℕ × String))
  | [],_ => .ok none
  | id :: todo,s =>
      match s.transcripts[id]? with
      | none => claimFrom auto fresh now todo s
      | some row => do
          let found := look s auto fresh now id row
          let s ← writeLook now s (id,found)
          match found.intent with
          | some intent => return some (s,id,intent)
          | none => claimFrom auto fresh now todo s

/-- `_claim_one`, not interrupted by other transactions but for the locks they hold. A claim that
finds no task commits nothing. -/
def claimOne (s : Ledger) (locked : ℕ → Bool) (auto : ℕ → Bool) (fresh : String) (now : Instant) :
    Except Refusal (Option (Ledger × ℕ)) := do
  match ← claimFrom auto fresh now (selectable s locked) s with
  | none => return none
  | some (s,id,intent) =>
      let s' ← commitClaim s [] id intent fresh now
      return some (s',id)

/-- A managed task that can be continued: it is active, has no pending action that is not settled,
is not stalled, its time has come, and no background run is active. -/
def Claimable (s : Ledger) (auto : ℕ → Bool) (fresh : String) (now : Instant) (id : ℕ) : Prop :=
  ∃ row, s.transcripts[id]? = some row ∧ managed row.activeTaskState = true ∧
    Dict.text row.activeTaskState "status" = some "active" ∧
    let runtime := part (reconcilePending s auto fresh row).1.activeTaskState "runtime"
    listed runtime "pending_actions" = [] ∧ Dict.text runtime "controller_state" ≠ some "stalled" ∧
      ¬(parseTime (Dict.get runtime "next_wake_at")).any (now < ·) ∧
      s.inferences.countP (works id) = 0

/-- The proposals that a claim supersedes at a task have one open question to the owner at most. -/
def Cancellable (s : Ledger) (auto : ℕ → Bool) (fresh : String) (now : Instant) (id : ℕ) : Prop :=
  ∀ row, s.transcripts[id]? = some row →
    ∀ a ∈ (look s auto fresh now id row).superseded, (s.openAttention a).length ≤ 1

/-- A claim makes a run for a task that can be continued. -/
def ClaimsOne (s : Ledger) (locked auto : ℕ → Bool) (fresh : String) (now : Instant) : Prop :=
  ∃ s' id, claimOne s locked auto fresh now = .ok (some (s',id)) ∧
    Claimable s auto fresh now id ∧
    s'.inferences = s.inferences ++ [⟨.background,some id,true,.running⟩]

variable {s s' : Ledger} {auto : ℕ → Bool} {fresh : String} {now : Instant} {id : ℕ}

theorem look_intent {row : TranscriptRow} (hrow : s.transcripts[id]? = some row) :
    (look s auto fresh now id row).intent.isSome ↔ Claimable s auto fresh now id := by
  have hsome : ∀ p : TranscriptRow → Prop,
      (∃ row, s.transcripts[id]? = some row ∧ p row) ↔ p row := by
    intro p
    constructor
    · rintro ⟨x,hx,hp⟩
      rw [← Option.some.inj (hrow.symm.trans hx)] at hp
      exact hp
    · exact fun hp => ⟨row,hrow,hp⟩
  unfold Claimable
  rw [hsome,← length_activeTaskRuns,List.length_eq_zero_iff]
  simp only [look]
  split
  · next hidle =>
    rcases hidle with hm | hs
    · simp [hm]
    · simp [hs]
  · next hbusy =>
    rw [not_or,Bool.not_eq_false,not_not] at hbusy
    split
    · next hpending => simp [hpending]
    · next hclear =>
      rw [not_not] at hclear
      split
      · next hwait =>
        simp only [Option.isSome_none,Bool.false_eq_true,false_iff]
        rintro ⟨_,_,_,hstalled,hwake,hruns⟩
        rcases hwait with h | h | h
        · exact hstalled h
        · exact hwake h
        · exact h hruns
      · next hgo =>
        simp only [not_or,not_not] at hgo
        simp only [Option.isSome_some,true_iff]
        exact ⟨hbusy.1,hbusy.2,hclear,hgo.1,hgo.2.1,hgo.2.2⟩

end

section

variable {s s' u : Ledger} {auto : ℕ → Bool} {now : Instant} {id : ℕ}

/-- The attention rows about an action. -/
def about (s : Ledger) (id : ℕ) : List OwnerAttentionRow :=
  s.attention.filter fun r => r.actionId == some id

theorem length_openAttention_about (s : Ledger) (id : ℕ) :
    (s.openAttention id).length = (about s id).countP (!·.resolved) := by
  rw [Ledger.length_openAttention,Ledger.openCount,about,List.countP_filter]
  refine List.countP_congr fun r _ => ?_
  simp [Ledger.asks,and_comm]

/-- An action that a claim has superseded, or as it was. -/
def Kept (auto : ℕ → Bool) (s s' : Ledger) (id : ℕ) : Prop :=
  (s'.actions[id]? = s.actions[id]? ∧ about s' id = about s id) ∨
    ∃ a a', s.actions[id]? = some a ∧ s'.actions[id]? = some a' ∧ supersedes auto id a = true ∧
      a'.status = .cancelled ∧ (s.openAttention id).length ≤ 1

/-- What a claim has written so far, as the tasks that it has still to look at see it. -/
structure Alike (auto : ℕ → Bool) (s s' : Ledger) : Prop where
  inferences : s'.inferences = s.inferences
  length : s'.actions.length = s.actions.length
  actions : ∀ id, Kept auto s s' id

theorem supersedes_cancelled {a : ActionRow} (h : a.status = .cancelled) :
    supersedes auto id a = false := by
  rw [supersedes,h]
  rfl

theorem Alike.refl (auto : ℕ → Bool) (s : Ledger) : Alike auto s s :=
  ⟨rfl,rfl,fun _ => Or.inl ⟨rfl,rfl⟩⟩

theorem Alike.trans (h : Alike auto s u) (h' : Alike auto u s') : Alike auto s s' := by
  refine ⟨h'.inferences.trans h.inferences,h'.length.trans h.length,fun id => ?_⟩
  rcases h.actions id with ⟨hrow,habout⟩ | ⟨a,a',ha,ha',hsup,hcancelled,hone⟩
  · rcases h'.actions id with ⟨hrow',habout'⟩ | ⟨a,a',ha,ha',hsup,hcancelled,hone⟩
    · exact Or.inl ⟨hrow'.trans hrow,habout'.trans habout⟩
    · rw [length_openAttention_about,habout,← length_openAttention_about] at hone
      exact Or.inr ⟨a,a',hrow ▸ ha,ha',hsup,hcancelled,hone⟩
  · rcases h'.actions id with ⟨hrow',_⟩ | ⟨b,_,hb,_,hsup',_,_⟩
    · exact Or.inr ⟨a,a',ha,hrow'.trans ha',hsup,hcancelled,hone⟩
    · obtain rfl := Option.some.inj (ha'.symm.trans hb)
      rw [supersedes_cancelled hcancelled] at hsup'
      cases hsup'

theorem about_modify {i : ℕ} {f : OwnerAttentionRow → OwnerAttentionRow}
    (hf : ∀ r, (f r).actionId = r.actionId) (hi : ∀ r, s.attention[i]? = some r →
      r.actionId ≠ some id) (h : s'.attention = s.attention.modify i f) :
    about s' id = about s id := by
  rw [about,h,about]
  clear h
  generalize s.attention = rows at hi
  induction rows generalizing i with
  | nil => cases i <;> rfl
  | cons r rows ih =>
    cases i with
    | zero =>
      have hr := hi r rfl
      have hr' : (f r).actionId ≠ some id := by rwa [hf]
      simp [hr,hr']
    | succ i =>
      rw [List.modify_succ_cons,List.filter_cons,List.filter_cons,ih hi]

/-- A proposal is superseded exactly if it has one open question at most; the others are as they
were. -/
theorem supersede_alike (now : Instant) {a : ActionRow} (ha : s.actions[id]? = some a)
    (hsup : supersedes auto id a = true) :
    ((∃ s', s.supersede id now = .ok s') ↔ (s.openAttention id).length ≤ 1) ∧
      ∀ s', s.supersede id now = .ok s' → Alike auto s s' ∧ s'.transcripts = s.transcripts ∧
        ∀ j, j ≠ id → s'.actions[j]? = s.actions[j]? ∧ about s' j = about s j := by
  have hprepared : a.status = .prepared := by
    simp only [supersedes,Bool.and_eq_true,beq_iff_eq] at hsup
    exact hsup.1.1
  have hopen : ((s.setAction id (·.cancel)).openAttention id) = s.openAttention id := rfl
  have hone : ∀ {s'}, s.supersede id now = .ok s' → (s.openAttention id).length ≤ 1 := by
    intro s' h
    obtain ⟨t,hcancel,_⟩ := Ledger.supersede_ok h
    obtain ⟨_,_,_,hclosed⟩ := Ledger.cancel_ok hcancel
    rcases hclosed.attention with ⟨he,_⟩ | ⟨i,he,_⟩
    · rw [hopen] at he
      simp [he]
    · rw [hopen] at he
      simp [he]
  refine ⟨⟨fun ⟨s',h⟩ => hone h,fun hlen => ?_⟩,fun s' h => ?_⟩
  · have hcancel : ∃ t, s.cancel id now = .ok t := by
      unfold Ledger.cancel
      simp only [Ledger.getAction,ha,require,hprepared,if_true,bind,Except.bind,
        Ledger.resolveAttentionAndRun,hopen]
      rcases hl : s.openAttention id with _ | ⟨x,_ | ⟨y,l⟩⟩
      · exact ⟨_,rfl⟩
      · exact ⟨_,rfl⟩
      · rw [hl] at hlen
        simp at hlen
    obtain ⟨t,ht⟩ := hcancel
    exact ⟨_,by rw [Ledger.supersede,ht]; rfl⟩
  · have hlen := hone h
    obtain ⟨t,hcancel,rfl⟩ := Ledger.supersede_ok h
    obtain ⟨b,hb,_,hclosed⟩ := Ledger.cancel_ok hcancel
    obtain rfl := Option.some.inj (ha.symm.trans hb)
    have hothers : ∀ j, j ≠ id →
        (t.setAction id (·.remark "cancel_reason" "superseded_by_current_auto_authority")).actions[j]? =
          s.actions[j]? ∧
        about (t.setAction id
          (·.remark "cancel_reason" "superseded_by_current_auto_authority")) j = about s j := by
      intro j hj
      constructor
      · simp only [Ledger.setAction,hclosed.actions]
        rw [getElem?_modify_ne _ _ (Ne.symm hj),getElem?_modify_ne _ _ (Ne.symm hj)]
      · rcases hclosed.attention with ⟨_,he⟩ | ⟨i,hi,he⟩
        · simp only [about,Ledger.setAction,he]
        · change about t j = about s j
          refine about_modify (f := (·.resolve now)) (fun r => rfl) (fun r hr => ?_) he
          obtain ⟨x,hx,hid,_⟩ := Ledger.mem_openAttention hi
          obtain rfl := Option.some.inj (hr.symm.trans hx)
          rw [hid]
          exact fun hc => hj (Option.some.inj hc).symm
    refine ⟨⟨?_,?_,fun j => ?_⟩,hclosed.transcripts,hothers⟩
    · have hsame := Ledger.cancel_inferences hcancel
      exact hsame
    · simp only [Ledger.setAction,hclosed.actions,List.length_modify]
    · by_cases hj : j = id
      · subst hj
        refine Or.inr ⟨a,(a.cancel).remark "cancel_reason" "superseded_by_current_auto_authority",
          ha,?_,hsup,rfl,hlen⟩
        simp only [Ledger.setAction,hclosed.actions]
        rw [getElem?_modify_self,getElem?_modify_self,ha]
        rfl
      · exact Or.inl (hothers j hj)

/-- The proposals that a claim supersedes at one task. -/
theorem supersedes_alike (now : Instant) {l : List ℕ} (hl : l.Nodup)
    (hsup : ∀ id ∈ l, ∃ a, s.actions[id]? = some a ∧ supersedes auto id a = true) :
    ((∃ s', l.foldlM (fun s id => s.supersede id now) s = .ok s') ↔
        ∀ id ∈ l, (s.openAttention id).length ≤ 1) ∧
      ∀ s', l.foldlM (fun s id => s.supersede id now) s = .ok s' →
        Alike auto s s' ∧ s'.transcripts = s.transcripts := by
  induction l generalizing s with
  | nil =>
    refine ⟨⟨fun _ id hid => absurd hid List.not_mem_nil,fun _ => ⟨s,rfl⟩⟩,fun s' h => ?_⟩
    obtain rfl := Except.ok.inj h
    exact ⟨Alike.refl _ _,rfl⟩
  | cons id l ih =>
    rw [List.nodup_cons] at hl
    obtain ⟨a,ha,hid⟩ := hsup id List.mem_cons_self
    obtain ⟨hiff,hstep⟩ := supersede_alike now ha hid
    have hrest : ∀ {u}, s.supersede id now = .ok u → (∀ i ∈ l, ∃ a, u.actions[i]? = some a ∧
        supersedes auto i a = true) ∧
        ((∀ i ∈ l, (u.openAttention i).length ≤ 1) ↔
          ∀ i ∈ l, (s.openAttention i).length ≤ 1) := by
      intro u hu
      obtain ⟨_,_,hothers⟩ := hstep u hu
      have hne : ∀ i ∈ l, i ≠ id := by
        rintro i hi rfl
        exact hl.1 hi
      refine ⟨fun i hi => ?_,forall₂_congr fun i hi => ?_⟩
      · rw [(hothers i (hne i hi)).1]
        exact hsup i (List.mem_cons_of_mem _ hi)
      · rw [length_openAttention_about,(hothers i (hne i hi)).2,← length_openAttention_about]
    refine ⟨⟨?_,fun h => ?_⟩,fun s' h => ?_⟩
    · rintro ⟨s',h⟩
      rw [List.foldlM_cons] at h
      obtain ⟨u,hu,h⟩ := accepted h
      obtain ⟨hsup',hlen⟩ := hrest hu
      exact List.forall_mem_cons.mpr ⟨hiff.mp ⟨u,hu⟩,
        hlen.mp ((ih hl.2 hsup').1.mp ⟨s',h⟩)⟩
    · obtain ⟨hone,hmany⟩ := List.forall_mem_cons.mp h
      obtain ⟨u,hu⟩ := hiff.mpr hone
      obtain ⟨hsup',hlen⟩ := hrest hu
      obtain ⟨s',hs'⟩ := (ih hl.2 hsup').1.mpr (hlen.mpr hmany)
      exact ⟨s',by rw [List.foldlM_cons,hu]; exact hs'⟩
    · rw [List.foldlM_cons] at h
      obtain ⟨u,hu,h⟩ := accepted h
      obtain ⟨halike,htranscripts,_⟩ := hstep u hu
      obtain ⟨halike',htranscripts'⟩ := (ih hl.2 (hrest hu).1).2 s' h
      exact ⟨halike.trans halike',htranscripts'.trans htranscripts⟩

/-- What is settled for a task stays settled while the claim writes. -/
theorem Alike.settled (h : Alike auto s s') (i : ℕ) :
    ((s'.actions[i]?).any fun a => supersedes auto i a || settledAction s' i a) =
      (s.actions[i]?).any fun a => supersedes auto i a || settledAction s i a := by
  rcases h.actions i with ⟨hrow,habout⟩ | ⟨a,a',ha,ha',hsup,hcancelled,_⟩
  · rw [hrow]
    congr 1
    funext a
    have hany : ∀ p : OwnerAttentionRow → Bool,
        (s'.attention.any fun r => r.actionId == some i && p r) =
          s.attention.any fun r => r.actionId == some i && p r := by
      intro p
      rw [← List.any_filter,← List.any_filter]
      exact congrArg (List.any · p) habout
    have hseen := hany fun _ => true
    have hopen := hany fun r => !r.resolved
    simp only [Bool.and_true] at hseen
    simp only [settledAction,hseen,hopen]
  · have hdone : settledAction s' i a' = true := by simp [settledAction,hcancelled]
    simp [ha,ha',hsup,hdone]

variable [ActionRuntime] {fresh : String}

/-- A task is seen as it was, save for proposals that are superseded by then. -/
theorem Alike.look (h : Alike auto s s') (row : TranscriptRow) :
    (Runtime.look s' auto fresh now id row).row = (Runtime.look s auto fresh now id row).row ∧
      (Runtime.look s' auto fresh now id row).intent =
        (Runtime.look s auto fresh now id row).intent := by
  have hids : ids (fun _ => true) s'.actions = ids (fun _ => true) s.actions := by
    have hall : ∀ t : List ActionRow, ids (fun _ => true) t = List.range t.length := by
      intro t
      refine List.filter_eq_self.mpr fun i hi => ?_
      rw [List.getElem?_eq_getElem (List.mem_range.mp hi)]
      rfl
    rw [hall,hall,h.length]
  have hreconciled : (reconcilePending s' auto fresh row).1 =
      (reconcilePending s auto fresh row).1 := by
    simp only [reconcilePending,hids]
    rw [List.filter_congr fun i _ => h.settled i]
    split
    · rfl
    · rfl
  have hruns : activeTaskRuns s' id = [] ↔ activeTaskRuns s id = [] := by
    rw [← List.length_eq_zero_iff,← List.length_eq_zero_iff,length_activeTaskRuns,
      length_activeTaskRuns,h.inferences]
  simp only [Runtime.look]
  split
  · exact ⟨rfl,rfl⟩
  · rw [hreconciled]
    split
    · exact ⟨rfl,rfl⟩
    · simp only [ne_eq,hruns]
      split
      · exact ⟨rfl,rfl⟩
      · exact ⟨rfl,rfl⟩

theorem mem_superseded {row : TranscriptRow} {a : ℕ} :
    a ∈ (look s auto fresh now id row).superseded ↔
      (managed row.activeTaskState = true ∧ Dict.text row.activeTaskState "status" = some "active") ∧
        (pendingActionIds row.activeTaskState).contains a = true ∧
        (s.actions[a]?).any (supersedes auto a) = true := by
  have hids : a ∈ ids (fun _ => true) s.actions ∨ (s.actions[a]?).any (supersedes auto a) = false := by
    cases ha : s.actions[a]? with
    | none => exact Or.inr rfl
    | some x => exact Or.inl (mem_ids.mpr ⟨x,ha,rfl⟩)
  have hlist : a ∈ (reconcilePending s auto fresh row).2 ↔
      (pendingActionIds row.activeTaskState).contains a = true ∧
        (s.actions[a]?).any (supersedes auto a) = true := by
    simp only [reconcilePending]
    split
    · next hnone =>
      refine ⟨fun h => absurd h List.not_mem_nil,fun ⟨hpending,hsup⟩ => ?_⟩
      rcases hids with hids | hids
      · have hall := List.filter_eq_nil_iff.mp hnone a (List.mem_filter.mpr ⟨hids,hpending⟩)
        obtain ⟨x,hx,hxs⟩ := Option.any_eq_true _ _ |>.mp hsup
        simp [hx,hxs] at hall
      · rw [hids] at hsup
        cases hsup
    · rw [List.mem_filter,List.mem_filter]
      constructor
      · exact fun h => ⟨h.1.2,h.2⟩
      · rintro ⟨hpending,hsup⟩
        refine ⟨⟨hids.resolve_right ?_,hpending⟩,hsup⟩
        rw [hsup]
        decide
  rw [← hlist]
  simp only [look]
  split
  · next hidle =>
    refine ⟨fun h => absurd h List.not_mem_nil,fun h => ?_⟩
    rcases hidle with hm | hs
    · rw [h.1.1] at hm
      cases hm
    · exact absurd h.1.2 hs
  · next hbusy =>
    rw [not_or,Bool.not_eq_false,not_not] at hbusy
    split
    · simp [hbusy]
    · split
      · simp [hbusy]
      · simp [hbusy]

theorem nodup_superseded {row : TranscriptRow} :
    (look s auto fresh now id row).superseded.Nodup := by
  have hreconciled : (reconcilePending s auto fresh row).2.Nodup := by
    simp only [reconcilePending]
    split
    · exact List.nodup_nil
    · exact ((nodup_ids _ _).filter _).filter _
  simp only [look]
  split
  · exact List.nodup_nil
  · split
    · exact hreconciled
    · split
      · exact hreconciled
      · exact hreconciled

theorem Alike.cancellable (h : Alike auto s s') (hrow : s'.transcripts[id]? = s.transcripts[id]?) :
    Cancellable s' auto fresh now id ↔ Cancellable s auto fresh now id := by
  unfold Cancellable
  rw [hrow]
  refine forall₂_congr fun row _ => ?_
  have hlen : ∀ {a}, about s' a = about s a →
      (s'.openAttention a).length = (s.openAttention a).length := by
    intro a ha
    rw [length_openAttention_about,ha,← length_openAttention_about]
  constructor
  · intro hone a ha
    rcases h.actions a with ⟨hsame,habout⟩ | ⟨_,_,_,_,_,_,hlen'⟩
    · rw [← hlen habout]
      refine hone a ?_
      rw [mem_superseded] at ha ⊢
      rw [hsame]
      exact ha
    · exact hlen'
  · intro hone a ha
    rcases h.actions a with ⟨hsame,habout⟩ | ⟨_,a',_,ha',_,hcancelled,_⟩
    · rw [hlen habout]
      refine hone a ?_
      rw [mem_superseded] at ha ⊢
      rw [← hsame]
      exact ha
    · rw [mem_superseded,ha'] at ha
      simp [supersedes_cancelled hcancelled] at ha

theorem Alike.claimable (h : Alike auto s s') (hrow : s'.transcripts[id]? = s.transcripts[id]?) :
    Claimable s' auto fresh now id ↔ Claimable s auto fresh now id := by
  cases hfound : s.transcripts[id]? with
  | none =>
    have hno : ∀ {u : Ledger}, u.transcripts[id]? = none → ¬Claimable u auto fresh now id := by
      rintro u hu ⟨row,hr,_⟩
      rw [hu] at hr
      cases hr
    exact ⟨fun hc => absurd hc (hno (hrow.trans hfound)),fun hc => absurd hc (hno hfound)⟩
  | some row =>
    rw [← look_intent (hrow.trans hfound),← look_intent hfound,(h.look row).2]

/-- What a claim writes for one task. -/
theorem writeLook_alike {row : TranscriptRow} :
    ((∃ s', writeLook now s (id,look s auto fresh now id row) = .ok s') ↔
        ∀ a ∈ (look s auto fresh now id row).superseded, (s.openAttention a).length ≤ 1) ∧
      ∀ s', writeLook now s (id,look s auto fresh now id row) = .ok s' →
        Alike auto s s' ∧ s'.transcripts.length = s.transcripts.length ∧
          ∀ j, j ≠ id → s'.transcripts[j]? = s.transcripts[j]? := by
  have hsup : ∀ a ∈ (look s auto fresh now id row).superseded,
      ∃ x, s.actions[a]? = some x ∧ supersedes auto a x = true := by
    intro a ha
    rw [mem_superseded,Option.any_eq_true] at ha
    exact ha.2.2
  obtain ⟨hiff,hfold⟩ := supersedes_alike now nodup_superseded hsup
  refine ⟨?_,fun s' h => ?_⟩
  · rw [← hiff]
    constructor
    · rintro ⟨s',h⟩
      obtain ⟨u,hu,_⟩ := accepted h
      exact ⟨u,hu⟩
    · rintro ⟨u,hu⟩
      exact ⟨_,by rw [writeLook,hu]; rfl⟩
  · obtain ⟨u,hu,h⟩ := accepted h
    obtain rfl := Except.ok.inj h
    obtain ⟨halike,htranscripts⟩ := hfold u hu
    refine ⟨⟨halike.inferences,halike.length,halike.actions⟩,?_,fun j hj => ?_⟩
    · rw [List.length_modify,htranscripts]
    · rw [getElem?_modify_ne _ _ (Ne.symm hj),htranscripts]

/-- A claim reaches a task that can be continued, and nothing before it stands in the way. -/
def Reaches (s : Ledger) (auto : ℕ → Bool) (fresh : String) (now : Instant) : List ℕ → Prop
  | [] => False
  | id :: todo => Cancellable s auto fresh now id ∧
      (Claimable s auto fresh now id ∨ Reaches s auto fresh now todo)

theorem reaches_iff {l : List ℕ} : Reaches s auto fresh now l ↔
    ∃ before id after, l = before ++ id :: after ∧ Claimable s auto fresh now id ∧
      ∀ i ∈ before ++ [id], Cancellable s auto fresh now i := by
  induction l with
  | nil =>
    refine ⟨False.elim,fun ⟨before,id,after,h,_⟩ => ?_⟩
    exact absurd h.symm (List.append_ne_nil_of_right_ne_nil _ (List.cons_ne_nil _ _))
  | cons x l ih =>
    rw [Reaches,ih]
    constructor
    · rintro ⟨hx,hclaim | ⟨before,id,after,rfl,hclaim,hall⟩⟩
      · exact ⟨[],x,l,rfl,hclaim,by simpa using hx⟩
      · refine ⟨x :: before,id,after,rfl,hclaim,fun i hi => ?_⟩
        rcases List.mem_cons.mp hi with rfl | hi
        · exact hx
        · exact hall i hi
    · rintro ⟨before,id,after,h,hclaim,hall⟩
      cases before with
      | nil =>
        cases h
        exact ⟨hall x (by simp),Or.inl hclaim⟩
      | cons y before =>
        cases h
        refine ⟨hall x (by simp),Or.inr ⟨before,id,after,rfl,hclaim,fun i hi => ?_⟩⟩
        exact hall i (List.mem_cons_of_mem _ hi)

/-- The loop finds a task exactly if it reaches one. -/
theorem claimFrom_reaches {s₀ : Ledger} {l : List ℕ} (hl : l.Nodup) (h : Alike auto s₀ s)
    (hrows : ∀ id ∈ l, s.transcripts[id]? = s₀.transcripts[id]?)
    (hlength : s.transcripts.length = s₀.transcripts.length) :
    ((∃ r, claimFrom auto fresh now l s = .ok (some r)) ↔ Reaches s₀ auto fresh now l) ∧
      ∀ s' id intent, claimFrom auto fresh now l s = .ok (some (s',id,intent)) →
        Claimable s₀ auto fresh now id ∧ s'.inferences = s₀.inferences ∧
          s'.transcripts.length = s₀.transcripts.length := by
  induction l generalizing s with
  | nil =>
    refine ⟨⟨fun ⟨r,hr⟩ => (by cases hr),False.elim⟩,fun s' id intent hr => ?_⟩
    cases hr
  | cons x l ih =>
    rw [List.nodup_cons] at hl
    have hx := hrows x List.mem_cons_self
    have htail : ∀ id ∈ l, s.transcripts[id]? = s₀.transcripts[id]? :=
      fun id hid => hrows id (List.mem_cons_of_mem _ hid)
    rw [Reaches]
    cases hrow : s.transcripts[x]? with
    | none =>
      have hno : ¬Claimable s₀ auto fresh now x := by
        rintro ⟨row,hr,_⟩
        rw [← hx,hrow] at hr
        cases hr
      have hfree : Cancellable s₀ auto fresh now x := by
        intro row hr
        rw [← hx,hrow] at hr
        cases hr
      rw [claimFrom,hrow]
      simpa [hno,hfree] using ih hl.2 h htail hlength
    | some row =>
      obtain ⟨hiff,hwrite⟩ := @writeLook_alike s auto now x _ fresh row
      have hcancel : (∀ a ∈ (look s auto fresh now x row).superseded,
          (s.openAttention a).length ≤ 1) ↔ Cancellable s₀ auto fresh now x := by
        rw [← h.cancellable hx]
        unfold Cancellable
        rw [hrow]
        simp
      have hclaim : (look s auto fresh now x row).intent.isSome ↔ Claimable s₀ auto fresh now x := by
        rw [look_intent hrow,h.claimable hx]
      rw [claimFrom,hrow]
      dsimp only
      cases hw : writeLook now s (x,look s auto fresh now x row) with
      | error e =>
        have hno : ¬Cancellable s₀ auto fresh now x := by
          rw [← hcancel,← hiff,hw]
          rintro ⟨u,hu⟩
          cases hu
        refine ⟨⟨fun ⟨r,hr⟩ => (by cases hr),fun hr => absurd hr.1 hno⟩,fun s' id intent hr => ?_⟩
        cases hr
      | ok u =>
        have hyes : Cancellable s₀ auto fresh now x := hcancel.mp (hiff.mp ⟨u,hw⟩)
        obtain ⟨halike,hlen,hothers⟩ := hwrite u hw
        cases hi : (look s auto fresh now x row).intent with
        | some intent =>
          have hthis : Claimable s₀ auto fresh now x := hclaim.mp (by rw [hi]; rfl)
          refine ⟨⟨fun _ => ⟨hyes,Or.inl hthis⟩,fun _ => ⟨_,rfl⟩⟩,fun s' id intent' hr => ?_⟩
          obtain ⟨rfl,rfl,rfl⟩ : u = s' ∧ x = id ∧ intent = intent' := by
            simpa using Except.ok.inj hr
          exact ⟨hthis,halike.inferences.trans h.inferences,hlen.trans hlength⟩
        | none =>
          have hno : ¬Claimable s₀ auto fresh now x := by
            rw [← hclaim,hi]
            simp
          have hrest := ih hl.2 (h.trans halike) (fun id hid => ?_) (hlen.trans hlength)
          · simp only [hno,hyes,true_and,false_or]
            exact hrest
          · rw [hothers id fun he => hl.1 (he ▸ hid)]
            exact htail id hid

/-- The claim's own transaction on a conversation that exists goes through. -/
theorem commitClaim_commits {intent : String} (h : id < s.transcripts.length) :
    ∃ s', commitClaim s [] id intent fresh now = .ok s' := by
  have hmade : s.createRun (some id) intent .background now =
      .ok (s.addRun (createdRun (some id) intent .background now),s.runs.length) := by
    simp [Ledger.createRun,Ledger.foregroundFree,Ledger.transcriptExists,require,h,bind,Except.bind,
      pure,Except.pure]
  exact ⟨_,by rw [commitClaim,List.foldlM_nil,pure_bind,hmade]; rfl⟩

omit [ActionRuntime] in
theorem nodup_selectable (s : Ledger) (locked : ℕ → Bool) : (selectable s locked).Nodup := by
  refine List.Nodup.sublist (List.take_sublist _ _) ?_
  rw [(List.perm_insertionSort _ _).nodup_iff]
  exact (nodup_ids _ _).filter _

theorem claimsOne_iff {locked : ℕ → Bool} : ClaimsOne s locked auto fresh now ↔
    Reaches s auto fresh now (selectable s locked) := by
  obtain ⟨hiff,hfound⟩ := claimFrom_reaches (nodup_selectable s locked)
    (Alike.refl auto s) (fun _ _ => rfl) rfl
  rw [← hiff]
  constructor
  · rintro ⟨s',id,h,_,_⟩
    obtain ⟨r,hr,h⟩ := accepted h
    cases r with
    | none => cases h
    | some r => exact ⟨r,hr⟩
  · rintro ⟨⟨u,id,intent⟩,hr⟩
    obtain ⟨hclaim,hinferences,hlength⟩ := hfound u id intent hr
    have hid : id < u.transcripts.length := by
      obtain ⟨row,hrow,_⟩ := hclaim
      rw [hlength]
      exact (List.getElem?_eq_some_iff.mp hrow).1
    obtain ⟨s',hs'⟩ := @commitClaim_commits u now id _ fresh intent hid
    refine ⟨s',id,?_,hclaim,?_⟩
    · rw [claimOne,hr]
      simp only [bind,Except.bind,hs',pure,Except.pure]
    · rw [commitClaim_ok hs',hinferences]

/-- Where a managed task that no other transaction holds can be continued, a claim makes a run for
such a task if and only if one is among the twenty managed tasks that were updated first, of those
that no other transaction holds, and up to it every proposal that the claim supersedes has one open
question to the owner at most. -/
theorem claim_progress (s : Ledger) (locked auto : ℕ → Bool) (fresh : String) (now : Instant) :
    ((∃ id row, s.transcripts[id]? = some row ∧ row.kind = taskKind ∧ locked id = false ∧
        Claimable s auto fresh now id) → ClaimsOne s locked auto fresh now) ↔
      ((∃ id row, s.transcripts[id]? = some row ∧ row.kind = taskKind ∧ locked id = false ∧
          Claimable s auto fresh now id) →
        ∃ before id after, selectable s locked = before ++ id :: after ∧
          Claimable s auto fresh now id ∧
          ∀ i ∈ before ++ [id], Cancellable s auto fresh now i) := by
  rw [claimsOne_iff,reaches_iff]

end

/-- The document of a task that the owner has agreed to. -/
def mailTask : Dict :=
  ((newManagedTaskState "0" "1" {
    title := "Move the mail"
    objective := "Move the mail to the new host."
    scope := ["The mail host"]
    acceptanceCriteria := ["The mail arrives."]}).toOption).getD []

/-- Twenty tasks that were cancelled long ago, and one to be continued. -/
def crowdedTasks : Ledger where
  transcripts := List.replicate 20 {
      kind := taskKind
      activeTaskState := cancelledState mailTask "1" "No longer needed"} ++
    [{kind := taskKind, createdAt := 2, updatedAt := 2, activeTaskState := mailTask}]

/-- The tasks that are over fill the selection for good. -/
theorem claim_starved : letI := plainActions
    Claimable crowdedTasks (fun _ => false) "0" 3 20 ∧
      ¬ClaimsOne crowdedTasks (fun _ => false) (fun _ => false) "0" 3 := by
  let := plainActions
  have hnone : (claimOne crowdedTasks (fun _ => false) (fun _ => false) "0" 3).toOption.all
      Option.isNone = true := by
    decide +kernel
  refine ⟨(look_intent (by rfl)).mp (by decide +kernel),?_⟩
  rintro ⟨s',id,h,_⟩
  rw [h] at hnone
  cases hnone

end Runtime
end Atlas
