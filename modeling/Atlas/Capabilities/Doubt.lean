import Atlas.Capabilities.Dispatched

/-! The doubt that an execution leaves when it fails without a word: whoever acts on the store
meanwhile, the action is never taken for done nor for failed. -/
namespace Atlas

namespace Actions
namespace Ledger

open RowTable

/-- The action was begun and its outcome is not known. -/
def Unsettled (s : Ledger) (id : ℕ) : Prop :=
  ∃ a, s.actions[id]? = some a ∧ (a.status = .executing ∨ a.status = .uncertain)

variable [ActionRuntime] {s s' : Ledger} {id : ℕ} {now : Instant}

/-- Nothing but a report settles a doubt. -/
theorem Unsettled.step (h : s.Unsettled id) {op : Op} (hop : op.closes = false) (now : Instant) :
    (s.step (op,now)).Unsettled id := by
  obtain ⟨a,hrow,hstatus⟩ := h
  obtain ⟨b,hrow',hkept⟩ := s.step_keeps (op,now) id a hrow
  have hmove : ActionStatus.Move false a.status b.status := by
    rw [← hop]
    exact hkept.status
  refine ⟨b,hrow',?_⟩
  rcases hstatus with he | hu
  · rw [he] at hmove
    exact hmove.of_executing
  · rw [hmove.of_ended (by rw [hu]; rfl)]
    exact Or.inr hu

omit [ActionRuntime] in
theorem Unsettled.modified {i : ℕ} {f : ActionRow → ActionRow} (h : s.Unsettled id)
    (hs : s'.actions = s.actions.modify i f)
    (hf : ∀ a : ActionRow, i = id → (f a).status = a.status ∨ (f a).status = .uncertain) :
    s'.Unsettled id := by
  obtain ⟨a,hrow,hstatus⟩ := h
  by_cases hi : i = id
  · subst hi
    refine ⟨f a,by simp [hs,hrow],?_⟩
    rcases hf a rfl with he | he
    · rw [he]
      exact hstatus
    · exact Or.inr he
  · exact ⟨a,by rw [hs,getElem?_modify_ne _ f hi,hrow],hstatus⟩

omit [ActionRuntime] in
/-- A report of another action, or one that leaves the outcome open, leaves it in doubt. -/
theorem Unsettled.complete {i : ℕ} {status : ActionStatus} {result : Dict}
    {externalId : Option String} (h : s.Unsettled id)
    (hc : s.complete i status result externalId now = .ok s')
    (hi : i = id → status = .uncertain) : s'.Unsettled id := by
  obtain ⟨a,hrow,hstatus,⟨_,hmarked⟩ | ⟨_,hclosed⟩⟩ := complete_ok hc
  · exact h.modified hmarked.actions fun a he => Or.inr (hi he)
  · exact h.modified hclosed.actions fun a he => Or.inr (hi he)

theorem Unsettled.finishAction {i runId : ℕ} {result : CapabilityCallResult} {evidenceId : String}
    (h : s.Unsettled id) (hc : s.finishAction runId i result evidenceId now = .ok s')
    (hi : i = id → actionStatusForResult result = .uncertain) : s'.Unsettled id := by
  rcases finishAction_ok hc with ⟨a,hrow,hstatus,rfl⟩ | ⟨t,hcomplete,rfl⟩
  · exact h.modified rfl fun a _ => Or.inl rfl
  · obtain ⟨a,hrow,hstatus⟩ := h.complete hcomplete hi
    rcases noteStagedChange_eq t runId result with he | ⟨row,_,he⟩
    · exact ⟨a,by rw [he,hrow],hstatus⟩
    · exact ⟨a,by rw [he]; exact hrow,hstatus⟩

end Ledger
end Actions

namespace Capabilities

open Actions Dialogue
open Ledger (Unsettled)

variable [ActionRuntime] {rt : CapabilityRuntime} {m : Service} {h h' : Host} {id : ℕ}

/-- Whether a request reports the outcome of an action. -/
def Reports (q : Request) (id : ℕ) (result : CapabilityCallResult) : Prop :=
  (∃ runId, q = .finishAction runId id result) ∨ q = .complete id result

/-- What a request reports of an action, if anything, leaves it in doubt. -/
def Evasive (id : ℕ) (q : Request) : Prop :=
  ∀ result, Reports q id result → actionStatusForResult result = .uncertain

theorem Host.Advances.unsettled (ha : h.Advances false h'.ledger) (hd : h.ledger.Unsettled id) :
    h'.ledger.Unsettled id := by
  rcases ha with he | ⟨op,he,hop⟩
  · rw [he]
    exact hd
  · rw [he]
    exact hd.step (hop rfl) _

theorem Host.answer_unsettled {q : Request} (hq : Evasive id q) (hd : h.ledger.Unsettled id) :
    (h.answer q).2.ledger.Unsettled id := by
  have hreport : ∀ {α : Type} {x : Except Refusal (Ledger × α)},
      (∀ ledger a, x = .ok (ledger,a) → ledger.Unsettled id) →
      (h.commit x).2.ledger.Unsettled id := by
    intro α x hx
    rcases h.commit_cases x with ⟨e,he⟩ | ⟨ledger,a,hxa,he⟩
    · rw [he]
      exact hd
    · rw [he]
      exact hx ledger a hxa
  cases q with
  | finishAction runId i result =>
    apply hreport
    intro ledger a hx
    obtain ⟨s,hs,ha⟩ := map_accepted hx
    rw [← (Prod.mk.inj ha).1]
    apply hd.finishAction hs
    rintro rfl
    exact hq result (Or.inl ⟨runId,rfl⟩)
  | complete i result =>
    apply hreport
    intro ledger a hx
    obtain ⟨s,hs,ha⟩ := map_accepted hx
    rw [← (Prod.mk.inj ha).1]
    apply hd.complete hs
    rintro rfl
    exact hq result (Or.inr rfl)
  | _ => exact Advances.unsettled (h.answer_advances _) hd

/-- A job reports what it has begun, once, and in doubt where an executor raised. -/
theorem JobOrder.reports {job : Job} {said : Said} {q : Request} {result : CapabilityCallResult}
    (ho : JobOrder rt job said q) (hr : Reports q id result) : Begun said id ∧ ¬Reported said ∧
      (Ambiguous said → actionStatusForResult result = .uncertain) := by
  cases job with
  | tool runId transcriptId tool =>
    rcases hr with ⟨run,rfl⟩ | rfl
    · exact ho
    · exact ho.elim
  | decide actionId approve reviewed =>
    rcases hr with ⟨run,rfl⟩ | rfl
    · exact ho
    · exact ho

theorem begins_unsettled {e : Entry Host Request Request.Reply} (hg : Genuine e)
    (hb : Begins e.said id) : (e.after Host.world).ledger.Unsettled id := by
  rcases hb with ⟨r,o,a,s,c,he⟩ | ⟨r,p,he⟩
  · obtain ⟨_,now,hrow⟩ := after_automatic hg he
    exact ⟨_,hrow,Or.inl rfl⟩
  · obtain ⟨_,_,_,b,hrow,hstatus⟩ := after_approved hg he
    exact ⟨b,hrow,Or.inl hstatus⟩

omit [ActionRuntime] in
theorem begun_append {said : Said} {x : Exchange Request Request.Reply} :
    Begun (said ++ [x]) id ↔ Begun said id ∨ Begins x id := by
  simp only [begun_iff,List.mem_append,List.mem_singleton]
  constructor
  · rintro ⟨y,hy | rfl,hb⟩
    · exact Or.inl ⟨y,hy,hb⟩
    · exact Or.inr hb
  · rintro (⟨y,hy,hb⟩ | hb)
    · exact ⟨y,Or.inl hy,hb⟩
    · exact ⟨x,Or.inr rfl,hb⟩

/-- An action that a job has begun and not reported since, or for which its executor raised. -/
def LeftOpen (said : Said) (id : ℕ) : Prop :=
  Begun said id ∧ (Reported said → Ambiguous said)

/-- What a turn of a job that leaves an action open asks of the action, and that it was open before
or has just begun. -/
theorem LeftOpen.append {job : Job} {said : Said} {x : Exchange Request Request.Reply}
    (ho : JobOrder rt job said x.1) (hl : LeftOpen (said ++ [x]) id) :
    Begins x id ∨ LeftOpen said id ∧ Evasive id x.1 := by
  obtain ⟨hbegun,hopen⟩ := hl
  have hreported : Reported said → Reported (said ++ [x]) := fun ⟨y,hy,hq⟩ =>
    ⟨y,List.mem_append_left _ hy,hq⟩
  rcases begun_append.mp hbegun with hb | hb
  · right
    -- An executor is invoked before any report only, so what raised had raised before.
    have hold : ∀ hr : Reported (said ++ [x]), Ambiguous said ∨ Idle said := by
      intro hr
      obtain ⟨o,a,e,hx⟩ := hopen hr
      rcases List.mem_append.mp hx with hx | hx
      · exact Or.inl ⟨o,a,e,hx⟩
      · obtain rfl := List.mem_singleton.mp hx
        exact Or.inr ho.idle
    refine ⟨⟨hb,fun hr => ?_⟩,fun result hq => ?_⟩
    · exact (hold (hreported hr)).resolve_right fun hi => hi.2 hr
    · obtain ⟨_,_,hdoubt⟩ := ho.reports hq
      have hr : Reported (said ++ [x]) := by
        refine ⟨x,by simp,?_⟩
        rcases hq with ⟨run,hq⟩ | hq
        · exact Or.inl ⟨run,id,result,hq⟩
        · exact Or.inr ⟨id,result,hq⟩
      obtain ⟨o,a,e,hx⟩ := hopen hr
      apply hdoubt
      rcases List.mem_append.mp hx with hx | hx
      · exact ⟨o,a,e,hx⟩
      · obtain rfl := List.mem_singleton.mp hx
        rcases hq with ⟨run,hq⟩ | hq <;> cases hq
  · exact Or.inl hb

theorem unsettled_of_leftOpen (hm : m.Reachable rt) :
    ∀ i, LeftOpen (talk i m.journal) id → m.host.ledger.Unsettled id := by
  induction hm with
  | start hs =>
    obtain ⟨s,_,rfl⟩ := hs
    rintro i ⟨hb,_⟩
    obtain ⟨x,hx,_⟩ := begun_iff.mp hb
    cases hx
  | @next m a hm _ ih =>
    have hsound := Service.Reachable.sound hm
    have hrecorded := Service.Reachable.recorded hm
    intro i hl
    cases a with
    | stir c => exact Host.Advances.unsettled (m.host.stir_advances c) (ih i hl)
    | begin job => exact ih i hl
    | quit j =>
      simp only [Forum.step] at hl ⊢
      split at hl
      · exact ih i hl
      · exact ih i hl
    | proceed j =>
      simp only [Forum.step] at hl ⊢
      split at hl
      · next job q k hj =>
        have ho := (hsound.threads j job _ hj).1
        by_cases hij : j = i
        · subst hij
          rw [talk_append_self] at hl
          rcases hl.append ho with hb | ⟨hold,hq⟩
          · exact begins_unsettled (e := ⟨j,m.host,⟨q,(m.host.answer q).1⟩⟩) rfl hb
          · exact Host.answer_unsettled hq (ih j hold)
        · rw [talk_append_ne _ hij] at hl
          refine Host.answer_unsettled (fun result hq => ?_) (ih i hl)
          exact absurd (begun_thread hrecorded (ho.reports hq).1 hl.1) hij
      · exact ih i hl

/-- In every interleaving, an action that was begun by a job whose executor raised is still
executing, or its outcome is uncertain: no report, recovery, restart or other job makes it succeed,
fail or be proposed again. -/
theorem ambiguous_never_settled (hm : m.Reachable rt) {i : ℕ} (hb : Begun (talk i m.journal) id)
    (ha : Ambiguous (talk i m.journal)) : ∃ a, m.host.ledger.actions[id]? = some a ∧
      (a.status = .executing ∨ a.status = .uncertain) :=
  unsettled_of_leftOpen hm i ⟨hb,fun _ => ha⟩

omit [ActionRuntime] in
theorem ambiguous_never_settled_mail : letI := plainActions
    Begun (talk 0 mailService.journal) 0 ∧ Ambiguous (talk 0 mailService.journal) ∧
      ∃ a, mailService.host.ledger.actions[0]? = some a ∧
        (a.status = .executing ∨ a.status = .uncertain) := by
  let _ := plainActions
  have hbegun : Begun (talk 0 mailService.journal) 0 := by
    refine Or.inl ⟨0,"mail.send",[],"Send a message","mail",?_⟩
    exact List.mem_of_getElem? (i := 3) rfl
  have hambiguous : Ambiguous (talk 0 mailService.journal) := by
    refine ⟨"mail.send",[],⟨.valueError,"connection lost"⟩,?_⟩
    exact List.mem_of_getElem? (i := 5) rfl
  exact ⟨hbegun,hambiguous,ambiguous_never_settled mailService_reachable hbegun hambiguous⟩

end Capabilities
end Atlas
