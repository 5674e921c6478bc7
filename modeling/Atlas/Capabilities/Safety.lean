import Atlas.Capabilities.Handlers

/-! What holds of the executions of the service in every interleaving: which row of the store stands
behind each, and what becomes of the ones that fail without a word. -/
namespace Atlas
namespace Capabilities

open Actions Dialogue
open Ledger (executing progress Later)

variable [ActionRuntime]

/-- The store has gone on by transactions. -/
def Onward (h h' : Host) : Prop :=
  ∃ es : List (Op × Instant), h'.ledger = es.foldl Ledger.step h.ledger

theorem Onward.refl (h : Host) : Onward h h := ⟨[],rfl⟩

theorem Onward.trans {h h' h'' : Host} (a : Onward h h') (b : Onward h' h'') : Onward h h'' := by
  obtain ⟨es,hes⟩ := a
  obtain ⟨fs,hfs⟩ := b
  exact ⟨es ++ fs,by rw [hfs,hes,List.foldl_append]⟩

theorem Onward.progress_le {h h' : Host} (a : Onward h h') (id : ℕ) :
    progress id h.ledger ≤ progress id h'.ledger := by
  obtain ⟨es,hes⟩ := a
  rw [hes]
  exact Ledger.progress_steps _ _

theorem Onward.later {h h' : Host} (a : Onward h h') {id : ℕ} {row : ActionRow}
    (hrow : h.ledger.actions[id]? = some row) :
    ∃ row', h'.ledger.actions[id]? = some row' ∧ Later row row' := by
  obtain ⟨es,hes⟩ := a
  rw [hes]
  exact Ledger.steps_later es hrow

namespace Host

omit [ActionRuntime] in
/-- A transaction of a program either changes nothing or commits. -/
theorem commit_cases {α : Type} (h : Host) (x : Except Refusal (Ledger × α)) :
    (∃ e, h.commit x = (.error e,h)) ∨
      ∃ ledger a, x = .ok (ledger,a) ∧ h.commit x = (.ok a,{h with ledger := ledger}) := by
  simp only [commit]
  split
  · exact Or.inl ⟨_,rfl⟩
  · split
    · exact Or.inl ⟨_,rfl⟩
    · exact Or.inr ⟨_,_,rfl,rfl⟩

omit [ActionRuntime] in
theorem commit_ok {α : Type} {h h' : Host} {x : Except Refusal (Ledger × α)} {a : α}
    (hc : h.commit x = (.ok a,h')) : ∃ ledger, x = .ok (ledger,a) ∧
      h' = {h with ledger := ledger} := by
  rcases h.commit_cases x with ⟨e,he⟩ | ⟨ledger,b,rfl,he⟩
  · rw [he] at hc
    cases hc
  · rw [he] at hc
    obtain ⟨hb,rfl⟩ := Prod.mk.inj hc
    exact ⟨ledger,by rw [Except.ok.inj hb],rfl⟩

/-- The store after a request is the one before, or the next by one transaction. -/
def Advances (h : Host) (dispatching : Bool) (ledger : Ledger) : Prop :=
  ledger = h.ledger ∨ ∃ op, ledger = h.ledger.step (op,h.clock) ∧
    (dispatching = false → op.closes = false)

theorem commit_advances {α : Type} {h : Host} {x : Except Refusal (Ledger × α)}
    {dispatching : Bool} (op : Op) (hop : dispatching = false → op.closes = false)
    (hx : ∀ ledger a, x = .ok (ledger,a) → ledger = h.ledger ∨
      h.ledger.apply op h.clock = .ok ledger) : h.Advances dispatching (h.commit x).2.ledger := by
  rcases h.commit_cases x with ⟨e,he⟩ | ⟨ledger,a,hxa,he⟩
  · rw [he]
    exact Or.inl rfl
  · rw [he]
    rcases hx ledger a hxa with rfl | happly
    · exact Or.inl rfl
    · refine Or.inr ⟨op,?_,hop⟩
      simp [Ledger.step,happly]

theorem advances_read {α : Type} {h : Host} {dispatching : Bool}
    (x : Except Refusal α) :
    h.Advances dispatching (h.commit (x.map fun a => (h.ledger,a))).2.ledger := by
  apply commit_advances .dismissInformationalNotices (fun _ => rfl)
  intro ledger a hx
  obtain ⟨b,_,hb⟩ := map_accepted hx
  exact Or.inl (Prod.mk.inj hb).1.symm

/-- Whether a request may report the outcome of an action. -/
def reports : Request → Bool
  | .finishAction .. | .complete .. => true
  | _ => false

theorem answer_advances (h : Host) (q : Request) : h.Advances (reports q) (h.answer q).2.ledger := by
  cases q with
  | requireLiveRun runId =>
    apply commit_advances .dismissInformationalNotices (fun _ => rfl)
    intro ledger a hx
    obtain ⟨b,_,hb⟩ := map_accepted hx
    exact Or.inl (Prod.mk.inj hb).1.symm
  | enabledCapabilities => exact Or.inl rfl
  | operationAuthorities => exact Or.inl rfl
  | resolver operationId arguments => exact Or.inl rfl
  | taskState transcriptId => exact advances_read (.ok _)
  | newSessionId => exact Or.inl rfl
  | prepareProposal runId operation arguments title capabilityId =>
    apply commit_advances (.prepareProposal runId operation arguments title capabilityId)
      (fun _ => rfl)
    intro ledger a hx
    obtain ⟨_,_,hx⟩ := accepted hx
    exact Or.inr (by simp [Ledger.apply,hx,Except.map])
  | beginAutomaticExecution runId operation arguments summary capabilityId =>
    apply commit_advances
      (.beginAutomaticExecution runId operation arguments summary capabilityId) (fun _ => rfl)
    intro ledger a hx
    obtain ⟨_,_,hx⟩ := accepted hx
    exact Or.inr (by simp [Ledger.apply,hx,Except.map])
  | recordExecution runId operation arguments status summary =>
    apply commit_advances (.recordExecution runId operation arguments status summary .null)
      (fun _ => rfl)
    intro ledger a hx
    exact Or.inr (by simp [Ledger.apply,hx,Except.map])
  | finishAction runId actionId result =>
    apply commit_advances (.finishAction runId actionId result h.uuid) (fun hr => by cases hr)
    intro ledger a hx
    obtain ⟨s,hs,ha⟩ := map_accepted hx
    exact Or.inr (by rw [← (Prod.mk.inj ha).1]; exact hs)
  | executor operationId arguments => exact Or.inl rfl
  | action actionId => exact advances_read (.ok _)
  | run runId => exact advances_read (.ok _)
  | now => exact Or.inl rfl
  | cancel actionId =>
    apply commit_advances (.cancel actionId) (fun _ => rfl)
    intro ledger a hx
    obtain ⟨s,hs,ha⟩ := map_accepted hx
    exact Or.inr (by rw [← (Prod.mk.inj ha).1]; exact hs)
  | beginExecution actionId reviewed =>
    apply commit_advances (.beginExecution actionId reviewed) (fun _ => rfl)
    intro ledger a hx
    exact Or.inr (by simp [Ledger.apply,hx,Except.map])
  | complete actionId result =>
    apply commit_advances (.complete actionId (actionStatusForResult result)
      [("status",.str result.status)] none) (fun hr => by cases hr)
    intro ledger a hx
    obtain ⟨s,hs,ha⟩ := map_accepted hx
    exact Or.inr (by rw [← (Prod.mk.inj ha).1]; exact hs)

theorem Advances.onward {h h' : Host} {dispatching : Bool}
    (ha : h.Advances dispatching h'.ledger) : Onward h h' := by
  rcases ha with he | ⟨op,he,_⟩
  · exact ⟨[],by rw [he]; rfl⟩
  · exact ⟨[(op,h.clock)],by rw [he]; rfl⟩

theorem stir_advances (h : Host) (c : Change) : h.Advances false (h.stir c).ledger := by
  cases c with
  | transaction op =>
    simp only [stir]
    split
    · exact Or.inl rfl
    · next hop => exact Or.inr ⟨op,rfl,fun _ => Op.closes_of_dispatching (by simpa using hop)⟩
  | _ => exact Or.inl rfl

end Host

/-- The store is one that the service reaches. -/
def Kept (h : Host) : Prop := ∃ es, h.ledger = Ledger.ran es

theorem Kept.onward {h h' : Host} (hk : Kept h) (ho : Onward h h') : Kept h' := by
  obtain ⟨es,hes⟩ := hk
  obtain ⟨fs,hfs⟩ := ho
  exact ⟨es ++ fs,by rw [hfs,hes,Ledger.ran_append]⟩

variable {rt : CapabilityRuntime} {m : Service}

theorem Service.Reachable.recorded (h : m.Reachable rt) : m.Recorded Host.world Kept Onward := by
  apply Forum.reach_recorded (fun s hs => ⟨[],hs⟩) Onward.refl Onward.trans _ _ h
  · intro s e hs
    have ho := (s.stir_advances e).onward
    exact ⟨hs.onward ho,ho⟩
  · intro s q hs
    have ho := (s.answer_advances q).onward
    exact ⟨hs.onward ho,ho⟩

theorem Service.Reachable.sound (h : m.Reachable rt) :
    m.Sound (JobOrder rt) (fun _ _ _ => True) :=
  Forum.reach_sound (program_minds rt) h

/-! The begin of an execution. -/

/-- The exchanges that begin the execution of an action. -/
def Begins (x : Exchange Request Request.Reply) (id : ℕ) : Prop :=
  (∃ runId operation arguments summary capabilityId,
    x = ⟨.beginAutomaticExecution runId operation arguments summary capabilityId,.ok id⟩) ∨
  ∃ reviewed proposal, x = ⟨.beginExecution id reviewed,.ok proposal⟩

omit [ActionRuntime] in
theorem begun_iff {said : Said} {id : ℕ} : Begun said id ↔ ∃ x ∈ said, Begins x id := by
  constructor
  · rintro (⟨r,o,a,s,c,hx⟩ | ⟨r,p,hx⟩)
    · exact ⟨_,hx,Or.inl ⟨r,o,a,s,c,rfl⟩⟩
    · exact ⟨_,hx,Or.inr ⟨r,p,rfl⟩⟩
  · rintro ⟨x,hx,⟨r,o,a,s,c,rfl⟩ | ⟨r,p,rfl⟩⟩
    · exact Or.inl ⟨r,o,a,s,c,hx⟩
    · exact Or.inr ⟨r,p,hx⟩

/-- A turn of the record whose answer was the host's own. -/
def Genuine (e : Entry Host Request Request.Reply) : Prop :=
  e.said.2 = (Host.answer e.before e.said.1).1

theorem after_automatic {e : Entry Host Request Request.Reply} (hg : Genuine e) {runId id : ℕ}
    {operation summary capabilityId : String} {arguments : Dict}
    (he : e.said = ⟨.beginAutomaticExecution runId operation arguments summary capabilityId,.ok id⟩) :
    e.before.ledger.actions[id]? = none ∧ ∃ now, (e.after Host.world).ledger.actions[id]? =
      some (automaticAction id runId operation arguments summary capabilityId now) := by
  obtain ⟨i,h,said⟩ := e
  cases he
  have hcommit : h.commit (Host.intended h.ledger runId operation arguments summary capabilityId
      h.clock) = (.ok id,(Host.answer h (.beginAutomaticExecution runId operation arguments summary
        capabilityId)).2) := Prod.ext hg.symm rfl
  obtain ⟨ledger,hx,hafter⟩ := Host.commit_ok hcommit
  obtain ⟨_,_,hx⟩ := accepted hx
  obtain ⟨_,_,hid,rfl⟩ := Ledger.beginAutomaticExecution_ok hx
  refine ⟨List.getElem?_eq_none hid.ge,h.clock,?_⟩
  show ((Host.answer h (.beginAutomaticExecution runId operation arguments summary
    capabilityId)).2).ledger.actions[id]? = _
  rw [hafter,hid]
  simp [Ledger.addAction]

theorem after_approved {e : Entry Host Request Request.Reply} (hg : Genuine e) {id : ℕ}
    {reviewed : Option String} {proposal : Dict}
    (he : e.said = ⟨.beginExecution id reviewed,.ok proposal⟩) :
    ∃ a, e.before.ledger.actions[id]? = some a ∧ a.status = .prepared ∧
      ∃ b, (e.after Host.world).ledger.actions[id]? = some b ∧ b.status = .executing := by
  obtain ⟨i,h,said⟩ := e
  cases he
  have hcommit : h.commit (h.ledger.beginExecution id reviewed h.clock) =
      (.ok proposal,(Host.answer h (.beginExecution id reviewed)).2) := Prod.ext hg.symm rfl
  obtain ⟨ledger,hx,hafter⟩ := Host.commit_ok hcommit
  obtain ⟨a,hrow,hstatus,_,_,rfl⟩ := Ledger.beginExecution_ok hx
  refine ⟨a,hrow,hstatus,a.begin h.clock,?_,rfl⟩
  show ((Host.answer h (.beginExecution id reviewed)).2).ledger.actions[id]? = _
  rw [hafter]
  simp [Ledger.setAction,hrow]

/-- A begin takes its action from what it was into execution. -/
theorem progress_begins {e : Entry Host Request Request.Reply} (hg : Genuine e) {id : ℕ}
    (hb : Begins e.said id) : progress id e.before.ledger = 0 ∧
      progress id (e.after Host.world).ledger = 1 := by
  rcases hb with ⟨r,o,a,s,c,he⟩ | ⟨r,p,he⟩
  · obtain ⟨hnone,now,hrow⟩ := after_automatic hg he
    simp [progress,hnone,hrow,automaticAction,ActionStatus.rank]
  · obtain ⟨x,hrow,hx,y,hrow',hy⟩ := after_approved hg he
    simp [progress,hrow,hrow',hx,hy,ActionStatus.rank]

/-- No two turns of the record begin the same action. -/
theorem begins_unique (hr : m.Recorded Host.world Kept Onward) {id : ℕ} {i j : ℕ}
    {e e' : Entry Host Request Request.Reply} (hi : m.journal[i]? = some e)
    (hj : m.journal[j]? = some e') (he : Begins e.said id) (he' : Begins e'.said id) : i = j := by
  have horder : ∀ {i j : ℕ} {e e' : Entry Host Request Request.Reply}, m.journal[i]? = some e →
      m.journal[j]? = some e' → Begins e.said id → Begins e'.said id → ¬i < j := by
    intro i j e e' hi hj he he' hlt
    obtain ⟨hli,rfl⟩ := List.getElem?_eq_some_iff.mp hi
    obtain ⟨hlj,rfl⟩ := List.getElem?_eq_some_iff.mp hj
    have hbetween := (List.pairwise_iff_getElem.mp hr.order i j hli hlj hlt).progress_le id
    have h₁ := (progress_begins (hr.answered _ (List.getElem_mem hli)) he).2
    have h₂ := (progress_begins (hr.answered _ (List.getElem_mem hlj)) he').1
    omega
  have h₁ := horder hi hj he he'
  have h₂ := horder hj hi he' he
  omega

/-- An action is begun by one job only. -/
theorem begun_thread (hr : m.Recorded Host.world Kept Onward) {id i j : ℕ}
    (hi : Begun (talk i m.journal) id) (hj : Begun (talk j m.journal) id) : i = j := by
  obtain ⟨x,hx,hbx⟩ := begun_iff.mp hi
  obtain ⟨y,hy,hby⟩ := begun_iff.mp hj
  obtain ⟨e,he,rfl,rfl⟩ := mem_talk.mp hx
  obtain ⟨e',he',rfl,rfl⟩ := mem_talk.mp hy
  obtain ⟨n,hn⟩ := List.mem_iff_getElem?.mp he
  obtain ⟨k,hk⟩ := List.mem_iff_getElem?.mp he'
  obtain rfl := begins_unique hr hn hk hbx hby
  rw [Option.some.inj (hn.symm.trans hk)]

end Capabilities
end Atlas
