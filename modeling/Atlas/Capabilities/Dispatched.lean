import Atlas.Capabilities.Discovery
import Atlas.Capabilities.Safety

/-! Every execution in every interleaving: the committed action behind it, the policy it was let
through by, and the doubt it leaves when it fails without a word. -/
namespace Atlas

/-- The row of an action says that it executes an operation with these arguments. -/
def Actions.ActionRow.Executes (a : Actions.ActionRow) (operation : String) (arguments : Dict) :
    Prop :=
  a.operation = operation ∧ (Dict.get a.evidence "arguments" = some (.obj arguments) ∨
    ∃ proposal, Dict.get a.evidence "proposal" = some (.obj proposal) ∧
      Dict.get proposal "arguments" = some (.obj arguments))

namespace Capabilities

open Actions Dialogue
open Ledger (Later)

variable [ActionRuntime]

/-- The row behind an execution: begun by the same job and by no other execution of the record. -/
structure Ledgered (m : Service) (before : List (Entry Host Request Request.Reply))
    (e : Entry Host Request Request.Reply) (operation : String) (arguments : Dict) (id : ℕ)
    (a : ActionRow) : Prop where
  begun : Begun (talk e.thread before) id
  row : e.before.ledger.actions[id]? = some a
  executes : a.Executes operation arguments
  started : a.status ≠ .prepared
  run : ∀ runId transcriptId tool p, m.threads[e.thread]? = some (.tool runId transcriptId tool,p) →
    a.runId = runId
  only : ∀ before' e' after', m.journal = before' ++ e' :: after' →
    (∃ operation' arguments', e'.said.1 = .executor operation' arguments') →
    Begun (talk e'.thread before') id → before' = before

variable {rt : CapabilityRuntime} {m : Service}
  {before after : List (Entry Host Request Request.Reply)} {e : Entry Host Request Request.Reply}
  {operation : String} {arguments : Dict}

omit [ActionRuntime] in
theorem Begun.append {i id : ℕ} {rest : List (Entry Host Request Request.Reply)}
    (h : Begun (talk i before) id) : Begun (talk i (before ++ rest)) id := by
  obtain ⟨x,hx,hb⟩ := begun_iff.mp h
  obtain ⟨e,he,hi,hs⟩ := mem_talk.mp hx
  exact begun_iff.mpr ⟨x,mem_talk.mpr ⟨e,List.mem_append_left _ he,hi,hs⟩,hb⟩

theorem JobOrder.idle {job : Job} {said : Said}
    (h : JobOrder rt job said (.executor operation arguments)) : Idle said := by
  cases job with
  | tool runId transcriptId tool => exact h.1
  | decide actionId approve reviewed => exact h.1

/-- A job invokes one executor at most. -/
theorem invoked_once (hs : m.Sound (JobOrder rt) fun _ _ _ => True)
    (hj : m.journal = before ++ e :: after) (he : e.said.1 = .executor operation arguments)
    {before' after' : List (Entry Host Request Request.Reply)}
    {e' : Entry Host Request Request.Reply} (hj' : m.journal = before' ++ e' :: after')
    (he' : ∃ operation' arguments', e'.said.1 = .executor operation' arguments')
    (hthread : e'.thread = e.thread) : before' = before := by
  have hlt : ∀ {b b' a a' : List (Entry Host Request Request.Reply)}
      {x x' : Entry Host Request Request.Reply}, m.journal = b ++ x :: a →
      m.journal = b' ++ x' :: a' → (∃ o g, x.said.1 = .executor o g) →
      (∃ o g, x'.said.1 = .executor o g) → x'.thread = x.thread → ¬b.length < b'.length := by
    intro b b' a a' x x' hb hb' ⟨o,g,hx⟩ ⟨o',g',hx'⟩ ht hlen
    obtain ⟨c,p,_,hok⟩ := hs.journal b' x' a' hb'
    rw [hx'] at hok
    have hmem : x ∈ b' := by
      have hget : m.journal[b.length]? = some x := by rw [hb]; simp
      rw [hb',List.getElem?_append_left hlen] at hget
      exact List.mem_of_getElem? hget
    apply hok.idle.1
    obtain ⟨i,h,⟨q,r⟩⟩ := x
    obtain rfl : q = .executor o g := hx
    exact ⟨o,g,r,mem_talk.mpr ⟨_,hmem,ht.symm,rfl⟩⟩
  have h₁ := hlt hj hj' ⟨_,_,he⟩ he' hthread
  have h₂ := hlt hj' hj he' ⟨_,_,he⟩ hthread.symm
  have hlen : before.length = before'.length := by omega
  rw [hj] at hj'
  exact (List.append_inj_left hj' hlen).symm

theorem Recorded.before_now (hr : m.Recorded Host.world Kept Onward)
    (hj : m.journal = before ++ e :: after) {x : Entry Host Request Request.Reply}
    (hx : x ∈ before) : Onward (x.after Host.world) e.before := by
  have horder := hr.order
  rw [hj,List.pairwise_append] at horder
  exact horder.2.2 x hx e List.mem_cons_self

theorem Recorded.genuine (hr : m.Recorded Host.world Kept Onward)
    (hj : m.journal = before ++ e :: after) {x : Entry Host Request Request.Reply}
    (hx : x ∈ before) : Genuine x :=
  hr.answered x (by rw [hj]; exact List.mem_append_left _ hx)

omit [ActionRuntime] in
theorem Later.executing_or_ended [ActionRuntime] {a b : ActionRow} (h : Later a b)
    (ha : a.status ≠ .prepared) : b.status ≠ .prepared := fun hb => ha (h.of_prepared hb)

/-- In every interleaving, an execution is either that of a row of the store that was committed to
begin by the same job before, with this operation and these arguments, and that stands behind no
other execution; or the handler of a call invokes a reading operation, or one for which a question
about its authority failed before. -/
theorem effect_ledgered (h : m.Reachable rt) (hj : m.journal = before ++ e :: after)
    (he : e.said.1 = .executor operation arguments) :
    ∃ d, rt.descriptor operation = some d ∧
      ((∃ runId transcriptId tool p, m.threads[e.thread]? = some (.tool runId transcriptId tool,p)) ∧
        (d.effect = .read ∨ Swallowed (talk e.thread before)) ∨
      ∃ id a, Ledgered m before e operation arguments id a) := by
  have hs := h.sound
  have hr := h.recorded
  have honly : ∀ id, Begun (talk e.thread before) id → ∀ before' e' after',
      m.journal = before' ++ e' :: after' →
      (∃ operation' arguments', e'.said.1 = .executor operation' arguments') →
      Begun (talk e'.thread before') id → before' = before := by
    intro id hb before' e' after' hj' he' hb'
    have hb₁ : Begun (talk e'.thread m.journal) id := by
      rw [hj']
      exact hb'.append
    have hb₂ : Begun (talk e.thread m.journal) id := by
      rw [hj]
      exact hb.append
    exact invoked_once hs hj he hj' he' (begun_thread hr hb₁ hb₂)
  obtain ⟨job,p,hjob,hok⟩ := hs.journal before e after hj
  rw [he] at hok
  cases job with
  | tool runId transcriptId tool =>
    obtain ⟨_,d,hd,_,_,hread | hswallowed | ⟨id,summary,capabilityId,hx⟩⟩ := hok
    · exact ⟨d,hd,Or.inl ⟨⟨_,_,_,_,hjob⟩,Or.inl hread⟩⟩
    · exact ⟨d,hd,Or.inl ⟨⟨_,_,_,_,hjob⟩,Or.inr hswallowed⟩⟩
    · obtain ⟨x,hmem,hthread,hsaid⟩ := mem_talk.mp hx
      obtain ⟨_,now,hrow⟩ := after_automatic (Recorded.genuine hr hj hmem) hsaid
      obtain ⟨a,ha,hlater⟩ := (Recorded.before_now hr hj hmem).later hrow
      refine ⟨d,hd,Or.inr ⟨id,a,⟨Or.inl ⟨_,_,_,_,_,hx⟩,ha,⟨hlater.operation,Or.inl ?_⟩,?_,?_,
        honly id (Or.inl ⟨_,_,_,_,_,hx⟩)⟩⟩⟩
      · rw [hlater.settled "arguments" (by simp [ActionRow.settledKeys])]
        simp [automaticAction,Dict.get]
      · exact Later.executing_or_ended hlater (by simp [automaticAction])
      · intro run transcript t p' hp
        rw [hjob] at hp
        obtain ⟨rfl,_,_⟩ := Job.tool.inj (Prod.mk.inj (Option.some.inj hp)).1
        exact hlater.runId
  | decide actionId approve reviewed =>
    obtain ⟨_,⟨d,_,_,hd,_⟩,action,now,proposal,hash,q,haction,hverify,hop,hargs,hbegin⟩ := hok
    obtain ⟨x,hmem,hthread,hsaid⟩ := mem_talk.mp hbegin
    obtain ⟨y,hmem',hthread',hsaid'⟩ := mem_talk.mp haction
    obtain ⟨_,_,_,b,hb,hstatus⟩ := after_approved (Recorded.genuine hr hj hmem) hsaid
    obtain ⟨a,ha,hlater⟩ := (Recorded.before_now hr hj hmem).later hb
    have hread : (y.after Host.world).ledger.actions[actionId]? = some action := by
      have hg := Recorded.genuine hr hj hmem'
      obtain ⟨i,host,said⟩ := y
      cases hsaid'
      have hcommit : host.commit (.ok (host.ledger,host.ledger.actions[actionId]?)) =
          (.ok (some action),(Host.answer host (.action actionId)).2) := Prod.ext hg.symm rfl
      obtain ⟨ledger,hx,hafter⟩ := Host.commit_ok hcommit
      obtain ⟨rfl,hrow⟩ := Prod.mk.inj (Except.ok.inj hx)
      show ((Host.answer host (.action actionId)).2).ledger.actions[actionId]? = _
      rw [hafter]
      exact hrow
    obtain ⟨a',ha',hlater'⟩ := (Recorded.before_now hr hj hmem').later hread
    obtain rfl := Option.some.inj (ha.symm.trans ha')
    have hbegun : Begun (talk e.thread before) actionId := Or.inr ⟨_,_,hbegin⟩
    refine ⟨d,hd,Or.inr ⟨actionId,a,⟨hbegun,ha,⟨hlater'.operation.trans hop,Or.inr ⟨proposal,?_,
      hargs⟩⟩,?_,?_,honly actionId hbegun⟩⟩⟩
    · exact hlater'.proposal.trans (verifyProposal_ok hverify).1
    · exact Later.executing_or_ended hlater (by simp [hstatus])
    · intro run transcript t p' hp
      rw [hjob] at hp
      cases (Prod.mk.inj (Option.some.inj hp)).1

/-- A host on which the connection is lost in the middle of every execution. -/
def mailHost : Host where
  policy := .ok ["mail"]
  resolve _ _ := .ok "auto"
  execute _ _ := .error ⟨.valueError,"connection lost"⟩

/-- One call, taken to the report of its result. -/
def mailMoves : List (Move Change Job) :=
  [.stir (.transaction (.createRun none "send it" .foreground)),
    .begin (.tool 0 0 (.call "mail.send" [])),.proceed 0,.proceed 0,.proceed 0,.proceed 0,
    .proceed 0,.proceed 0,.proceed 0]

def mailService : Service := letI := plainActions
  mailMoves.foldl (Forum.step Host.world (program mailRuntime)) ⟨mailHost,[],[]⟩

omit [ActionRuntime] in
theorem mailService_reachable : letI := plainActions
    mailService.Reachable mailRuntime := by
  let _ := plainActions
  exact Trace.Reach.steps (.start ⟨mailHost,rfl,rfl⟩) mailMoves

omit [ActionRuntime] in
theorem mailService_sends : ∃ before e after, mailService.journal = before ++ e :: after ∧
    e.said.1 = .executor "mail.send" [] :=
  ⟨mailService.journal.take 5,_,_,(List.take_append_drop 5 mailService.journal).symm,rfl⟩

omit [ActionRuntime] in
theorem effect_ledgered_mail : letI := plainActions
    ∃ before e d, e.said.1 = .executor "mail.send" [] ∧
      mailRuntime.descriptor "mail.send" = some d ∧
      ((∃ runId transcriptId tool p,
        mailService.threads[e.thread]? = some (.tool runId transcriptId tool,p)) ∧
          (d.effect = .read ∨ Swallowed (talk e.thread before)) ∨
        ∃ id a, Ledgered mailService before e "mail.send" [] id a) := by
  let _ := plainActions
  obtain ⟨before,e,after,hj,he⟩ := mailService_sends
  obtain ⟨d,hd,h⟩ := effect_ledgered mailService_reachable hj he
  exact ⟨before,e,d,he,hd,h⟩

/-- In every interleaving, the handler of a call invokes an operation only if its capability was
enabled when that was last asked, and the answers about its authority let it run by itself or let a
grant of the task raise it; each of these answers was the host's own at its moment. -/
theorem deny_not_bypassed (h : m.Reachable rt) (hj : m.journal = before ++ e :: after)
    (he : e.said.1 = .executor operation arguments) {runId transcriptId : ℕ} {tool : ToolCall}
    {p : Option (Program (ToolAnswer ⊕ ActionStatus))}
    (hjob : m.threads[e.thread]? = some (.tool runId transcriptId tool,p)) :
    ∃ d enabled, rt.descriptor operation = some d ∧ d.capabilityId ∈ enabled ∧
      LastPolicy (talk e.thread before) enabled ∧
      Automatic rt transcriptId (talk e.thread before) operation arguments d ∧
      ∀ x ∈ talk e.thread before, ∃ e' ∈ before, e'.thread = e.thread ∧ e'.said = x ∧
        x.2 = (Host.answer e'.before x.1).1 := by
  obtain ⟨job,p',hjob',hok⟩ := h.sound.journal before e after hj
  rw [hjob] at hjob'
  obtain ⟨rfl,_⟩ := Prod.mk.inj (Option.some.inj hjob')
  rw [he] at hok
  obtain ⟨_,d,hd,⟨enabled,hpolicy,henabled⟩,hauto,_⟩ := hok
  refine ⟨d,enabled,hd,henabled,hpolicy,hauto,fun x hx => ?_⟩
  obtain ⟨e',hmem,hthread,rfl⟩ := mem_talk.mp hx
  exact ⟨e',hmem,hthread,rfl,Recorded.genuine h.recorded hj hmem⟩

omit [ActionRuntime] in
theorem deny_not_bypassed_mail : letI := plainActions
    ∃ d enabled said, mailRuntime.descriptor "mail.send" = some d ∧ d.capabilityId ∈ enabled ∧
      LastPolicy said enabled ∧ Automatic mailRuntime 0 said "mail.send" [] d := by
  let _ := plainActions
  obtain ⟨before,e,after,hj,he⟩ := mailService_sends
  have hthread : e.thread = 0 := by
    have hget : (mailService.journal.map (·.thread)).all (· == 0) = true := by rfl
    rw [hj] at hget
    simpa using (List.all_eq_true.mp hget) e.thread (by simp)
  have hjob : ∃ p, mailService.threads[e.thread]? =
      some (.tool 0 0 (.call "mail.send" []),p) := by
    rw [hthread]
    exact ⟨_,rfl⟩
  obtain ⟨p,hjob⟩ := hjob
  obtain ⟨d,enabled,hd,henabled,hpolicy,hauto,_⟩ :=
    deny_not_bypassed mailService_reachable hj he hjob
  exact ⟨d,enabled,_,hd,henabled,hpolicy,hauto⟩

end Capabilities
end Atlas
