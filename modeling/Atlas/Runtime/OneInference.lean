import Atlas.Runtime.ManagedTasks

/-! One background inference for each managed task, which ends once. -/
namespace Atlas
namespace Runtime

open Actions RowTable

/-- Whether an inference works on a task in the background. -/
def works (transcriptId : ℕ) (x : Inference) : Bool :=
  x.transcriptId == some transcriptId && x.kind == .background && x.active

theorem length_activeTaskRuns (s : Ledger) (transcriptId : ℕ) :
    (activeTaskRuns s transcriptId).length = s.inferences.countP (works transcriptId) := by
  rw [activeTaskRuns,length_ids,Ledger.inferences,List.countP_map]
  rfl

/-- What every run's inference satisfies. -/
structure Sound (x : Inference) : Prop where
  taken : x.kind = .background → x.status ≠ .queued
  running : x.active = true → x.status = .running

/-- An inference that is over. -/
def Over (x : Inference) : Prop := x.active = false ∧ x.status ≠ .queued

section

variable {x x' : Inference}

theorem sound_move (hx : Sound x) (h : Inference.Move x x') : Sound x' := by
  cases h with
  | start hq => exact ⟨fun _ => by simp,fun _ => rfl⟩
  | finish _ _ hs =>
    refine ⟨fun _ hq => ?_,fun ha => by cases ha⟩
    rcases hs with rfl | rfl
    · cases hq
    · cases hq
  | interrupt _ => exact ⟨fun _ => by simp,fun ha => by cases ha⟩
  | expire hs => exact ⟨hx.taken,fun ha => by cases ha⟩

theorem sound_fresh (h : x.Fresh) : Sound x := by
  rcases h with ⟨_,hs⟩ | ⟨ha,_,hk⟩
  · exact ⟨fun _ => by simp [hs],fun _ => hs⟩
  · exact ⟨fun hb => by simp [hk] at hb,fun h => by simp [ha] at h⟩

theorem over_move (hx : Over x) (h : Inference.Move x x') : Over x' ∧ x.status = .running := by
  cases h with
  | start hq => exact absurd hq hx.2
  | finish ha _ _ =>
    rw [hx.1] at ha
    cases ha
  | interrupt hs => exact ⟨⟨rfl,by simp⟩,hs.resolve_right hx.2⟩
  | expire hs => exact ⟨⟨rfl,hx.2⟩,hs⟩

/-- No move takes up the work on a task again. -/
theorem works_move {transcriptId : ℕ} (hx : Sound x) (h : Inference.Move x x')
    (hw : works transcriptId x' = true) : works transcriptId x = true := by
  simp only [works,Bool.and_eq_true,beq_iff_eq] at hw ⊢
  cases h with
  | start hq => exact absurd hq (hx.taken hw.1.2)
  | finish _ _ _ => cases hw.2
  | interrupt _ => cases hw.2
  | expire _ => cases hw.2

end

section

variable {s s' : Ledger}

def AllSound (s : Ledger) : Prop := ∀ x ∈ s.inferences, Sound x

theorem allSound_moves {p : RunKind → Prop} {q : InferenceStatus → Prop} (hs : AllSound s)
    (h : s.Moves s' p q) : AllSound s' := by
  intro y hy
  cases h with
  | none he =>
    rw [he] at hy
    exact hs y hy
  | added hfresh _ he =>
    rw [he,List.mem_append,List.mem_singleton] at hy
    rcases hy with hy | rfl
    · exact hs y hy
    · exact sound_fresh hfresh
  | moved hchange hmove _ =>
    obtain ⟨j,hj⟩ := List.mem_iff_getElem?.mp hy
    rcases hchange.cases hj with ⟨rfl,rfl⟩ | ⟨_,hj⟩
    · exact sound_move (hs _ (List.mem_of_getElem? hchange.before)) hmove
    · exact hs y (List.mem_of_getElem? hj)

/-- The service takes up no work on a task. -/
theorem works_moves {p : RunKind → Prop} {q : InferenceStatus → Prop}
    (hp : ∀ kind, p kind → kind ≠ .background) (hs : AllSound s) (h : s.Moves s' p q) (t : ℕ) :
    s'.inferences.countP (works t) ≤ s.inferences.countP (works t) := by
  cases h with
  | none he => rw [he]
  | @added x _ hk he =>
    have hx : works t x = false := by
      simp [works,hp _ hk]
    rw [he,List.countP_append,List.countP_singleton,hx]
    simp
  | moved hchange hmove _ =>
    exact hchange.countP_le (works_move (hs _ (List.mem_of_getElem? hchange.before)) hmove)

theorem over_moves {p : RunKind → Prop} {q : InferenceStatus → Prop} {id : ℕ} {x : Inference}
    (h : s.Moves s' p q) (hx : s.inferences[id]? = some x) (hover : Over x) : ∃ x', s'.inferences[id]? = some x' ∧
      Over x' ∧ (x.status ≠ .running → x' = x) := by
  cases h with
  | none he => exact ⟨x,by rw [he,hx],hover,fun _ => rfl⟩
  | added _ _ he => exact ⟨x,by rw [he,getElem?_insert_of_some hx],hover,fun _ => rfl⟩
  | @moved i y y' hchange hmove _ =>
    by_cases hi : id = i
    · subst hi
      obtain rfl := Option.some.inj (hx.symm.trans hchange.before)
      obtain ⟨hover',hrun⟩ := over_move hover hmove
      exact ⟨y',hchange.after,hover',fun hne => absurd hrun hne⟩
    · exact ⟨x,by rw [hchange.others id hi,hx],hover,fun _ => rfl⟩

end

section

variable {s s' : Ledger} {t : ℕ}

theorem writeLook_inferences {now : Instant} {entry : ℕ × Look}
    (h : writeLook now s entry = .ok s') : s'.inferences = s.inferences := by
  obtain ⟨u,hu,h⟩ := accepted h
  obtain rfl := Except.ok.inj h
  have hfold : ∀ (l : List ℕ) {s u : Ledger},
      l.foldlM (fun s id => s.supersede id now) s = .ok u → u.inferences = s.inferences := by
    intro l
    induction l with
    | nil =>
      intro s u hu
      obtain rfl := Except.ok.inj hu
      rfl
    | cons id l ih =>
      intro s u hu
      rw [List.foldlM_cons] at hu
      obtain ⟨v,hv,hu⟩ := accepted hu
      obtain ⟨w,hcancel,rfl⟩ := Ledger.supersede_ok hv
      have hi := Ledger.cancel_inferences hcancel
      exact (ih hu).trans hi
  have hi := hfold entry.2.superseded hu
  exact hi

theorem writeLooks_inferences {now : Instant} (looks : List (ℕ × Look)) :
    ∀ {s s' : Ledger}, looks.foldlM (writeLook now) s = .ok s' →
      s'.inferences = s.inferences := by
  induction looks with
  | nil =>
    intro s s' h
    obtain rfl := Except.ok.inj h
    rfl
  | cons entry looks ih =>
    intro s s' h
    rw [List.foldlM_cons] at h
    obtain ⟨u,hu,h⟩ := accepted h
    exact (ih h).trans (writeLook_inferences hu)

variable [ActionRuntime]

theorem claimedRun_inferences (s : Ledger) (transcriptId runId : ℕ) :
    (claimedRun s transcriptId runId).inferences = s.inferences := by
  rw [claimedRun]
  split
  · rfl
  · exact Ledger.inferences_of_modify rfl fun _ => rfl

/-- A claim that commits adds one inference, which works on its task. -/
theorem commitClaim_ok {looks : List (ℕ × Look)} {intent fresh : String} {now : Instant}
    (h : commitClaim s looks t intent fresh now = .ok s') :
    s'.inferences = s.inferences ++ [⟨.background,some t,true,.running⟩] := by
  obtain ⟨u,hu,h⟩ := accepted h
  obtain ⟨⟨v,runId⟩,hv,h⟩ := accepted h
  obtain rfl := Except.ok.inj h
  obtain ⟨_,rfl,_⟩ := Ledger.createRun_ok hv
  have hrow := claimedRun_inferences (u.addRun (createdRun (some t) intent .background now)) t runId
  have hadd : (u.addRun (createdRun (some t) intent .background now)).inferences = _ :=
    Ledger.inferences_of_add rfl
  rw [hadd,writeLooks_inferences looks hu] at hrow
  exact hrow

/-- A claim wants a run only for a task that nobody works on. -/
theorem look_free {auto : ℕ → Bool} {fresh : String} {now : Instant} {row : Memory.TranscriptRow}
    {intent : String} (h : (look s auto fresh now t row).intent = some intent) :
    s.inferences.countP (works t) = 0 := by
  simp only [look] at h
  split at h
  · cases h
  · split at h
    · cases h
    · split at h
      · cases h
      · next hnot =>
        simp only [not_or,not_not] at hnot
        rw [← length_activeTaskRuns,hnot.2.2]
        rfl

end

theorem selectable_unlocked {s : Ledger} {locked : ℕ → Bool} {t : ℕ}
    (h : t ∈ selectable s locked) : locked t = false := by
  have hm := List.mem_of_mem_take h
  rw [List.mem_insertionSort,List.mem_filter] at hm
  simpa using hm.2

namespace Workers

/-- What holds of the service and the claims of its workers, whatever steps they took. -/
structure Exclusive (m : Workers) : Prop where
  sound : AllSound m.ledger
  once : ∀ t, m.ledger.inferences.countP (works t) ≤ 1
  apart : ∀ {i j : ℕ} {c d : Claim} {t : ℕ}, m.claims[i]? = some c → m.claims[j]? = some d →
    t ∈ c.held → t ∈ d.held → i = j
  ahead : ∀ c ∈ m.claims, ∀ t ∈ c.todo, t ∈ c.held
  free : ∀ c ∈ m.claims, ∀ t intent, c.chosen = some (t,intent) →
    t ∈ c.held ∧ m.ledger.inferences.countP (works t) = 0

variable {m : Workers}

theorem exclusive_start : Exclusive {} where
  sound := fun _ hx => by cases hx
  once := fun _ => by simp [Ledger.inferences]
  apart := fun h => by simp at h
  ahead := fun _ hc => by cases hc
  free := fun _ hc => by cases hc

theorem exclusive_close (h : m.Exclusive) (i : ℕ) : (m.close i).Exclusive where
  sound := h.sound
  once := h.once
  apart := by
    intro j k c d t hc hd htc htd
    rw [close] at hc hd
    by_cases hj : i = j
    · subst hj
      rw [getElem?_modify_self] at hc
      obtain ⟨_,_,rfl⟩ := Option.map_eq_some_iff.mp hc
      cases htc
    · rw [getElem?_modify_ne _ _ hj] at hc
      by_cases hk : i = k
      · subst hk
        rw [getElem?_modify_self] at hd
        obtain ⟨_,_,rfl⟩ := Option.map_eq_some_iff.mp hd
        cases htd
      · rw [getElem?_modify_ne _ _ hk] at hd
        exact h.apart hc hd htc htd
  ahead := by
    intro c hc t ht
    rcases mem_modify hc with hc | ⟨_,_,rfl⟩
    · exact h.ahead c hc t ht
    · cases ht
  free := by
    intro c hc t intent hchosen
    rcases mem_modify hc with hc | ⟨_,_,rfl⟩
    · exact h.free c hc t intent hchosen
    · cases hchosen

/-- A step of the service that takes up no work on a task. -/
theorem exclusive_ledger {s : Ledger} (h : m.Exclusive) (hsound : AllSound s)
    (hle : ∀ t, s.inferences.countP (works t) ≤ m.ledger.inferences.countP (works t)) :
    Exclusive {m with ledger := s} where
  sound := hsound
  once := fun t => (hle t).trans (h.once t)
  apart := h.apart
  ahead := h.ahead
  free := by
    intro c hc t intent hchosen
    obtain ⟨hheld,hzero⟩ := h.free c hc t intent hchosen
    exact ⟨hheld,Nat.le_zero.mp (hzero ▸ hle t)⟩

/-- A claim that keeps the rows it holds and wants a run only where nobody works. -/
theorem exclusive_claim (h : m.Exclusive) {i : ℕ} {c d : Claim} (hc : m.claims[i]? = some c)
    (hheld : d.held = c.held) (htodo : ∀ t ∈ d.todo, t ∈ c.todo)
    (hchosen : ∀ t intent, d.chosen = some (t,intent) →
      t ∈ c.todo ∧ m.ledger.inferences.countP (works t) = 0) :
    Exclusive {m with claims := m.claims.modify i fun _ => d} := by
  have hmem := List.mem_of_getElem? hc
  have hold : ∀ {j : ℕ} {e : Claim}, (m.claims.modify i fun _ => d)[j]? = some e →
      ∃ e', m.claims[j]? = some e' ∧ e.held = e'.held := by
    intro j e he
    by_cases hj : i = j
    · subst hj
      rw [getElem?_modify_self,hc] at he
      obtain rfl := Option.some.inj he
      exact ⟨c,hc,hheld⟩
    · rw [getElem?_modify_ne _ _ hj] at he
      exact ⟨e,he,rfl⟩
  refine ⟨h.sound,h.once,?_,?_,?_⟩
  · intro j k e f t he hf hte htf
    obtain ⟨e',he',hee⟩ := hold he
    obtain ⟨f',hf',hff⟩ := hold hf
    exact h.apart he' hf' (hee ▸ hte) (hff ▸ htf)
  · intro e he t ht
    rcases mem_modify he with he | ⟨_,_,rfl⟩
    · exact h.ahead e he t ht
    · rw [hheld]
      exact h.ahead c hmem t (htodo t ht)
  · intro e he t intent hwant
    rcases mem_modify he with he | ⟨_,_,rfl⟩
    · exact h.free e he t intent hwant
    · obtain ⟨ht,hzero⟩ := hchosen t intent hwant
      rw [hheld]
      exact ⟨h.ahead c hmem t ht,hzero⟩

/-- A claim that commits is the only one that holds its task. -/
theorem exclusive_commit (h : m.Exclusive) {i : ℕ} {c : Claim} (hc : m.claims[i]? = some c)
    {t : ℕ} {intent : String} (hchosen : c.chosen = some (t,intent)) {s : Ledger}
    (hs : s.inferences = m.ledger.inferences ++ [⟨.background,some t,true,.running⟩]) :
    (close {m with ledger := s} i).Exclusive := by
  obtain ⟨hheld,hzero⟩ := h.free c (List.mem_of_getElem? hc) t intent hchosen
  have hclosed := exclusive_close h i
  have hcount : ∀ u, s.inferences.countP (works u) =
      m.ledger.inferences.countP (works u) + if u = t then 1 else 0 := by
    intro u
    rw [hs,List.countP_append,List.countP_singleton]
    by_cases hu : u = t
    · simp [works,hu]
    · simp [works,hu,Ne.symm hu]
  refine ⟨?_,?_,hclosed.apart,hclosed.ahead,?_⟩
  · intro x hx
    have hx' : x ∈ s.inferences := hx
    rw [hs,List.mem_append,List.mem_singleton] at hx'
    rcases hx' with hx' | rfl
    · exact h.sound x hx'
    · exact ⟨fun _ => by simp,fun _ => rfl⟩
  · intro u
    show s.inferences.countP (works u) ≤ 1
    rw [hcount u]
    by_cases hu : u = t
    · rw [hu,hzero,if_pos rfl]
    · rw [if_neg hu]
      exact h.once u
  · intro d hd u want hwant
    obtain ⟨hud,huzero⟩ := hclosed.free d hd u want hwant
    refine ⟨hud,?_⟩
    have hne : u ≠ t := by
      rintro rfl
      obtain ⟨j,hj⟩ := List.mem_iff_getElem?.mp hd
      rw [close] at hj
      by_cases hij : i = j
      · subst hij
        rw [getElem?_modify_self] at hj
        obtain ⟨_,_,rfl⟩ := Option.map_eq_some_iff.mp hj
        cases hwant
      · rw [getElem?_modify_ne _ _ hij] at hj
        exact hij (h.apart hc hj hheld hud)
    show s.inferences.countP (works u) = 0
    rw [hcount u,if_neg hne]
    exact huzero

variable [ActionRuntime]

theorem exclusive_select (h : m.Exclusive) (skipped : List ℕ) :
    (m.act (.select skipped)).Exclusive := by
  generalize hheld : selectable m.ledger (fun id => skipped.contains id || m.locked id) = held
  have hfree : ∀ t ∈ held, ∀ c ∈ m.claims, t ∉ c.held := by
    intro t ht c hc htc
    rw [← hheld] at ht
    have hl := selectable_unlocked ht
    rw [Bool.or_eq_false_iff,locked,List.any_eq_false] at hl
    exact hl.2 c hc (by simpa using htc)
  have hact : m.act (.select skipped) =
      {m with claims := m.claims ++ [{held := held,todo := held}]} := by
    simp only [act,hheld]
  rw [hact]
  refine ⟨h.sound,h.once,?_,?_,?_⟩
  · intro i j c d t hc hd htc htd
    rw [getElem?_insert] at hc hd
    by_cases hi : i = m.claims.length
    · rw [if_pos hi] at hc
      obtain rfl := Option.some.inj hc
      by_cases hj : j = m.claims.length
      · rw [hi,hj]
      · rw [if_neg hj] at hd
        exact absurd htd (hfree t htc d (List.mem_of_getElem? hd))
    · rw [if_neg hi] at hc
      by_cases hj : j = m.claims.length
      · rw [if_pos hj] at hd
        obtain rfl := Option.some.inj hd
        exact absurd htc (hfree t htd c (List.mem_of_getElem? hc))
      · rw [if_neg hj] at hd
        exact h.apart hc hd htc htd
  · intro c hc t ht
    rcases List.mem_append.mp hc with hc | hc
    · exact h.ahead c hc t ht
    · obtain rfl := List.mem_singleton.mp hc
      exact ht
  · intro c hc t intent hchosen
    rcases List.mem_append.mp hc with hc | hc
    · exact h.free c hc t intent hchosen
    · obtain rfl := List.mem_singleton.mp hc
      cases hchosen

theorem exclusive_act (h : m.Exclusive) (a : WorkerStep) : (m.act a).Exclusive := by
  cases a with
  | service op now =>
    simp only [act]
    split
    · exact h
    · next hop =>
      rw [Ledger.step]
      split
      · next s hs =>
        have hmoves := Ledger.apply_moves hs
        refine exclusive_ledger h (allSound_moves h.sound hmoves)
          (works_moves (fun kind hk => ?_) h.sound hmoves)
        rcases hk with hk | ⟨_,_,rfl⟩
        · exact hk
        · exact absurd (Or.inl rfl) hop
      · exact h
  | select skipped => exact exclusive_select h skipped
  | examine claim auto fresh now =>
    simp only [act]
    split
    · next held id todo looks hclaim =>
      split
      · exact h
      · next row hrow =>
        refine exclusive_claim h hclaim rfl (fun t ht => List.mem_cons_of_mem _ ht) ?_
        intro t intent hchosen
        obtain ⟨want,hwant,he⟩ := Option.map_eq_some_iff.mp hchosen
        obtain ⟨rfl,rfl⟩ := Prod.mk.inj he
        exact ⟨List.mem_cons_self,look_free hwant⟩
    · exact h
  | commit claim fresh now =>
    simp only [act]
    split
    · next held todo looks t intent hclaim =>
      split
      · exact exclusive_close h claim
      · next s hs => exact exclusive_commit h hclaim rfl (commitClaim_ok hs)
    · exact h
  | rollback claim => exact exclusive_close h claim

theorem Reachable.exclusive (h : m.Reachable) : m.Exclusive :=
  Trace.Reach.invariant (I := Exclusive) (fun _ hm => by subst hm; exact exclusive_start)
    (fun _ a hm _ => exclusive_act hm a) h

/-- The inference of a run across a step. -/
theorem act_over {id : ℕ} {x : Inference} (hx : m.ledger.inferences[id]? = some x)
    (hover : Over x) (a : WorkerStep) : ∃ x', (m.act a).ledger.inferences[id]? = some x' ∧
      Over x' ∧ (x.status ≠ .running → x' = x) := by
  have hsame : ∃ x', m.ledger.inferences[id]? = some x' ∧ Over x' ∧
      (x.status ≠ .running → x' = x) := ⟨x,hx,hover,fun _ => rfl⟩
  cases a with
  | service op now =>
    simp only [act]
    split
    · exact hsame
    · rw [Ledger.step]
      split
      · next s hs => exact over_moves (Ledger.apply_moves hs) hx hover
      · exact hsame
  | select skipped => exact hsame
  | examine claim auto fresh now =>
    simp only [act]
    split
    · split
      · exact hsame
      · exact hsame
    · exact hsame
  | commit claim fresh now =>
    simp only [act]
    split
    · split
      · exact hsame
      · next s hs =>
        refine ⟨x,?_,hover,fun _ => rfl⟩
        show s.inferences[id]? = some x
        rw [commitClaim_ok hs]
        exact getElem?_insert_of_some hx
    · exact hsame
  | rollback claim => exact hsame

theorem Later.over {m' : Workers} (h : m.Later m') {id : ℕ} {x : Inference}
    (hx : m.ledger.inferences[id]? = some x) (hover : Over x) :
    ∃ x', m'.ledger.inferences[id]? = some x' ∧ Over x' ∧ (x.status ≠ .running → x' = x) := by
  induction h with
  | refl => exact ⟨x,hx,hover,fun _ => rfl⟩
  | tail _ _ ih =>
    obtain ⟨y,hy,hyover,hsame⟩ := ih
    obtain ⟨z,hz,hzover,hthen⟩ := act_over hy hyover _
    refine ⟨z,hz,hzover,fun hne => ?_⟩
    obtain rfl := hsame hne
    exact hthen hne

end Workers

/-- Whether the inference of a run has ended. -/
def Ended (s : Ledger) (id : ℕ) : Prop := ∃ run : RunRow, s.runs[id]? = some run ∧
  run.inferenceActive = false ∧ run.inferenceStatus ≠ .queued

section

variable {s s' : Ledger} {id : ℕ} {x : Inference}

theorem run_of_inference (h : s.inferences[id]? = some x) : ∃ run : RunRow,
    s.runs[id]? = some run ∧ run.inferenceActive = x.active ∧ run.inferenceStatus = x.status := by
  rw [Ledger.inferences_getElem?] at h
  obtain ⟨run,hrun,rfl⟩ := Option.map_eq_some_iff.mp h
  exact ⟨run,hrun,rfl,rfl⟩

theorem inference_of_run {run : RunRow} (h : s.runs[id]? = some run) :
    s.inferences[id]? = some run.inference := by
  rw [Ledger.inferences_getElem?,h]
  rfl

theorem ended_of_over (h : s.inferences[id]? = some x) (hx : Over x) : Ended s id := by
  obtain ⟨run,hrun,ha,hs⟩ := run_of_inference h
  exact ⟨run,hrun,ha.trans hx.1,fun hq => hx.2 (hs ▸ hq)⟩

variable {run : RunRow} {now : Instant}

theorem finishRun_ends (hrun : s.runs[id]? = some run) (ha : run.inferenceActive = true)
    (hs : run.inferenceStatus = .running) (succeeded : Bool) (now : Instant) :
    ∃ s', s.finishRun id succeeded now = .ok s' ∧ Ended s' id := by
  have hok : s.finishRun id succeeded now = .ok ((s.setRun id
      (·.stop (if succeeded then .succeeded else .failed))).recomputeRun id now) := by
    simp [Ledger.finishRun,hrun,ha,hs]
  have hchange := Ledger.changes_setRun hrun
    (·.stop (if succeeded then InferenceStatus.succeeded else .failed))
  rw [← Ledger.recomputeRun_inferences (s.setRun _ _) id now] at hchange
  refine ⟨_,hok,ended_of_over hchange.after ⟨rfl,?_⟩⟩
  cases succeeded with
  | false => simp [RunRow.stop,RunRow.inference]
  | true => simp [RunRow.stop,RunRow.inference]

theorem finishRun_refused (hrun : s.runs[id]? = some run) (ha : run.inferenceActive = false)
    (succeeded : Bool) (now : Instant) : ∃ e, s.finishRun id succeeded now = .error e := by
  simp [Ledger.finishRun,hrun,ha]

theorem interruptRun_ends [ActionRuntime] (hrun : s.runs[id]? = some run)
    (hs : run.inferenceStatus = .running) {reason : String}
    (h : s.interruptRun id reason now = .ok s') : Ended s' id := by
  rcases Ledger.interruptRun_changes h with ⟨_,hidle⟩ | ⟨r,_,_,hchange⟩
  · exact absurd hs (hidle run hrun).1
  · exact ended_of_over hchange.after ⟨rfl,by simp⟩

theorem interruptRun_idle [ActionRuntime] (hrun : s.runs[id]? = some run)
    (ha : run.inferenceStatus ≠ .running) (hq : run.inferenceStatus ≠ .queued) (reason : String)
    (now : Instant) : s.interruptRun id reason now = .ok s := by
  simp [Ledger.interruptRun,hrun,ha,hq]

theorem expireRun_ends (hrun : s.runs[id]? = some run) (hs : run.inferenceStatus = .running)
    {cutoff : Instant} (hstale : run.heartbeatAt.any (cutoff ≤ ·) = false) :
    Ended (s.expireRun id cutoff) id := by
  refine ⟨{run with inferenceActive := false},?_,rfl,by simp [hs]⟩
  rw [Ledger.expireRun,Ledger.setRun,getElem?_modify_self,hrun]
  simp [hs,hstale]

theorem expireRun_idle (hrun : s.runs[id]? = some run) (ha : run.inferenceActive = false)
    (cutoff : Instant) : s.expireRun id cutoff = s := by
  have hrows : (s.expireRun id cutoff).runs = s.runs := by
    apply modify_of_eq
    intro r hr
    obtain rfl := Option.some.inj (hrun.symm.trans hr)
    split
    · rfl
    · rw [← ha]
  show {s with runs := (s.expireRun id cutoff).runs} = s
  rw [hrows]

end

/-- At most one background run of a managed task has an active inference, whatever the workers and
the service do; an inference ends once, and what comes later is refused or changes nothing. -/
theorem one_inference_per_task [ActionRuntime] {m : Workers} (h : m.Reachable) :
    (∀ t, (activeTaskRuns m.ledger t).length ≤ 1) ∧
    (∀ (id : ℕ) (run : RunRow), m.ledger.runs[id]? = some run → run.inferenceActive = true →
      run.inferenceStatus = .running ∧
      (∀ succeeded now, ∃ s, m.ledger.finishRun id succeeded now = .ok s ∧ Ended s id) ∧
      (∀ reason now s, m.ledger.interruptRun id reason now = .ok s → Ended s id) ∧
      ∀ cutoff, run.heartbeatAt.any (cutoff ≤ ·) = false →
        Ended (m.ledger.expireRun id cutoff) id) ∧
    ∀ (id : ℕ) (run : RunRow), m.ledger.runs[id]? = some run → run.inferenceActive = false →
      run.inferenceStatus ≠ .queued →
      (∀ succeeded now, ∃ e, m.ledger.finishRun id succeeded now = .error e) ∧
      (run.inferenceStatus ≠ .running →
        ∀ reason now, m.ledger.interruptRun id reason now = .ok m.ledger) ∧
      (∀ cutoff, m.ledger.expireRun id cutoff = m.ledger) ∧
      ∀ m', m.Later m' → Ended m'.ledger id ∧ (run.inferenceStatus ≠ .running →
        (m'.ledger.runs[id]?).map RunRow.inferenceStatus = some run.inferenceStatus) := by
  have hm := Workers.Reachable.exclusive h
  refine ⟨fun t => ?_,fun id run hrun ha => ?_,fun id run hrun ha hq => ?_⟩
  · rw [length_activeTaskRuns]
    exact hm.once t
  · have hs := (hm.sound _ (List.mem_of_getElem? (inference_of_run hrun))).running ha
    exact ⟨hs,finishRun_ends hrun ha hs,fun _ _ _ => interruptRun_ends hrun hs,
      fun _ => expireRun_ends hrun hs⟩
  · refine ⟨finishRun_refused hrun ha,fun hne => interruptRun_idle hrun hne hq,
      expireRun_idle hrun ha,fun m' hlater => ?_⟩
    obtain ⟨x,hx,hover,hsame⟩ := Workers.Later.over hlater (inference_of_run hrun) ⟨ha,hq⟩
    refine ⟨ended_of_over hx hover,fun hne => ?_⟩
    obtain ⟨run',hrun',_,hst⟩ := run_of_inference hx
    rw [hrun',Option.map_some,hst,hsame hne]
    rfl

/-- Two claims of one task, the second of them while the first run is active. -/
def twoClaims : List WorkerStep := [
  .service (.openTranscript {
    kind := taskKind
    activeTaskState := [("mode",.str "managed"),("status",.str "active")]}) 0,
  .select [],
  .examine 0 (fun _ => false) "" 5,
  .commit 0 "" 5,
  .select [],
  .examine 1 (fun _ => false) "" 6,
  .commit 1 "" 6]

theorem one_inference_per_task_claimed : letI := plainActions
    let m := twoClaims.foldl Workers.act {}
    activeTaskRuns m.ledger 0 = [0] ∧ (∀ t, (activeTaskRuns m.ledger t).length ≤ 1) ∧
      ∃ s, m.ledger.finishRun 0 true 7 = .ok s ∧ Ended s 0 := by
  have hall := @one_inference_per_task plainActions _
    (@Workers.ran_reachable plainActions twoClaims)
  exact ⟨by decide,hall.1,((hall.2.1 0 _ rfl rfl).2.1 true 7)⟩

end Runtime
end Atlas
