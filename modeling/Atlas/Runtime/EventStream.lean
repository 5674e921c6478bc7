import Atlas.Runtime.RunEvents

/-! What an event stream has delivered when it ends by itself. -/
namespace Atlas
namespace Runtime

open Actions RowTable

/-- An inference that has come to its end. -/
def Terminal (x : Inference) : Prop :=
  x.active = false ∧ x.status ≠ .running ∧ x.status ≠ .queued

/-- Whether the inference of a run has come to its end. -/
def TerminalAt (s : Ledger) (runId : ℕ) : Prop :=
  ∃ x, s.inferences[runId]? = some x ∧ Terminal x

theorem terminalAt_iff {s : Ledger} {runId : ℕ} :
    (s.runs[runId]?).any Stream.terminal = true ↔ TerminalAt s runId := by
  simp only [TerminalAt,Terminal,Ledger.inferences_getElem?]
  cases s.runs[runId]? with
  | none => simp
  | some run => simp [Stream.terminal,RunRow.inference,and_assoc]

section

variable {s s' : Ledger} {runId : ℕ} {now : Instant}

theorem length_inferences (s : Ledger) : s.inferences.length = s.runs.length := List.length_map _

theorem terminalAt_changes {i : ℕ} {x x' : Inference}
    (h : Changes s.inferences s'.inferences i x x') (hne : runId ≠ i)
    (ht : TerminalAt s' runId) : TerminalAt s runId := by
  obtain ⟨y,hy,hterminal⟩ := ht
  exact ⟨y,by rw [← h.others runId hne,hy],hterminal⟩

/-- A transaction that ends no inference makes no run terminal. -/
theorem terminalAt_moves {p : RunKind → Prop} {q : InferenceStatus → Prop}
    (hq : ∀ status, q status → status = .running) (h : s.Moves s' p q)
    (ht : TerminalAt s' runId) : TerminalAt s runId := by
  obtain ⟨y,hy,hterminal⟩ := ht
  cases h with
  | none he => exact ⟨y,by rw [← he,hy],hterminal⟩
  | @added x hfresh _ he =>
    rw [he,getElem?_insert] at hy
    by_cases hlast : runId = s.inferences.length
    · rw [if_pos hlast] at hy
      obtain rfl := Option.some.inj hy
      rcases hfresh with ⟨_,hs⟩ | ⟨_,hs,_⟩
      · exact absurd hs hterminal.2.1
      · exact absurd hs hterminal.2.2
    · rw [if_neg hlast] at hy
      exact ⟨y,hy,hterminal⟩
  | @moved i x x' hchange _ hstatus =>
    by_cases hi : runId = i
    · subst hi
      obtain rfl := Option.some.inj (hchange.after.symm.trans hy)
      exact absurd (hq _ hstatus) hterminal.2.1
    · exact terminalAt_changes hchange hi ⟨y,hy,hterminal⟩

theorem length_le_moves {p : RunKind → Prop} {q : InferenceStatus → Prop} (h : s.Moves s' p q) :
    s.runs.length ≤ s'.runs.length := by
  rw [← length_inferences,← length_inferences]
  cases h with
  | none he => rw [he]
  | added _ _ he => simp [he]
  | moved hchange _ _ => rw [hchange.length]

variable [ActionRuntime]

theorem work_length {work : Work} (h : work.apply s now = .ok s') :
    s.runs.length ≤ s'.runs.length := by
  have hfinish : ∀ {id : ℕ}, s.finishRun id true now = .ok s' → s.runs.length ≤ s'.runs.length :=
    fun {id} hf => length_le_moves (@Ledger.apply_moves _ _ _ _ (.finishRun id true) hf)
  cases work with
  | events =>
    obtain rfl := Except.ok.inj h
    exact Nat.le_refl _
  | store op => exact length_le_moves (Ledger.apply_moves h)
  | complete id => exact hfinish h
  | interrupt id reason => exact length_le_moves (@Ledger.apply_moves _ _ _ _ (.interruptRun id reason) h)
  | finish id => exact hfinish h

/-- A run comes to its end only in a transaction that ends it. -/
theorem work_terminal {work : Work} {written : List RunEventRow}
    (hcommits : work.commits s written = true) (h : work.apply s now = .ok s')
    (ht : TerminalAt s' runId) : TerminalAt s runId ∨ work.ends = some runId := by
  have hfinish : ∀ {id : ℕ}, s.finishRun id true now = .ok s' →
      TerminalAt s runId ∨ some id = some runId := by
    intro id hf
    rcases Ledger.finishRun_changes hf with rfl | ⟨run,_,_,_,hchange⟩
    · exact Or.inl ht
    · by_cases hid : runId = id
      · exact Or.inr (by rw [hid])
      · exact Or.inl (terminalAt_changes hchange hid ht)
  cases work with
  | events =>
    obtain rfl := Except.ok.inj h
    exact Or.inl ht
  | store op =>
    refine Or.inl (terminalAt_moves (fun status hs => ?_) (Ledger.apply_moves h) ht)
    rcases hs with hs | hends
    · exact hs
    · simp [Work.commits,hends] at hcommits
  | complete id => exact hfinish h
  | interrupt id reason =>
    rcases Ledger.interruptRun_changes h with ⟨rfl,_⟩ | ⟨run,_,_,hchange⟩
    · exact Or.inl ht
    · by_cases hid : runId = id
      · exact Or.inr (by rw [Work.ends,hid])
      · exact Or.inl (terminalAt_changes hchange hid ht)
  | finish id => exact hfinish h

omit [ActionRuntime] in
/-- Such a transaction commits with the event that says so. -/
theorem work_event {work : Work} {written : List RunEventRow}
    (hcommits : work.commits s written = true) (hends : work.ends = some runId)
    (hevent : work.event.isSome) : ∃ e ∈ written, e.runId = runId ∧ e.isTerminal = true := by
  cases work with
  | events => cases hends
  | store op => cases hends
  | complete id =>
    obtain rfl := Option.some.inj hends
    obtain ⟨e,he,hkind⟩ := List.any_eq_true.mp hcommits
    rw [Bool.and_eq_true,beq_iff_eq] at hkind
    exact ⟨e,he,hkind.1,by rw [RunEventRow.isTerminal,hkind.2,Bool.true_or]⟩
  | interrupt id reason =>
    obtain rfl := Option.some.inj hends
    rw [Work.commits,Bool.and_eq_true] at hcommits
    obtain ⟨e,he,hkind⟩ := List.any_eq_true.mp hcommits.2
    rw [Bool.and_eq_true,beq_iff_eq] at hkind
    exact ⟨e,he,hkind.1,by rw [RunEventRow.isTerminal,hkind.2,Bool.or_true]⟩
  | finish id => cases hevent

end

section

variable {events : List RunEventRow} {runId afterId : ℕ} {e : RunEventRow}

theorem mem_of_mem_runEventsAfter (h : e ∈ runEventsAfter events runId afterId) :
    e ∈ events ∧ e.runId = runId ∧ afterId < e.id := by
  obtain ⟨hm,hafter⟩ := Pages.mem_of_mem_page h
  rw [List.mem_filter,beq_iff_eq] at hm
  exact ⟨hm.1,hm.2,hafter⟩

theorem run_ids_nodup (hids : (events.map RunEventRow.id).Nodup) (runId : ℕ) :
    ((events.filter (·.runId == runId)).map RunEventRow.id).Nodup :=
  hids.sublist (List.filter_sublist.map _)

theorem runEventsAfter_ordered (hids : (events.map RunEventRow.id).Nodup) :
    (runEventsAfter events runId afterId).Pairwise (·.id < ·.id) :=
  Pages.page_ordered (run_ids_nodup hids runId)

theorem mem_runEventsAfter (hids : (events.map RunEventRow.id).Nodup) (he : e ∈ events)
    (hrun : e.runId = runId) (hafter : afterId < e.id)
    (hle : e.id ≤ Pages.reached RunEventRow.id afterId (runEventsAfter events runId afterId)) :
    e ∈ runEventsAfter events runId afterId := by
  refine Pages.mem_page (run_ids_nodup hids runId) ?_ hafter hle
  simp [he,hrun]

theorem le_of_runEventsAfter_eq_nil (h : runEventsAfter events runId afterId = [])
    (he : e ∈ events) (hrun : e.runId = runId) : e.id ≤ afterId :=
  Pages.le_of_page_eq_nil (by decide) h (by simp [he,hrun])

end

/-- What a stream has delivered and read, against the events that are committed. -/
structure Stream.Faithful (r : Stream) (events : List RunEventRow) : Prop where
  order : (r.delivered ++ r.rows).Pairwise (·.id < ·.id)
  behind : ∀ e ∈ r.delivered, e.id ≤ r.cursor
  ahead : ∀ e ∈ r.rows, r.cursor < e.id
  after : r.start ≤ r.cursor
  real : ∀ e ∈ r.delivered ++ r.rows, e ∈ events ∧ e.runId = r.runId ∧ r.start < e.id
  whole : ∀ e ∈ events, e.runId = r.runId → r.start < e.id → e.id ≤ r.reached →
    e ∈ r.delivered ++ r.rows
  done : r.ended = true → r.rows = [] ∧ ∀ e ∈ events, e.runId = r.runId → e.id ≤ r.cursor

namespace Stream

variable {r : Stream} {events : List RunEventRow}

theorem Faithful.cursor_le (h : r.Faithful events) : r.cursor ≤ r.reached :=
  Pages.after_le_reached h.ahead

theorem faithful_start (runId after : ℕ) (events : List RunEventRow) :
    Faithful {runId := runId,start := after,cursor := after} events where
  order := List.Pairwise.nil
  behind := fun _ he => by cases he
  ahead := fun _ he => by cases he
  after := Nat.le_refl _
  real := fun _ he => by cases he
  whole := fun _ _ _ hgt hle => absurd hgt (Nat.not_lt.mpr hle)
  done := fun h => by cases h

/-- Events that commit above what the stream has read. -/
theorem faithful_commit (h : r.Faithful events) {written : List RunEventRow}
    (hw : ∀ e ∈ written, e.runId = r.runId → r.start < e.id →
      r.ended = false ∧ r.reached < e.id) : r.Faithful (events ++ written) where
  order := h.order
  behind := h.behind
  ahead := h.ahead
  after := h.after
  real := fun e he => ⟨List.mem_append_left _ (h.real e he).1,(h.real e he).2⟩
  whole := by
    intro e he hrun hgt hle
    rcases List.mem_append.mp he with he | he
    · exact h.whole e he hrun hgt hle
    · exact absurd hle (Nat.not_le.mpr (hw e he hrun hgt).2)
  done := by
    intro hended
    obtain ⟨hrows,hall⟩ := h.done hended
    refine ⟨hrows,fun e he hrun => ?_⟩
    rcases List.mem_append.mp he with he | he
    · exact hall e he hrun
    · by_cases hgt : r.start < e.id
      · rw [hended] at hw
        exact absurd (hw e he hrun hgt).1 (by decide)
      · exact (Nat.le_of_not_lt hgt).trans h.after

theorem faithful_readEvents (h : r.Faithful events) (hids : (events.map RunEventRow.id).Nodup) :
    (r.readEvents events).Faithful events := by
  rw [readEvents]
  split
  · exact h
  · next hidle =>
    simp only [not_or,Bool.not_eq_true,Option.isSome_eq_false_iff,Option.isNone_iff_eq_none]
      at hidle
    have hrows : r.rows = [] := by rw [rows,hidle.2,Option.getD_none]
    have horder := h.order
    rw [hrows,List.append_nil] at horder
    refine ⟨?_,h.behind,fun e he => (mem_of_mem_runEventsAfter he).2.2,h.after,?_,?_,?_⟩
    · refine List.pairwise_append.mpr ⟨horder,runEventsAfter_ordered hids,fun e he e' he' => ?_⟩
      exact (h.behind e he).trans_lt (mem_of_mem_runEventsAfter he').2.2
    · intro e he
      rcases List.mem_append.mp he with he | he
      · exact h.real e (List.mem_append_left _ he)
      · obtain ⟨hm,hrun,hgt⟩ := mem_of_mem_runEventsAfter he
        exact ⟨hm,hrun,h.after.trans_lt hgt⟩
    · intro e he hrun hgt hle
      by_cases hc : e.id ≤ r.cursor
      · have hm := h.whole e he hrun hgt (hc.trans h.cursor_le)
        rw [hrows,List.append_nil] at hm
        exact List.mem_append_left _ hm
      · exact List.mem_append_right _ (mem_runEventsAfter hids he hrun (Nat.lt_of_not_le hc) hle)
    · intro hended
      exact absurd hended (by simp [hidle.1])

theorem faithful_readRun (h : r.Faithful events) {run : RunRow}
    (hnone : r.fetched = some [] → terminal run = true → runEventsAfter events r.runId r.cursor = []) :
    (r.readRun (some run)).Faithful events := by
  rw [readRun]
  split
  · exact h
  · next rows hfetched =>
    have hrows : r.rows = rows := by rw [Stream.rows,hfetched,Option.getD_some]
    have horder := h.order
    have hreal := h.real
    have hwhole := h.whole
    rw [hrows] at horder hreal hwhole
    refine ⟨?_,?_,fun e he => ?_,h.after.trans h.cursor_le,?_,?_,?_⟩
    · simpa [Stream.rows] using horder
    · intro e he
      rcases List.mem_append.mp he with he | he
      · exact (h.behind e he).trans h.cursor_le
      · rw [reached,hrows]
        exact Pages.le_reached (List.pairwise_append.mp horder).2.1 he
    · cases he
    · simpa [Stream.rows] using hreal
    · intro e he hrun hgt hle
      simpa [Stream.rows] using hwhole e he hrun hgt hle
    · intro hended
      rw [Bool.and_eq_true,List.isEmpty_iff] at hended
      refine ⟨rfl,fun e he hrun => ?_⟩
      rw [hended.2] at hfetched
      exact (le_of_runEventsAfter_eq_nil (hnone hfetched hended.1) he hrun).trans h.cursor_le

end Stream

namespace EventLog

/-- Every event has an id of its own. -/
structure Numbered (m : EventLog) : Prop where
  ids : ((m.events ++ m.pending.map (·.2)).map RunEventRow.id).Nodup
  bound : ∀ e ∈ m.events ++ m.pending.map (·.2), e.id ≤ m.sequence

variable {m : EventLog}

theorem Numbered.committed (h : m.Numbered) : (m.events.map RunEventRow.id).Nodup := by
  have hids := h.ids
  rw [List.map_append] at hids
  exact hids.of_append_left

theorem numbered_of_sublist (h : m.Numbered) {pending : List (ℕ × RunEventRow)}
    (hsub : List.Sublist pending m.pending) : Numbered {m with pending := pending} := by
  have hall : List.Sublist (m.events ++ pending.map (·.2)) (m.events ++ m.pending.map (·.2)) :=
    (hsub.map _).append_left _
  exact ⟨h.ids.sublist (hall.map _),fun e he => h.bound e (hall.subset he)⟩

theorem numbered_close (h : m.Numbered) (writer : ℕ) : (m.close writer).Numbered :=
  numbered_of_sublist h List.filter_sublist

theorem numbered_append (h : m.Numbered) (writer runId : ℕ) (eventType : String)
    (payload : Dict) : Numbered {m with
      sequence := m.sequence + 1
      pending := m.pending ++ [(writer,⟨m.sequence + 1,runId,eventType,payload⟩)]} := by
  have hids := h.ids
  have hbound := h.bound
  generalize hl : m.events ++ m.pending.map (·.2) = l at hids hbound
  have hnew : m.events ++ (m.pending ++ [(writer,(⟨m.sequence + 1,runId,eventType,payload⟩ :
      RunEventRow))]).map (·.2) = l ++ [⟨m.sequence + 1,runId,eventType,payload⟩] := by
    rw [List.map_append,← List.append_assoc,hl]
    rfl
  constructor
  · rw [hnew,List.map_append,List.map_singleton,List.nodup_append]
    refine ⟨hids,List.nodup_singleton _,fun a ha b hb hab => ?_⟩
    obtain ⟨e,he,rfl⟩ := List.mem_map.mp ha
    have hlast := hbound e he
    rw [hab,List.mem_singleton.mp hb] at hlast
    exact Nat.not_succ_le_self _ hlast
  · rw [hnew]
    intro e he
    rcases List.mem_append.mp he with he | he
    · exact Nat.le_succ_of_le (hbound e he)
    · obtain rfl := List.mem_singleton.mp he
      exact Nat.le_refl _

theorem numbered_commit (h : m.Numbered) (writer : ℕ) (s : Ledger) : Numbered
    (close {m with ledger := s, events := m.events ++ m.written writer} writer) := by
  have hperm : ((m.events ++ m.written writer) ++
      (m.pending.filter (·.1 != writer)).map (·.2)).Perm (m.events ++ m.pending.map (·.2)) := by
    rw [List.append_assoc,written,← List.map_append]
    exact ((List.filter_append_perm (·.1 == writer) m.pending).map _).append_left _
  exact ⟨(hperm.map _).nodup_iff.mpr h.ids,fun e he => h.bound e (hperm.subset he)⟩

variable [ActionRuntime]

theorem numbered_act (h : m.Numbered) (a : EventStep) : (m.act a).Numbered := by
  cases a with
  | append writer runId eventType payload => exact numbered_append h writer runId eventType payload
  | commit writer work now =>
    simp only [act]
    split
    · exact numbered_close h writer
    · split
      · exact numbered_close h writer
      · split
        · exact numbered_close h writer
        · exact numbered_commit h writer _
  | rollback writer => exact numbered_close h writer
  | connect runId after =>
    simp only [act]
    split
    · exact h
    · exact ⟨h.ids,h.bound⟩
  | readEvents => exact ⟨h.ids,h.bound⟩
  | readRun => exact ⟨h.ids,h.bound⟩
  | disconnect => exact ⟨h.ids,h.bound⟩

/-- Whether the event with which a run ended has been committed. -/
def Concluded (m : EventLog) (runId : ℕ) : Prop :=
  ∃ e ∈ m.events, e.runId = runId ∧ e.isTerminal = true

/-- The stream of a log in which every step was orderly. -/
structure Followed (m : EventLog) (r : Stream) : Prop where
  faithful : r.Faithful m.events
  known : r.runId < m.ledger.runs.length
  terminal : TerminalAt m.ledger r.runId → m.Concluded r.runId
  ended : r.ended = true → m.Concluded r.runId

omit [ActionRuntime] in
theorem Concluded.mono {runId : ℕ} (h : m.Concluded runId) {m' : EventLog}
    (hsub : ∀ e ∈ m.events, e ∈ m'.events) : m'.Concluded runId := by
  obtain ⟨e,he,hkind⟩ := h
  exact ⟨e,hsub e he,hkind⟩

theorem followed_commit {r : Stream} (h : m.Followed r) (hr : m.stream = some r) {writer : ℕ}
    {work : Work} {now : Instant} (hok : m.Orderly (.commit writer work now)) {s : Ledger}
    (hcommits : work.commits m.ledger (m.written writer) = true)
    (hs : work.apply m.ledger now = .ok s) : Followed
      (close {m with ledger := s, events := m.events ++ m.written writer} writer) r := by
  obtain ⟨hnew,hends⟩ := hok r hr
  have hold : ∀ e ∈ m.events, e ∈ m.events ++ m.written writer :=
    fun e he => List.mem_append_left _ he
  refine ⟨Stream.faithful_commit h.faithful hnew,h.known.trans_le (work_length hs),
    fun ht => ?_,fun he => (h.ended he).mono hold⟩
  rcases work_terminal hcommits hs ht with ht | he
  · exact (h.terminal ht).mono hold
  · obtain ⟨e,hwritten,hkind⟩ := work_event hcommits he (hends he)
    exact ⟨e,List.mem_append_right _ hwritten,hkind⟩

omit [ActionRuntime] in
theorem followed_readRun {r : Stream} (h : m.Followed r) (hr : m.stream = some r)
    (hok : m.Orderly .readRun) : m.Followed (r.readRun m.ledger.runs[r.runId]?) := by
  obtain ⟨run,hrun⟩ : ∃ run, m.ledger.runs[r.runId]? = some run :=
    ⟨_,List.getElem?_eq_getElem h.known⟩
  have hnone := hok r hr
  have hterminal := h.terminal
  rw [← terminalAt_iff] at hterminal
  rw [hrun,Option.any_some] at hnone hterminal
  rw [hrun]
  have hrunId : (r.readRun (some run)).runId = r.runId := by
    rw [Stream.readRun]
    split
    · rfl
    · rfl
  refine ⟨Stream.faithful_readRun h.faithful hnone,by rw [hrunId]; exact h.known,
    by rw [hrunId]; exact h.terminal,fun hended => ?_⟩
  rw [hrunId]
  rw [Stream.readRun] at hended
  split at hended
  · exact h.ended hended
  · exact hterminal ((Bool.and_eq_true _ _).mp hended).1

/-- What holds of a log and its stream, if any. -/
def Sound (m : EventLog) : Prop := m.Numbered ∧ ∀ r, m.stream = some r → m.Followed r

theorem sound_act (h : m.Sound) (a : EventStep) (hok : m.Orderly a) : (m.act a).Sound := by
  refine ⟨numbered_act h.1 a,fun r hr => ?_⟩
  cases a with
  | append writer runId eventType payload =>
    have hold := h.2 r hr
    exact ⟨hold.faithful,hold.known,hold.terminal,hold.ended⟩
  | commit writer work now =>
    have hclose : (m.close writer).stream = some r → (m.close writer).Followed r := fun hr =>
      ⟨(h.2 r hr).faithful,(h.2 r hr).known,(h.2 r hr).terminal,(h.2 r hr).ended⟩
    simp only [act] at hr ⊢
    split
    · next hno =>
      rw [if_pos hno] at hr
      exact hclose hr
    · next hcommits =>
      rw [if_neg hcommits] at hr
      rw [Bool.not_eq_false] at hcommits
      split
      · next hs =>
        rw [hs] at hr
        exact hclose hr
      · next s hs =>
        simp only [hs] at hr
        split
        · next hno =>
          rw [if_pos hno] at hr
          exact hclose hr
        · next hyes =>
          rw [if_neg hyes] at hr
          exact followed_commit (h.2 r hr) hr hok hcommits hs
  | rollback writer =>
    have hold := h.2 r hr
    exact ⟨hold.faithful,hold.known,hold.terminal,hold.ended⟩
  | connect runId after =>
    simp only [act] at hr ⊢
    split
    · next hno =>
      rw [if_pos hno] at hr
      exact h.2 r hr
    · next hyes =>
      rw [if_neg hyes] at hr
      obtain rfl := Option.some.inj hr
      refine ⟨Stream.faithful_start runId after m.events,?_,?_,fun he => by cases he⟩
      · rw [not_or,Nat.not_le] at hyes
        exact hyes.2
      · intro ht
        exact hok (terminalAt_iff.mpr ht)
  | readEvents =>
    obtain ⟨r',hr',rfl⟩ := Option.map_eq_some_iff.mp hr
    have hold := h.2 r' hr'
    have hsame : ∀ r : Stream, (r.readEvents m.events).runId = r.runId ∧
        (r.readEvents m.events).ended = r.ended := by
      intro r
      rw [Stream.readEvents]
      split
      · exact ⟨rfl,rfl⟩
      · exact ⟨rfl,rfl⟩
    refine ⟨Stream.faithful_readEvents hold.faithful h.1.committed,?_,?_,?_⟩
    · rw [(hsame r').1]
      exact hold.known
    · rw [(hsame r').1]
      exact hold.terminal
    · rw [(hsame r').1,(hsame r').2]
      exact hold.ended
  | readRun =>
    obtain ⟨r',hr',rfl⟩ := Option.map_eq_some_iff.mp hr
    have hold := followed_readRun (h.2 r' hr') hr' hok
    exact ⟨hold.faithful,hold.known,hold.terminal,hold.ended⟩
  | disconnect => cases hr

end EventLog

/-- In an orderly run a stream that has ended by itself has delivered every event of its run above
its first cursor once, in the order of the ids, the event with which the run ended among them. -/
theorem stream_complete [ActionRuntime] {m : EventLog}
    (h : Trace.Reach EventLog.act EventLog.Orderly (· = {}) m) {r : Stream}
    (hr : m.stream = some r) (hended : r.ended = true) :
    r.delivered.Pairwise (·.id < ·.id) ∧
    (∀ e, e ∈ r.delivered ↔ e ∈ m.events ∧ e.runId = r.runId ∧ r.start < e.id) ∧
    ∃ e ∈ m.events, e.runId = r.runId ∧ e.isTerminal = true ∧
      (r.start < e.id → e ∈ r.delivered) := by
  have hsound : m.Sound := by
    refine h.invariant (fun m hm => ?_) fun m a hm ha => EventLog.sound_act hm a ha
    subst hm
    exact ⟨⟨List.nodup_nil,fun e he => by cases he⟩,fun r hr => by cases hr⟩
  have hfollowed := hsound.2 r hr
  have hfaithful := hfollowed.faithful
  obtain ⟨hrows,hall⟩ := hfaithful.done hended
  have horder := hfaithful.order
  have hreal := hfaithful.real
  have hwhole := hfaithful.whole
  rw [hrows,List.append_nil] at horder hreal hwhole
  have hdelivered : ∀ e ∈ m.events, e.runId = r.runId → r.start < e.id → e ∈ r.delivered :=
    fun e he hrun hgt => hwhole e he hrun hgt ((hall e he hrun).trans hfaithful.cursor_le)
  refine ⟨horder,fun e => ⟨hreal e,fun he => hdelivered e he.1 he.2.1 he.2.2⟩,?_⟩
  obtain ⟨e,he,hrun,hkind⟩ := hfollowed.ended hended
  exact ⟨e,he,hrun,hkind,hdelivered e he hrun⟩

/-- A run that is accepted, followed and completed. -/
def followedRun : List EventStep := [
  .append 0 0 "accepted" [],
  .commit 0 (.store (.createRun none "Plan" .foreground)) 0,
  .connect 0 0,
  .append 1 0 "completed" [],
  .commit 1 (.complete 0) 1,
  .readEvents,
  .readRun,
  .readEvents,
  .readRun]

theorem stream_complete_followed : letI := plainActions
    ∃ r, (followedRun.foldl EventLog.act {}).stream = some r ∧ r.ended = true ∧
      r.delivered.map RunEventRow.id = [1,2] ∧
      (∀ e, e ∈ r.delivered ↔ e ∈ (followedRun.foldl EventLog.act {}).events ∧ e.runId = r.runId ∧
        r.start < e.id) := by
  let := plainActions
  have hread : (∀ r ∈ ((followedRun.take 6).foldl EventLog.act {}).stream,
        r.fetched.map List.isEmpty ≠ some true) ∧
      ∀ r ∈ ((followedRun.take 8).foldl EventLog.act {}).stream,
        (runEventsAfter ((followedRun.take 8).foldl EventLog.act {}).events r.runId
          r.cursor).isEmpty = true := by
    decide +kernel
  have hall : Trace.Allowed EventLog.act EventLog.Orderly {} followedRun := by
    refine ⟨trivial,fun r hr => ?_,fun h => absurd h (by decide),trivial,fun r hr => ?_,trivial,
      fun r hr hf => ?_,trivial,fun r hr _ _ => ?_,trivial⟩
    · cases hr
    · obtain rfl := Option.some.inj hr
      exact ⟨by decide,by decide⟩
    · exact absurd (congrArg (Option.map List.isEmpty) hf) (hread.1 r hr)
    · exact List.isEmpty_iff.mp (hread.2 r hr)
  have hinit : Trace.Reach EventLog.act EventLog.Orderly (· = {}) {} := .start rfl
  obtain ⟨r,hr,hended,hids⟩ : ∃ r ∈ (followedRun.foldl EventLog.act {}).stream,
      r.ended = true ∧ r.delivered.map RunEventRow.id = [1,2] := by decide +kernel
  have hdone := @stream_complete plainActions _ (hinit.run hall) r hr hended
  exact ⟨r,hr,hended,hids,hdone.2.1⟩

/-- A run that completes between the two reads of a pass. -/
def missedRun : List EventStep := [
  .append 0 0 "accepted" [],
  .commit 0 (.store (.createRun none "Plan" .foreground)) 0,
  .connect 0 0,
  .readEvents,
  .readRun,
  .readEvents,
  .append 1 0 "completed" [],
  .commit 1 (.complete 0) 1,
  .readRun]

/-- The stream of such a run ends without the event that completed it. -/
theorem stream_misses_completion : letI := plainActions
    ∃ (m : EventLog) (r : Stream) (e : RunEventRow), m.Reachable ∧ m.stream = some r ∧
      r.ended = true ∧ e ∈ m.events ∧ e.runId = r.runId ∧ r.start < e.id ∧ e.isTerminal = true ∧ e ∉ r.delivered := by
  let := plainActions
  have hreach : (missedRun.foldl EventLog.act {}).Reachable := by
    have hinit : EventLog.Reachable {} := Trace.Reach.start rfl
    exact hinit.steps missedRun
  obtain ⟨⟨r,hr,hended,hrun,hstart,hmissed⟩,e,he,hid,hof,hlast⟩ :
      (∃ r ∈ (missedRun.foldl EventLog.act {}).stream,
        r.ended = true ∧ r.runId = 0 ∧ r.start < 2 ∧ 2 ∉ r.delivered.map RunEventRow.id) ∧
      ∃ e ∈ (missedRun.foldl EventLog.act {}).events,
        e.id = 2 ∧ e.runId = 0 ∧ e.isTerminal = true := by
    decide +kernel
  exact ⟨_,r,e,hreach,hr,hended,he,hof.trans hrun.symm,hid ▸ hstart,hlast,fun hm =>
    hmissed (hid ▸ List.mem_map_of_mem hm)⟩

end Runtime
end Atlas
