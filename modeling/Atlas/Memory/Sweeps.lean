import Atlas.Memory.Discovery

/-! Discovery loses no turn: what a sweep may move its cursor past was in a window whose candidates
were taken in, whatever the chats, the purges and the other sweeps do in between. -/
namespace Atlas
namespace Memory

open RowTable

namespace Tables

variable {s s' : Tables}

theorem mem_turnsInOrder {p : TurnRow → Bool} {i : ℕ} {t : TurnRow} :
    (i,t) ∈ s.turnsInOrder p ↔ s.turns[i]? = some t ∧ p t = true := by
  rw [turnsInOrder,List.mem_insertionSort,List.mem_filterMap]
  constructor
  · rintro ⟨j,hj,h⟩
    obtain ⟨u,hu,he⟩ := Option.map_eq_some_iff.mp h
    cases he
    obtain ⟨v,hv,hp⟩ := mem_ids.mp hj
    cases Option.some.inj (hu.symm.trans hv)
    exact ⟨hu,hp⟩
  · rintro ⟨ht,hp⟩
    exact ⟨i,mem_ids.mpr ⟨t,ht,hp⟩,by rw [ht]; rfl⟩

theorem pairwise_turnsInOrder (s : Tables) (p : TurnRow → Bool) :
    (s.turnsInOrder p).Pairwise fun a b => a.2.sequence ≤ b.2.sequence := by
  have : IsTrans (ℕ × TurnRow) fun a b => a.2.sequence ≤ b.2.sequence :=
    ⟨fun _ _ _ => le_trans⟩
  have : Std.Total fun a b : ℕ × TurnRow => a.2.sequence ≤ b.2.sequence :=
    ⟨fun a b => Nat.le_total a.2.sequence b.2.sequence⟩
  exact List.pairwise_insertionSort _ _

/-- The scanned turns come before all others. -/
theorem mem_take_or_le {α : Type*} {f : α → ℕ} {l : List α}
    (hl : l.Pairwise fun a b => f a ≤ f b) {n : ℕ} {a x : α} (ha : a ∈ l.take n) (hx : x ∈ l) :
    x ∈ l.take n ∨ f a ≤ f x := by
  rw [← List.take_append_drop n l] at hl hx
  rcases List.mem_append.mp hx with hx | hx
  · exact Or.inl hx
  · exact Or.inr ((List.pairwise_append.mp hl).2.2 a ha x hx)

section

variable {config : DiscoveryConfig} {transcriptId cursor : ℕ}

theorem mem_scanTurns {i : ℕ} {t : TurnRow} (h : (i,t) ∈ s.scanTurns config transcriptId cursor) :
    s.turns[i]? = some t ∧ t.transcriptId = transcriptId ∧ cursor < t.sequence ∧
      t.deletedAt = none := by
  obtain ⟨ht,hp⟩ := mem_turnsInOrder.mp (List.mem_of_mem_take h)
  simp only [Bool.and_eq_true,beq_iff_eq,decide_eq_true_eq,Option.isNone_iff_eq_none] at hp
  exact ⟨ht,hp.1.1,hp.1.2,hp.2⟩

/-- A window has every live turn from its cursor to its last turn. -/
theorem scanTurns_complete (hs : s.Numbered) {anchor : ℕ × TurnRow}
    (ha : (s.scanTurns config transcriptId cursor).getLast? = some anchor) {i : ℕ} {t : TurnRow}
    (ht : s.turns[i]? = some t) (hd : t.deletedAt = none) (htr : t.transcriptId = transcriptId)
    (hc : cursor < t.sequence) (hle : t.sequence ≤ anchor.2.sequence) :
    (i,t) ∈ s.scanTurns config transcriptId cursor := by
  have hmem := List.mem_of_getLast? ha
  have hall : (i,t) ∈ s.turnsInOrder fun t => t.transcriptId == transcriptId &&
      decide (cursor < t.sequence) && t.deletedAt.isNone :=
    mem_turnsInOrder.mpr ⟨ht,by simp [htr,hc,hd]⟩
  refine (mem_take_or_le (f := fun r : ℕ × TurnRow => r.2.sequence)
    (pairwise_turnsInOrder s _) hmem hall).elim id fun hge => ?_
  obtain ⟨hat,hatr,_,_⟩ := mem_scanTurns hmem
  cases hs.distinct i anchor.1 t anchor.2 ht hat (htr.trans hatr.symm) (le_antisymm hle hge)
  cases Option.some.inj (ht.symm.trans hat)
  exact hmem

end

/-- The same turns and transcripts, scanned as far. -/
structure Same (s s' : Tables) : Prop where
  turns : s'.turns = s.turns
  transcripts : s'.transcripts = s.transcripts
  cursors : ∀ transcriptId, s'.cursor transcriptId = s.cursor transcriptId

theorem Same.refl (s : Tables) : Same s s := ⟨rfl,rfl,fun _ => rfl⟩

theorem Same.lastSequence (h : Same s s') (t : ℕ) : s'.lastSequence t = s.lastSequence t := by
  rw [Tables.lastSequence,Tables.lastSequence,h.transcripts]

theorem Same.extends (h : Same s s') : Extends s s' :=
  .of_same (fun t => (h.lastSequence t).ge) h.turns fun t => (h.cursors t).le

theorem Same.trans {s'' : Tables} (h : Same s s') (h' : Same s' s'') : Same s s'' :=
  ⟨h'.turns.trans h.turns,h'.transcripts.trans h.transcripts,
    fun t => (h'.cursors t).trans (h.cursors t)⟩

theorem Same.of_eq (h : s'.chronicle = s.chronicle) : Same s s' := by
  simp only [chronicle,Prod.mk.injEq] at h
  exact ⟨h.2.1,h.1,fun t => by rw [cursor,cursor,h.2.2.2.2]⟩

theorem lockedState_same (s : Tables) (transcriptId : ℕ) (now : Time) :
    Same s (s.lockedState transcriptId now) := by
  unfold lockedState
  split
  · exact .refl s
  · next h =>
    refine ⟨rfl,rfl,fun t => ?_⟩
    rw [cursor,cursor,List.find?_append]
    cases hf : s.discoveries.find? fun r => r.transcriptId == t with
    | some r => rfl
    | none =>
      by_cases ht : transcriptId = t <;> simp [ht]

theorem lockedState_any (s : Tables) (transcriptId : ℕ) (now : Time) :
    (s.lockedState transcriptId now).discoveries.any (fun r => r.transcriptId == transcriptId) =
      true := by
  unfold lockedState
  split
  · next h => exact h
  · simp

theorem setDiscovery_same (s : Tables) (transcriptId : ℕ)
    {f : DiscoveryStateRow → DiscoveryStateRow} (hf : ∀ r, (f r).transcriptId = r.transcriptId)
    (hs : ∀ r, (f r).lastScannedSequence = r.lastScannedSequence) :
    Same s (s.setDiscovery transcriptId f) := by
  refine ⟨rfl,rfl,fun t => (s.cursor_map (fun r => ?_) t).trans ?_⟩
  · split
    · exact hf r
    · rfl
  · rw [cursor]
    refine congrArg (Option.getD · 0) (congrArg (Option.map · _) (funext fun r => ?_))
    split
    · exact hs r
    · rfl

theorem touch_same (s : Tables) (transcriptId : ℕ) (now : Time) :
    Same s (s.touch transcriptId now) :=
  (s.lockedState_same transcriptId now).trans (setDiscovery_same _ _ (fun _ => rfl) fun _ => rfl)

/-- The cursors after one of them was set. -/
theorem setDiscovery_cursor {transcriptId sequence : ℕ}
    {f : DiscoveryStateRow → DiscoveryStateRow} (hf : ∀ r, (f r).transcriptId = r.transcriptId)
    (hs : ∀ r, (f r).lastScannedSequence = sequence)
    (hany : s.discoveries.any (fun r => r.transcriptId == transcriptId) = true) (t : ℕ) :
    (s.setDiscovery transcriptId f).cursor t =
      if t = transcriptId then sequence else s.cursor t := by
  refine (s.cursor_map (fun r => ?_) t).trans ?_
  · split
    · exact hf r
    · rfl
  · cases hfind : s.discoveries.find? fun r => r.transcriptId == t with
    | none =>
      have hne : t ≠ transcriptId := by
        rintro rfl
        obtain ⟨r,hr,hrt⟩ := List.any_eq_true.mp hany
        exact List.find?_eq_none.mp hfind r hr hrt
      rw [if_neg hne,cursor,hfind]
      rfl
    | some r =>
      have hr : r.transcriptId = t := by simpa using List.find?_some hfind
      by_cases ht : t = transcriptId
      · rw [if_pos ht,Option.map_some,Option.getD_some,if_pos (hr.trans ht),hs]
      · rw [if_neg ht,Option.map_some,Option.getD_some,if_neg (hr ▸ ht),cursor,hfind]
        rfl

/-- What `_advance` does: it refuses, or it moves the cursor it found unmoved. -/
theorem advance_cases (s : Tables) (transcriptId sequence expectedCursor : ℕ) (window : List ℕ)
    (sourceRevision : ℕ) (now : Time) {r : Tables × Bool}
    (hr : r = s.advance transcriptId sequence expectedCursor window sourceRevision now) :
    (r.2 = false ∧ Same s r.1) ∨
    (r.2 = true ∧ s.cursor transcriptId = expectedCursor ∧ s.liveWindow window = true ∧
      (r.1.turns = s.turns ∧ r.1.transcripts = s.transcripts) ∧
      ∀ t, r.1.cursor t = if t = transcriptId then sequence else s.cursor t) := by
  have hlock := s.lockedState_same transcriptId now
  unfold advance at hr
  extract_lets s₁ at hr
  split at hr
  · subst hr
    exact Or.inl ⟨rfl,hlock⟩
  · next hc =>
    split at hr
    · subst hr
      exact Or.inl ⟨rfl,hlock⟩
    · next hw =>
      subst hr
      refine Or.inr ⟨rfl,?_,?_,⟨hlock.turns,hlock.transcripts⟩,fun t => ?_⟩
      · exact (hlock.cursors _).symm.trans (not_not.mp hc)
      · rw [liveWindow,← hlock.turns]
        exact not_not.mp hw
      · rw [← hlock.cursors t]
        refine setDiscovery_cursor (s := s₁) ?_ ?_ (s.lockedState_any transcriptId now) t
        · exact fun _ => rfl
        · exact fun _ => rfl

/-- A purge whose rewind was not written leaves the cursor where it was. -/
theorem keepCursors_extends (h : Extends s s') (unwritten : List ℕ) :
    Extends s (s'.keepCursors unwritten s.cursor) := by
  have hcursor : ∀ t, (s'.keepCursors unwritten s.cursor).cursor t ≤ s.cursor t := fun t => by
    refine (s'.cursor_map (fun r => ?_) t).trans_le ?_
    · split <;> rfl
    · have hle := h.cursors t
      rw [cursor] at hle
      cases hfind : s'.discoveries.find? fun r => r.transcriptId == t with
      | none => exact Nat.zero_le _
      | some r =>
        have hr : r.transcriptId = t := by simpa using List.find?_some hfind
        rw [hfind] at hle
        simp only [Option.map_some,Option.getD_some]
        split
        · exact (congrArg s.cursor hr).le
        · exact hle
  exact ⟨h.sequences,h.turns,h.added,fun hn =>
    let hn' := h.numbered hn
    ⟨hn'.positive,hn'.counted,hn'.distinct⟩,hcursor⟩

end Tables

/-- A sweep that ended without moving the cursor, or after it. -/
def SweepPhase.ended : SweepPhase → Bool
  | .advanced | .skipped | .stale | .failed | .touched => true
  | _ => false

/-- A sweep that has read the cursor and may still move it. -/
def SweepPhase.reading : SweepPhase → Bool
  | .positioned | .scanned | .viewed | .discovered | .enqueued => true
  | _ => false

/-- The window is everything a sweep claims to have scanned. -/
structure Window (s : Tables) (sweep : Sweep) (upto : ℕ) : Prop where
  bounded : upto ≤ s.lastSequence sweep.transcriptId
  complete : ∀ (i : ℕ) (t : TurnRow), s.turns[i]? = some t → t.deletedAt = none →
    t.transcriptId = sweep.transcriptId → sweep.cursor < t.sequence → t.sequence ≤ upto →
    i ∈ sweep.window

/-- What the phase of a sweep says about it. -/
structure Sweep.Orderly (sweep : Sweep) : Prop where
  fresh : sweep.phase = .opened ∨ sweep.phase = .positioned → sweep.scanTurns = []
  discovered : sweep.phase = .discovered → sweep.answered = true
  enqueued : sweep.phase = .enqueued → sweep.intake = true
  intake : sweep.intake = true → sweep.answered = true

/-- One round of work of a sweep. -/
inductive Works (config : DiscoveryConfig) (m : Discovery) (sweep : Sweep) : Sweep → Prop
  | position : sweep.phase = .opened → Works config m sweep {sweep with
      cursor := m.cursor sweep.transcriptId
      moves := m.moves sweep.transcriptId
      phase := .positioned}
  | scan {phase} : sweep.phase = .positioned → phase = .skipped ∨ phase = .scanned →
      Works config m sweep {sweep with
        scanTurns := m.store.data.scanTurns config sweep.transcriptId sweep.cursor
        phase := phase}
  | later {sweep' : Sweep} :
      sweep'.transcriptId = sweep.transcriptId ∧ sweep'.cursor = sweep.cursor ∧
        sweep'.scanTurns = sweep.scanTurns ∧ sweep'.moves = sweep.moves →
      (sweep.answered = true → sweep'.answered = true) ∧
        (sweep.intake = true → sweep'.intake = true) →
      (sweep.Orderly → sweep'.Orderly) →
      (sweep.phase.ended = true → sweep'.phase.ended = true) →
      (sweep'.phase.reading = true → sweep.phase.reading = true) → Works config m sweep sweep'

namespace Discovery

variable {config : DiscoveryConfig} {m m' : Discovery}

/-- What a step does to the store and to the sweeps. -/
inductive Effect (config : DiscoveryConfig) (m : Discovery) : Sweeping → Discovery → Prop
  | idle {a} : Effect config m a m
  | store {op unwritten w} : Extends m.store.data w.data →
      Effect config m (.store op unwritten) {m with store := w}
  | opened {transcriptId sweep} : sweep.phase = .opened → sweep.Orderly →
      sweep.scanTurns = [] → Effect config m (.open transcriptId) {m with
        sweeps := m.sweeps ++ [sweep]}
  | worked {a i f sweep w} : m.sweeps[i]? = some sweep → Tables.Same m.store.data w.data →
      Works config m sweep (f sweep) → Effect config m a ({m with store := w}.setSweep i f)
  | advanced {i f now sweep anchor w} : m.sweeps[i]? = some sweep → sweep.phase = .enqueued →
      sweep.anchor = some anchor → m.cursor sweep.transcriptId = sweep.cursor →
      m.store.data.liveWindow sweep.window = true →
      w.data.turns = m.store.data.turns ∧ w.data.transcripts = m.store.data.transcripts →
      (∀ t, w.data.cursor t =
        if t = sweep.transcriptId then anchor.2.sequence else m.cursor t) →
      (∀ sweep, f sweep = {sweep with phase := .advanced}) →
      Effect config m (.advance i now) ({m with store := w}.setSweep i f)

theorem Works.fail (config : DiscoveryConfig) (m : Discovery) (sweep : Sweep) :
    Works config m sweep {sweep with phase := .failed} :=
  .later ⟨rfl,rfl,rfl,rfl⟩ ⟨id,id⟩ (fun h => ⟨by simp,by simp,by simp,h.intake⟩) (fun _ => rfl)
    nofun

variable [PyRuntime]

theorem takeIn_effect {i : ℕ} {sweep : Sweep} (hs : m.sweeps[i]? = some sweep)
    (hp : sweep.phase = .discovered) (a : Sweeping) :
    Effect config m a (takeIn config m i sweep) := by
  unfold takeIn
  split
  · exact .worked (w := m.store) hs (.refl _) (Works.fail config m sweep)
  · split
    · next store u ht =>
      refine .worked hs ?_ (.later ⟨rfl,rfl,rfl,rfl⟩ ⟨id,fun _ => rfl⟩ (fun h =>
        ⟨by simp,by simp,fun _ => rfl,fun _ => h.discovered hp⟩) (fun h => ?_) fun _ => ?_)
      · rcases transact_cases m.store fun s => .ok (s.enqueueMany sweep.proposals _,()) with
          ⟨e,he⟩ | ⟨s,b,hb,_,he⟩
        · rw [ht] at he
          cases he
        · rw [ht] at he
          cases he
          cases hb
          dsimp only
          exact .of_eq (Tables.enqueueMany_chronicle ..)
      · rw [hp] at h
        cases h
      · rw [hp]
        rfl
    · exact .worked (w := m.store) hs (.refl _) (Works.fail config m sweep)

omit [PyRuntime] in
theorem moveCursor_effect {i : ℕ} {sweep : Sweep} {now : Time} (hs : m.sweeps[i]? = some sweep)
    (hp : sweep.phase = .enqueued) :
    Effect config m (.advance i now) (m.moveCursor i sweep now) := by
  unfold moveCursor
  split
  · exact .worked (w := m.store) hs (.refl _) (Works.fail config m sweep)
  · next id anchor ha =>
    extract_lets r
    rcases m.store.data.advance_cases _ _ _ _ _ now (show r = _ from rfl) with
      ⟨hr,hsame⟩ | ⟨hr,hc,hw,hrows,hcursor⟩
    · rw [hr]
      refine .worked hs hsame (.later ⟨rfl,rfl,rfl,rfl⟩ ⟨fun h => h,fun h => h⟩ (fun h =>
        ⟨by simp,by simp,by simp,h.intake⟩) (fun _ => rfl) nofun)
    · rw [hr]
      exact .advanced hs hp ha hc hw hrows hcursor fun _ => rfl

omit [PyRuntime] in
theorem inPhase_effect {a : Sweeping} {i : ℕ} {p : SweepPhase → Bool} {f : Sweep → Discovery}
    (h : ∀ sweep, m.sweeps[i]? = some sweep → p sweep.phase = true →
      Effect config m a (f sweep)) : Effect config m a (m.inPhase i p f) := by
  unfold inPhase
  split
  · exact .idle
  · next sweep hs =>
    obtain ⟨hs,hp⟩ := Option.filter_eq_some_iff.mp hs
    exact h sweep hs hp

/-- Every step is one of the five. -/
theorem act_effect (config : DiscoveryConfig) (m : Discovery) (a : Sweeping) :
    Effect config m a (act config m a) := by
  cases a with
  | store op unwritten =>
    exact .store (Tables.keepCursors_extends (stepLoaded_extends id m.store op) unwritten)
  | «open» transcriptId =>
    simp only [act]
    split
    · exact .idle
    · exact .opened rfl ⟨fun _ => rfl,by simp,by simp,by simp⟩ rfl
  | position i =>
    simp only [act]
    refine inPhase_effect fun sweep hs hp => ?_
    exact .worked (w := m.store) hs (.refl _) (.position (by simpa using hp))
  | scan i =>
    simp only [act]
    refine inPhase_effect fun sweep hs hp => ?_
    refine .worked (w := m.store) hs (.refl _) (.scan (by simpa using hp) ?_)
    split
    · exact Or.inl rfl
    · exact Or.inr rfl
  | view i =>
    simp only [act]
    refine inPhase_effect fun sweep hs hp => ?_
    have hp : sweep.phase = .scanned := by simpa using hp
    split
    · exact .worked (w := m.store) hs (.refl _) (.later ⟨rfl,rfl,rfl,rfl⟩ ⟨id,id⟩
        (fun h => ⟨by simp,by simp,by simp,h.intake⟩) (by simp [hp,SweepPhase.ended])
        (by simp [hp,SweepPhase.reading]))
    · exact .idle
  | discover i reply =>
    simp only [act]
    refine inPhase_effect fun sweep hs hp => ?_
    have hp : sweep.phase = .viewed := by simpa using hp
    split
    · exact .worked (w := m.store) hs (.refl _) (Works.fail config m sweep)
    · exact .worked (w := m.store) hs (.refl _) (.later ⟨rfl,rfl,rfl,rfl⟩ ⟨fun _ => rfl,id⟩
        (fun h => ⟨by simp,fun _ => rfl,by simp,fun _ => rfl⟩) (by simp [hp,SweepPhase.ended])
        (by simp [hp,SweepPhase.reading]))
  | enqueue i =>
    simp only [act]
    exact inPhase_effect fun sweep hs hp => takeIn_effect hs (by simpa using hp) _
  | advance i now =>
    simp only [act]
    exact inPhase_effect fun sweep hs hp => moveCursor_effect hs (by simpa using hp)
  | fail i =>
    simp only [act]
    refine inPhase_effect fun sweep hs hp => ?_
    exact .worked (w := m.store) hs (.refl _) (Works.fail config m sweep)
  | touch i now =>
    simp only [act]
    refine inPhase_effect fun sweep hs hp => ?_
    refine .worked hs (Tables.touch_same ..) (.later ⟨rfl,rfl,rfl,rfl⟩ ⟨?_,?_⟩ (fun h =>
      ⟨?_,?_,?_,h.intake⟩) (fun _ => rfl) nofun)
    · exact fun h => h
    · exact fun h => h
    · simp
    · simp
    · simp

end Discovery

theorem Window.congr {s : Tables} {sweep sweep' : Sweep} {upto : ℕ} (h : Window s sweep upto)
    (he : sweep'.transcriptId = sweep.transcriptId ∧ sweep'.cursor = sweep.cursor ∧
      sweep'.scanTurns = sweep.scanTurns) : Window s sweep' upto where
  bounded := he.1 ▸ h.bounded
  complete i t ht hd htr hc hle := by
    rw [Sweep.window,he.2.2]
    exact h.complete i t ht hd (htr.trans he.1) (he.2.1 ▸ hc) hle

/-- A window stays complete: later turns are numbered after it, and deleted ones stay deleted. -/
theorem Window.extends {s s' : Tables} {sweep : Sweep} {upto : ℕ} (h : Window s sweep upto)
    (he : Extends s s') : Window s' sweep upto where
  bounded := h.bounded.trans (he.sequences _)
  complete i t' ht' hd htr hc hle := by
    rcases he.turn ht' with ⟨t,ht,hk⟩ | hafter
    · exact h.complete i t ht (hk.deleted hd) (hk.transcriptId.symm.trans htr) (hk.sequence ▸ hc)
        (hk.sequence ▸ hle)
    · rw [htr] at hafter
      exact absurd (hle.trans h.bounded) (Nat.not_le_of_lt hafter)

/-- The windows a sweep has read. -/
def Sweep.Windowed (s : Tables) (sweep : Sweep) : Prop :=
  ∀ anchor, sweep.anchor = some anchor → Window s sweep anchor.2.sequence

/-- A sweep that scanned a turn, whose model answered, and whose candidates were taken in. -/
def Sweep.Scanned (sweep : Sweep) (transcriptId turnId : ℕ) : Prop :=
  sweep.transcriptId = transcriptId ∧ turnId ∈ sweep.window ∧ sweep.answered = true ∧
    sweep.intake = true

namespace Works

variable {config : DiscoveryConfig} {m : Discovery} {sweep sweep' : Sweep}

theorem orderly (h : Works config m sweep sweep') (ho : sweep.Orderly) : sweep'.Orderly := by
  cases h with
  | position hp => exact ⟨fun _ => ho.fresh (Or.inl hp),by simp,by simp,ho.intake⟩
  | scan hp hq => rcases hq with rfl | rfl <;> exact ⟨by simp,by simp,by simp,ho.intake⟩
  | later _ _ h _ _ => exact h ho

theorem ended (h : Works config m sweep sweep') (he : sweep.phase.ended = true) :
    sweep'.phase.ended = true := by
  cases h with
  | position hp =>
    rw [hp] at he
    cases he
  | scan hp _ =>
    rw [hp] at he
    cases he
  | later _ _ _ h _ => exact h he

theorem scanned (h : Works config m sweep sweep') (ho : sweep.Orderly) {transcriptId turnId : ℕ}
    (hs : sweep.Scanned transcriptId turnId) : sweep'.Scanned transcriptId turnId := by
  obtain ⟨ht,hw,ha,hi⟩ := hs
  cases h with
  | position hp => exact ⟨ht,hw,ha,hi⟩
  | scan hp _ =>
    rw [Sweep.window,ho.fresh (Or.inr hp)] at hw
    cases hw
  | later he hf _ _ _ =>
    rw [Sweep.window,← he.2.2.1] at hw
    exact ⟨he.1.trans ht,hw,hf.1 ha,hf.2 hi⟩

theorem unmoved (h : Works config m sweep sweep') (hr : sweep'.phase.reading = true)
    (hc : m.cursor sweep'.transcriptId = sweep'.cursor)
    (hold : sweep.phase.reading = true → m.cursor sweep.transcriptId = sweep.cursor →
      m.moves sweep.transcriptId = sweep.moves) : m.moves sweep'.transcriptId = sweep'.moves := by
  cases h with
  | position _ => rfl
  | scan hp _ => exact hold (by rw [hp]; rfl) hc
  | later he _ _ _ hread =>
    rw [he.1,he.2.1] at hc
    rw [he.1,he.2.2.2]
    exact hold (hread hr) hc

theorem windowed (h : Works config m sweep sweep') (hn : m.store.data.Numbered)
    (ho : sweep.Orderly) (hw : sweep.Windowed m.store.data) : sweep'.Windowed m.store.data := by
  intro anchor ha
  cases h with
  | position hp =>
    rw [Sweep.anchor,show sweep.scanTurns = [] from ho.fresh (Or.inl hp)] at ha
    cases ha
  | scan hp _ =>
    obtain ⟨ht,htr,_,_⟩ := Tables.mem_scanTurns (List.mem_of_getLast? ha)
    refine ⟨?_,fun i t hi hd hit hc hle => ?_⟩
    · have hcount := hn.counted anchor.1 anchor.2 ht
      rwa [htr] at hcount
    · exact List.mem_map_of_mem (f := Prod.fst) (Tables.scanTurns_complete hn ha hi hd hit hc hle)
  | later he _ _ _ _ =>
    rw [Sweep.anchor,he.2.2.1] at ha
    exact (hw anchor ha).congr ⟨he.1,he.2.1,he.2.2.1⟩

end Works

namespace Discovery

/-- Every live turn up to the cursor of its transcript was scanned by a sweep that answered. -/
def Covered (m : Discovery) : Prop :=
  ∀ (i : ℕ) (t : TurnRow), m.store.data.turns[i]? = some t → t.deletedAt = none →
    t.sequence ≤ m.cursor t.transcriptId → ∃ sweep ∈ m.sweeps, sweep.Scanned t.transcriptId i

structure Invariant (m : Discovery) : Prop where
  numbered : m.store.data.Numbered
  bounded : ∀ t, m.cursor t ≤ m.store.data.lastSequence t
  orderly : ∀ sweep ∈ m.sweeps, sweep.Orderly
  windowed : ∀ sweep ∈ m.sweeps, sweep.Windowed m.store.data
  covered : m.Covered

variable {config : DiscoveryConfig} {m m' : Discovery} {a : Sweeping}

theorem Covered.extends (h : m.Covered) (hb : ∀ t, m.cursor t ≤ m.store.data.lastSequence t)
    {w : State} (he : Extends m.store.data w.data) : {m with store := w}.Covered := by
  intro i t' ht' hd hc
  have hle : t'.sequence ≤ m.cursor t'.transcriptId := hc.trans (he.cursors _)
  rcases he.turn ht' with ⟨t,ht,hk⟩ | hafter
  · rw [hk.transcriptId,hk.sequence] at hle
    rw [hk.transcriptId]
    exact h i t ht (hk.deleted hd) hle
  · exact absurd (hle.trans (hb _)) (Nat.not_le_of_lt hafter)

theorem Covered.setSweep (h : m.Covered) {i : ℕ} {f : Sweep → Sweep}
    (hf : ∀ sweep, m.sweeps[i]? = some sweep → ∀ t id, sweep.Scanned t id →
      (f sweep).Scanned t id) : (m.setSweep i f).Covered := by
  intro j t ht hd hc
  obtain ⟨sweep,hs,hscan⟩ := h j t ht hd hc
  obtain ⟨k,hk⟩ := List.mem_iff_getElem?.mp hs
  by_cases hi : i = k
  · subst hi
    refine ⟨f sweep,List.mem_of_getElem? (i := i) ?_,hf sweep hk _ _ hscan⟩
    rw [Discovery.setSweep,getElem?_modify_self,hk]
    rfl
  · refine ⟨sweep,List.mem_of_getElem? (i := k) ?_,hscan⟩
    rw [Discovery.setSweep,getElem?_modify_ne _ _ hi]
    exact hk

theorem forall_setSweep {p : Sweep → Prop} (h : ∀ sweep ∈ m.sweeps, p sweep) {i : ℕ}
    {f : Sweep → Sweep} (hf : ∀ sweep, m.sweeps[i]? = some sweep → p (f sweep)) :
    ∀ sweep ∈ (m.setSweep i f).sweeps, p sweep := by
  intro sweep hs
  rcases mem_modify hs with hs | ⟨before,hb,rfl⟩
  · exact h sweep hs
  · exact hf before hb

/-- What lies between the cursor and the new one was in the window of the sweep that moved it. -/
theorem Covered.advanced (h : m.Invariant) {i : ℕ} {sweep : Sweep} {anchor : ℕ × TurnRow}
    {w : State} (hs : m.sweeps[i]? = some sweep) (hp : sweep.phase = .enqueued)
    (ha : sweep.anchor = some anchor) (hc : m.cursor sweep.transcriptId = sweep.cursor)
    (hrows : w.data.turns = m.store.data.turns) (hcursor : ∀ t, w.data.cursor t =
      if t = sweep.transcriptId then anchor.2.sequence else m.cursor t) :
    {m with store := w}.Covered := by
  intro j t ht hd hle
  have ht : m.store.data.turns[j]? = some t := hrows ▸ ht
  change t.sequence ≤ w.data.cursor t.transcriptId at hle
  rw [hcursor] at hle
  have hmem := List.mem_of_getElem? hs
  by_cases htr : t.transcriptId = sweep.transcriptId
  · rw [if_pos htr] at hle
    by_cases hseen : t.sequence ≤ m.cursor t.transcriptId
    · exact h.covered j t ht hd hseen
    · have hintake := (h.orderly sweep hmem).enqueued hp
      refine ⟨sweep,hmem,htr.symm,?_,(h.orderly sweep hmem).intake hintake,hintake⟩
      refine (h.windowed sweep hmem anchor ha).complete j t ht hd htr ?_ hle
      rw [htr,hc] at hseen
      exact Nat.lt_of_not_le hseen
  · rw [if_neg htr] at hle
    exact h.covered j t ht hd hle

theorem Effect.invariant (he : Effect config m a m') (h : m.Invariant) : m'.Invariant := by
  cases he with
  | idle => exact h
  | store he =>
    exact ⟨he.numbered h.numbered,fun t =>
      (he.cursors t).trans ((h.bounded t).trans (he.sequences t)),h.orderly,
      fun sweep hs anchor ha => (h.windowed sweep hs anchor ha).extends he,
      h.covered.extends h.bounded he⟩
  | opened hp ho hw =>
    refine ⟨h.numbered,h.bounded,fun s hs => ?_,fun s hs => ?_,fun i t ht hd hc => ?_⟩
    · rcases List.mem_append.mp hs with hs | hs
      · exact h.orderly s hs
      · cases List.mem_singleton.mp hs
        exact ho
    · rcases List.mem_append.mp hs with hs | hs
      · exact h.windowed s hs
      · cases List.mem_singleton.mp hs
        intro anchor ha
        rw [Sweep.anchor,hw] at ha
        cases ha
    · obtain ⟨s,hs,hscan⟩ := h.covered i t ht hd hc
      exact ⟨s,List.mem_append_left _ hs,hscan⟩
  | worked hs hsame hwork =>
    have he := hsame.extends
    have ho := h.orderly _ (List.mem_of_getElem? hs)
    refine ⟨he.numbered h.numbered,fun t =>
      (he.cursors t).trans ((h.bounded t).trans (he.sequences t)),
      forall_setSweep h.orderly fun s hs' => ?_,forall_setSweep
        (fun s hs' anchor ha => (h.windowed s hs' anchor ha).extends he) fun s hs' => ?_,
      (h.covered.extends h.bounded he).setSweep fun s hs' t id hscan => ?_⟩
    · cases Option.some.inj (hs.symm.trans hs')
      exact hwork.orderly ho
    · cases Option.some.inj (hs.symm.trans hs')
      exact fun anchor ha => (hwork.windowed h.numbered ho
        (h.windowed _ (List.mem_of_getElem? hs)) anchor ha).extends he
    · cases Option.some.inj (hs.symm.trans hs')
      exact hwork.scanned ho hscan
  | @advanced i f now sweep anchor w hs hp ha hc _ hrows hcursor hf =>
    have hmem := List.mem_of_getElem? hs
    have hlast : ∀ t, w.data.lastSequence t = m.store.data.lastSequence t := fun t => by
      rw [Tables.lastSequence,Tables.lastSequence,hrows.2]
    have hwindow : ∀ (s : Sweep) (u : ℕ), Window m.store.data s u → Window w.data s u :=
      fun s u hw => ⟨(hlast _).symm ▸ hw.bounded,fun i t ht => hw.complete i t (hrows.1 ▸ ht)⟩
    refine ⟨?_,fun t => ?_,forall_setSweep h.orderly fun s hs' => ?_,
      forall_setSweep (fun s hs' anchor ha => hwindow s _ (h.windowed s hs' anchor ha))
        fun s hs' => ?_,(Covered.advanced h hs hp ha hc hrows.1 hcursor).setSweep
        fun s hs' t id hscan => ?_⟩
    · refine ⟨fun i t ht => h.numbered.positive i t (hrows.1 ▸ ht),fun i t ht => ?_,
        fun i j t u ht hu => h.numbered.distinct i j t u (hrows.1 ▸ ht) (hrows.1 ▸ hu)⟩
      exact (h.numbered.counted i t (hrows.1 ▸ ht)).trans (hlast _).ge
    · refine (hcursor t).trans_le ((?_ : _ ≤ m.store.data.lastSequence t).trans (hlast t).ge)
      split
      · next ht => exact ht ▸ (h.windowed sweep hmem anchor ha).bounded
      · exact h.bounded t
    · rw [hf]
      exact ⟨by simp,by simp,by simp,(h.orderly s (List.mem_of_getElem? hs')).intake⟩
    · rw [hf]
      exact fun anchor ha => (hwindow s _ (h.windowed s (List.mem_of_getElem? hs') anchor ha)).congr
        ⟨rfl,rfl,rfl⟩
    · rw [hf]
      exact hscan

/-- A step brings a cursor back to where an unfinished sweep read it before it moved. -/
def Returns (m m' : Discovery) : Prop :=
  ∃ sweep ∈ m.sweeps, sweep.phase.reading = true ∧ m'.cursor sweep.transcriptId = sweep.cursor ∧
    m.cursor sweep.transcriptId ≠ sweep.cursor

instance (m m' : Discovery) : Decidable (Returns m m') :=
  inferInstanceAs (Decidable (∃ _ ∈ _, _))

/-- The cursors have not moved since the sweeps that stand on them read them. -/
def Unmoved (m : Discovery) : Prop :=
  ∀ sweep ∈ m.sweeps, sweep.phase.reading = true → m.cursor sweep.transcriptId = sweep.cursor →
    m.moves sweep.transcriptId = sweep.moves

/-- A sweep that may move the cursor of a transcript, with what `_advance` checked. -/
structure Advance (m : Discovery) (a : Sweeping) (t : ℕ) (sweep : Sweep) : Prop where
  action : ∃ i now, a = .advance i now ∧ m.sweeps[i]? = some sweep
  transcript : sweep.transcriptId = t
  succeeded : sweep.phase = .enqueued ∧ sweep.answered = true ∧ sweep.intake = true
  cursor : m.cursor t = sweep.cursor
  window : m.store.data.liveWindow sweep.window = true

/-- Only an advance moves a cursor forward. -/
theorem Effect.raised (he : Effect config m a m') (h : m.Invariant) {t : ℕ}
    (hlt : m.cursor t < m'.cursor t) : ∃ sweep, Advance m a t sweep := by
  cases he with
  | idle => exact absurd hlt (lt_irrefl _)
  | store he => exact absurd hlt (Nat.not_lt_of_le (he.cursors t))
  | opened => exact absurd hlt (lt_irrefl _)
  | worked _ hsame _ => exact absurd hlt (Nat.not_lt_of_le (hsame.cursors t).le)
  | @advanced i _ now sweep _ w hs hp _ hc hw _ hcursor _ =>
    have horderly := h.orderly sweep (List.mem_of_getElem? hs)
    have hintake := horderly.enqueued hp
    by_cases ht : t = sweep.transcriptId
    · subst ht
      exact ⟨sweep,⟨i,now,rfl,hs⟩,rfl,⟨hp,horderly.intake hintake,hintake⟩,hc,hw⟩
    · refine absurd (hlt.trans_eq ?_) (lt_irrefl _)
      exact (hcursor t).trans (if_neg ht)

theorem Effect.ended (he : Effect config m a m') {i : ℕ} {sweep : Sweep}
    (hs : m.sweeps[i]? = some sweep) (hp : sweep.phase.ended = true) :
    ∃ sweep', m'.sweeps[i]? = some sweep' ∧ sweep'.phase.ended = true := by
  have hset : ∀ (w : State) (j : ℕ) (f : Sweep → Sweep),
      (∀ s, m.sweeps[j]? = some s → s.phase.ended = true → (f s).phase.ended = true) →
      ∃ sweep', ({m with store := w}.setSweep j f).sweeps[i]? = some sweep' ∧
        sweep'.phase.ended = true := fun w j f hf => by
    by_cases hj : j = i
    · subst hj
      exact ⟨f sweep,by rw [setSweep,getElem?_modify_self,hs]; rfl,hf sweep hs hp⟩
    · exact ⟨sweep,by rw [setSweep,getElem?_modify_ne _ _ hj]; exact hs,hp⟩
  cases he with
  | idle => exact ⟨sweep,hs,hp⟩
  | store => exact ⟨sweep,hs,hp⟩
  | opened => exact ⟨sweep,getElem?_insert_of_some hs,hp⟩
  | worked hs' _ hwork =>
    refine hset _ _ _ fun s hsj hended => ?_
    cases Option.some.inj (hs'.symm.trans hsj)
    exact hwork.ended hended
  | advanced _ _ _ _ _ _ _ hf =>
    exact hset _ _ _ fun s _ _ => by rw [hf]; rfl

/-- What the sweeps know of the cursors after a step that returns to none of them. -/
theorem Effect.unmoved (he : Effect config m a m') (h : m.Unmoved) (hr : ¬Returns m m')
    {moves : ℕ → ℕ}
    (hm : ∀ t, m'.cursor t = m.cursor t → moves t = m.moves t) :
    {m' with moves := moves}.Unmoved := by
  have hold : ∀ sweep ∈ m.sweeps, sweep.phase.reading = true →
      m'.cursor sweep.transcriptId = sweep.cursor → moves sweep.transcriptId = sweep.moves := by
    intro sweep hs hp hc
    by_cases hsame : m.cursor sweep.transcriptId = sweep.cursor
    · rw [hm _ (hc.trans hsame.symm)]
      exact h sweep hs hp hsame
    · exact absurd ⟨sweep,hs,hp,hc,hsame⟩ hr
  cases he with
  | idle => exact hold
  | store => exact hold
  | opened hp _ _ =>
    intro s hs hreading hc
    rcases List.mem_append.mp hs with hs | hs
    · exact hold s hs hreading hc
    · cases List.mem_singleton.mp hs
      rw [hp] at hreading
      cases hreading
  | worked hs hsame hwork =>
    refine forall_setSweep hold fun s hsj hreading hc => ?_
    cases Option.some.inj (hs.symm.trans hsj)
    rw [hm _ (hsame.cursors _)]
    exact hwork.unmoved hreading ((hsame.cursors _).symm.trans hc) (h _ (List.mem_of_getElem? hs))
  | advanced _ _ _ _ _ _ _ hf =>
    refine forall_setSweep hold fun s _ hreading => ?_
    rw [hf] at hreading
    cases hreading

variable [PyRuntime]

/-- A store before its first sweep. -/
structure Initial (m : Discovery) : Prop where
  store : Memory.Initial m.store
  numbered : m.store.data.Numbered
  discoveries : m.store.data.discoveries = []
  sweeps : m.sweeps = []

/-- The steps a run may take. -/
def Legal (m : Discovery) : Sweeping → Prop
  | .store op _ => Memory.Legal m.store op
  | _ => True

instance (m : Discovery) : (a : Sweeping) → Decidable (m.Legal a)
  | .store op _ => inferInstanceAs (Decidable (Memory.Legal m.store op))
  | .open _ | .position _ | .scan _ | .view _ | .discover .. | .enqueue _ | .advance .. | .fail _
  | .touch .. => .isTrue trivial

abbrev Reachable (config : DiscoveryConfig) (ok : Discovery → Sweeping → Prop) : Discovery → Prop :=
  Trace.Reach (next config) (fun m a => m.Legal a ∧ ok m a) Initial

/-- A step that brings no cursor back under a sweep that read it earlier. -/
def NoReturn (config : DiscoveryConfig) (m : Discovery) (a : Sweeping) : Prop :=
  ¬Returns m (next config m a)

omit [PyRuntime] in
instance {runtime : PyRuntime} (m : Discovery) (a : Sweeping) : Decidable (NoReturn config m a) :=
  inferInstanceAs (Decidable (¬Returns m (next config m a)))

/-- The discovery a list of steps leaves of a fresh installation. -/
def swept (config : DiscoveryConfig) (as : List Sweeping) : Discovery :=
  as.foldl (next config) {store := emptyStore}

theorem swept_reachable {ok : Discovery → Sweeping → Prop} {as : List Sweeping}
    (h : Trace.Allowed (next config) (fun m a => m.Legal a ∧ ok m a) {store := emptyStore} as) :
    Reachable config ok (swept config as) := by
  have hnone : ∀ (i : ℕ) (t : TurnRow), emptyStore.data.turns[i]? ≠ some t := nofun
  exact Trace.Reach.run (.start ⟨emptyStore_initial,⟨fun i t ht => absurd ht (hnone i t),
    fun i t ht => absurd ht (hnone i t),fun i _ t _ ht => absurd ht (hnone i t)⟩,rfl,rfl⟩) h

omit [PyRuntime] in
theorem Initial.invariant (h : m.Initial) : m.Invariant where
  numbered := h.numbered
  bounded t := by
    rw [cursor,Tables.cursor,h.discoveries]
    exact Nat.zero_le _
  orderly s hs := by
    rw [h.sweeps] at hs
    cases hs
  windowed s hs := by
    rw [h.sweeps] at hs
    cases hs
  covered i t ht _ hc := by
    rw [cursor,Tables.cursor,h.discoveries] at hc
    exact absurd (h.numbered.positive i t ht) (Nat.not_lt_of_le hc)

theorem next_invariant (config : DiscoveryConfig) (a : Sweeping) (h : m.Invariant) :
    (next config m a).Invariant :=
  let hi := (act_effect config m a).invariant h
  ⟨hi.numbered,hi.bounded,hi.orderly,hi.windowed,hi.covered⟩

theorem reachable_unmoved (h : Reachable config (NoReturn config) m) : m.Unmoved := by
  induction h with
  | start h =>
    intro sweep hs
    rw [h.sweeps] at hs
    cases hs
  | next _ ha ih => exact (act_effect config _ _).unmoved ih ha.2 fun t ht => if_pos ht

/-- The sweeps a run leaves ended stay so. -/
theorem path_ended {m m' : Discovery}
    (hp : Trace.Path (next config) (fun m a => m.Legal a ∧ True) m m') {i : ℕ} {sweep : Sweep}
    (hs : m.sweeps[i]? = some sweep) (he : sweep.phase.ended = true) :
    ∃ sweep', m'.sweeps[i]? = some sweep' ∧ sweep'.phase.ended = true := by
  induction hp with
  | refl => exact ⟨sweep,hs,he⟩
  | @tail t a _ _ ih =>
    obtain ⟨sweep',hs',he'⟩ := ih
    exact (act_effect config t a).ended hs' he'

/-- Discovery loses no turn: every live turn up to the cursor was in the window of a sweep whose
model answered and whose candidates were taken in. Only such a sweep moves a cursor forward, with
its window live and the cursor where it read it; a sweep that failed or was stale never does. In
runs that bring no cursor back under a sweep, the cursor had not moved since the sweep read it. -/
theorem discovery_loses_no_turn (h : Reachable config (fun _ _ => True) m) :
    m.Covered ∧
    (∀ a t, m.cursor t < (next config m a).cursor t → ∃ sweep, Advance m a t sweep ∧
      (Reachable config (NoReturn config) m → m.moves t = sweep.moves)) ∧
    (∀ (i : ℕ) (sweep : Sweep), m.sweeps[i]? = some sweep → sweep.phase.ended = true →
      ∀ m', Trace.Path (next config) (fun m a => m.Legal a ∧ True) m m' →
        ∃ sweep', m'.sweeps[i]? = some sweep' ∧ sweep'.phase.ended = true) := by
  have hinv : m.Invariant := h.invariant (fun _ hi => hi.invariant)
    fun _ a hi _ => next_invariant config a hi
  refine ⟨hinv.covered,fun a t hlt => ?_,fun i sweep hs he m' hp => path_ended hp hs he⟩
  obtain ⟨sweep,hadv⟩ := (act_effect config m a).raised hinv hlt
  refine ⟨sweep,hadv,fun hr => ?_⟩
  obtain ⟨i,now,_,hs⟩ := hadv.action
  have hunmoved := reachable_unmoved hr sweep (List.mem_of_getElem? hs)
    (by rw [hadv.succeeded.1]; rfl) (hadv.transcript.symm ▸ hadv.cursor)
  rw [← hadv.transcript]
  exact hunmoved

/-- A sweep of two turns, up to its last transaction. -/
def sweptOnce : List Sweeping :=
  [.store (.getOrCreateActive 0) [],.store (.appendTurn 0 .owner [textBlock "I like tea"] 1) [],
    .store (.appendTurn 0 .owner [textBlock "and mate"] 2) [],.open 0,.position 0,.scan 0,.view 0,
    .discover 0 (some []),.enqueue 0]

omit [PyRuntime] in
theorem discovery_loses_no_turn_once :
    letI := plainRuntime
    let m := swept {} sweptOnce
    m.Covered ∧ ∃ sweep, Advance m (.advance 0 3) 0 sweep ∧ m.moves 0 = sweep.moves := by
  obtain ⟨hrun,hspared,hlt⟩ : letI := plainRuntime
    let m := swept {} sweptOnce
    Trace.Allowed (next {}) (fun m a => m.Legal a ∧ True) {store := emptyStore} sweptOnce ∧
      Trace.Allowed (next {}) (fun m a => m.Legal a ∧ NoReturn {} m a) {store := emptyStore}
        sweptOnce ∧ m.cursor 0 < (next {} m (.advance 0 3)).cursor 0 := by
    rw [plainRuntime_eq]
    decide +kernel
  have h := @discovery_loses_no_turn {} _ plainRuntime
    (@swept_reachable {} plainRuntime _ sweptOnce hrun)
  obtain ⟨sweep,hadv,hm⟩ := h.2.1 (.advance 0 3) 0 hlt
  exact ⟨h.1,sweep,hadv,hm (@swept_reachable {} plainRuntime _ sweptOnce hspared)⟩

/-- Two sweeps read one cursor. The first one moves it, and the second purge of a redacted turn
brings it back. -/
def overtaken : List Sweeping :=
  [.store (.getOrCreateActive 0) [],
    .store (.appendTurn 0 .owner [textBlock "I like tea",textBlock "and mate"] 1) [],
    .store (.appendTurn 0 .owner [textBlock "hello"] 2) [],
    .store (.delete {content := some "tea"} none 3) [],
    .open 0,.position 0,.scan 0,.view 0,.discover 0 (some []),.enqueue 0,
    .open 0,.position 1,.scan 1,.view 1,.discover 1 (some []),.enqueue 1,.advance 0 4,
    .store (.delete {content := some "mate"} none 5) []]

omit [PyRuntime] in
/-- The sweep that was overtaken moves the cursor all the same. -/
theorem overtaken_sweep_advances :
    letI := plainRuntime
    ¬∀ m, Reachable {} (fun _ _ => True) m → ∀ a t, m.cursor t < (next {} m a).cursor t →
      ∃ sweep, Advance m a t sweep ∧ m.moves t = sweep.moves := by
  intro h
  obtain ⟨hrun,hlt,hread,hmoved⟩ : letI := plainRuntime
    let m := swept {} overtaken
    Trace.Allowed (next {}) (fun m a => m.Legal a ∧ True) {store := emptyStore} overtaken ∧
      m.cursor 0 < (next {} m (.advance 1 6)).cursor 0 ∧
      (m.sweeps[1]?).map (·.moves) = some 0 ∧ m.moves 0 = 2 := by
    rw [plainRuntime_eq]
    decide +kernel
  obtain ⟨sweep,hadv,hm⟩ := h (@swept plainRuntime {} overtaken)
    (@swept_reachable {} plainRuntime _ overtaken hrun) (.advance 1 6) 0 hlt
  obtain ⟨i,now,ha,hs⟩ := hadv.action
  cases ha
  rw [hs] at hread
  rw [hmoved] at hm
  cases hread.symm.trans (congrArg some hm.symm)

end Discovery

end Memory
end Atlas
