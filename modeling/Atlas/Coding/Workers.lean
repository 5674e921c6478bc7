import Atlas.Coding.Sessions

/-! At most one worker of a session is alive. The record in the file names the process group of
the only launch that may still have processes, and a turn is launched after the group was seen
to be gone. -/
namespace Atlas
namespace Coding

open Actions Dialogue Memory

/-- A live process of a turn of the session. -/
def Working (p : Process) : Prop := p.zombie = false ∧ p.turn.isSome

/-- No worker of the session is alive. -/
def Idle (h : Host) : Prop := ∀ p ∈ h.table, ¬Working p

/-- All live workers belong to one launch: they are of one turn and in one process group. -/
def OneWorker (h : Host) : Prop :=
  ∀ p ∈ h.table, ∀ q ∈ h.table, Working p → Working q → p.turn = q.turn ∧ p.group = q.group

/-- Every live worker is of the given launch, and its group still has the number of the leader. -/
def Covers (turn pid : ℕ) (startTime : Option ℕ) (h : Host) : Prop :=
  ∀ p ∈ h.table, Working p → p.turn = some turn ∧ p.group = pid ∧
    ∀ q ∈ h.table, q.pid = pid → startTime = none ∨ startTime = some q.startTime

structure Sane (h : Host) : Prop where
  pids : (h.table.map (·.pid)).Nodup
  one : OneWorker h

/-- What a record says about the workers that are alive. -/
def Guards (record : Session) (h : Host) : Prop :=
  match record.runs.getLast? with
  | none => Idle h ∧ record.codexThreadId = none
  | some run => run.pid ≠ 0 ∧ run.processGroup = run.pid ∧
      Covers run.turn run.pid run.procStartTime h

/-- What the file says about the workers that are alive. -/
def Linked (h : Host) : Prop :=
  match h.file with
  | none => Idle h
  | some record => Guards record h

/-- A process that was there before. -/
structure Older (h : Host) (p : Process) (q : Process) : Prop where
  mem : p ∈ h.table
  pid : q.pid = p.pid
  group : q.group = p.group
  startTime : q.startTime = p.startTime
  turn : q.turn = p.turn
  live : q.zombie = false → p.zombie = false

/-- A process with a new number; a worker among them is the child of a worker. -/
structure Newer (h : Host) (q : Process) : Prop where
  free : ∀ p ∈ h.table, p.pid ≠ q.pid ∧ p.group ≠ q.pid
  parent : Working q → ∃ p ∈ h.table, Working p ∧ q.turn = p.turn ∧ q.group = p.group

theorem free_iff {h : Host} {pid : ℕ} :
    h.free pid = true ↔ pid ≠ 0 ∧ ∀ p ∈ h.table, p.pid ≠ pid ∧ p.group ≠ pid := by
  simp [Host.free,List.all_eq_true]

/-- What the process table may become by itself. -/
theorem stir_table {h : Host} (e : Happening) {q : Process} (hq : q ∈ (h.stir e).table) :
    (∃ p, Older h p q) ∨ Newer h q := by
  have hsame : q ∈ h.table → ∃ p, Older h p q := fun hm => ⟨q,hm,rfl,rfl,rfl,rfl,id⟩
  cases e with
  | exit pid =>
    left
    simp only [Host.stir,List.mem_map] at hq
    rcases hq with ⟨p,hp,rfl⟩
    refine ⟨p,hp,?_,?_,?_,?_,?_⟩ <;> split <;> simp
  | reap pid =>
    left
    simp only [Host.stir,List.mem_filter] at hq
    exact hsame hq.1
  | fork parent child startTime =>
    simp only [Host.stir] at hq
    split at hq
    · next p hp =>
      split at hq
      · next hfree =>
        rcases List.mem_append.mp hq with hq | hq
        · exact Or.inl (hsame hq)
        · right
          rw [List.mem_singleton] at hq
          subst hq
          refine ⟨(free_iff.mp hfree).2,fun hw => ?_⟩
          have hlive := List.find?_some hp
          simp only [Bool.and_eq_true,Bool.not_eq_true'] at hlive
          exact ⟨p,List.mem_of_find?_eq_some hp,⟨hlive.2,hw.2⟩,rfl,rfl⟩
      · exact Or.inl (hsame hq)
    · exact Or.inl (hsame hq)
  | arrive pid startTime =>
    simp only [Host.stir] at hq
    split at hq
    · next hfree =>
      rcases List.mem_append.mp hq with hq | hq
      · exact Or.inl (hsame hq)
      · right
        rw [List.mem_singleton] at hq
        subst hq
        exact ⟨(free_iff.mp hfree).2,fun hw => absurd hw.2 (by simp)⟩
    · exact Or.inl (hsame hq)
  | output turn event =>
    left
    simp only [Host.stir] at hq
    split at hq <;> exact hsame hq
  | tick clock => exact Or.inl (hsame hq)
  | offer pid startTime => exact Or.inl (hsame hq)

@[simp] theorem stir_file (h : Host) (e : Happening) : (h.stir e).file = h.file := by
  cases e <;> simp only [Host.stir] <;> (repeat' split) <;> rfl

@[simp] theorem stir_launched (h : Host) (e : Happening) : (h.stir e).launched = h.launched := by
  cases e <;> simp only [Host.stir] <;> (repeat' split) <;> rfl

theorem stir_pids {h : Host} (e : Happening) (hn : (h.table.map (·.pid)).Nodup) :
    ((h.stir e).table.map (·.pid)).Nodup := by
  have hadd : ∀ {p : Process}, h.free p.pid = true →
      ((h.table ++ [p]).map (·.pid)).Nodup := by
    intro p hp
    rw [List.map_append,List.nodup_append]
    refine ⟨hn,by simp,?_⟩
    intro a ha b hb hab
    rcases List.mem_map.mp ha with ⟨q,hq,rfl⟩
    simp only [List.map_cons,List.map_nil,List.mem_singleton] at hb
    exact ((free_iff.mp hp).2 q hq).1 (hab.trans hb)
  cases e with
  | exit pid =>
    have : (fun p : Process => (if p.pid = pid then {p with zombie := true} else p).pid) =
        (·.pid) := by
      funext p
      split <;> rfl
    simpa only [Host.stir,List.map_map,Function.comp_def,this] using hn
  | reap pid => exact hn.sublist (List.filter_sublist.map _)
  | fork parent child startTime =>
    simp only [Host.stir]
    split
    · split
      · next hfree => exact hadd hfree
      · exact hn
    · exact hn
  | arrive pid startTime =>
    simp only [Host.stir]
    split
    · next hfree => exact hadd hfree
    · exact hn
  | output turn event =>
    simp only [Host.stir]
    split <;> exact hn
  | tick clock => exact hn
  | offer pid startTime => exact hn

/-- A worker that is alive has a forebear that was. -/
theorem stir_working {h : Host} (e : Happening) {q : Process} (hq : q ∈ (h.stir e).table)
    (hw : Working q) : ∃ p ∈ h.table, Working p ∧ q.turn = p.turn ∧ q.group = p.group := by
  rcases stir_table e hq with ⟨p,hp⟩ | hnew
  · exact ⟨p,hp.mem,⟨hp.live hw.1,hp.turn ▸ hw.2⟩,hp.turn,hp.group⟩
  · exact hnew.parent hw

theorem idle_stable : world.Stable Idle := by
  intro h e hi q hq hw
  rcases stir_working e hq hw with ⟨p,hp,hpw,-,-⟩
  exact hi p hp hpw

theorem covers_stable (turn pid : ℕ) (startTime : Option ℕ) :
    world.Stable (Covers turn pid startTime) := by
  intro h e hc q hq hw
  rcases stir_working e hq hw with ⟨p,hp,hpw,hturn,hgroup⟩
  have hcp := hc p hp hpw
  refine ⟨hturn.trans hcp.1,hgroup.trans hcp.2.1,fun r hr hpid => ?_⟩
  rcases stir_table e hr with ⟨o,ho⟩ | hnew
  · rw [ho.startTime]
    exact hcp.2.2 o ho.mem (ho.pid ▸ hpid)
  · exact absurd (hcp.2.1.trans hpid.symm) (hnew.free p hp).2

theorem sane_stable : world.Stable Sane := by
  intro h e hs
  refine ⟨stir_pids e hs.pids,fun q hq r hr hqw hrw => ?_⟩
  rcases stir_working e hq hqw with ⟨p,hp,hpw,hturn,hgroup⟩
  rcases stir_working e hr hrw with ⟨o,ho,how,hoturn,hogroup⟩
  rw [hturn,hoturn,hgroup,hogroup]
  exact hs.one p hp o ho hpw how

theorem file_stable (file : Option Session) : world.Stable fun h => h.file = file := by
  intro h e hf
  exact (stir_file h e).trans hf

theorem guards_stable (record : Session) : world.Stable (Guards record) := by
  unfold Guards
  split
  · exact fun h e hg => ⟨idle_stable h e hg.1,hg.2⟩
  · exact fun h e hg => ⟨hg.1,hg.2.1,covers_stable _ _ _ h e hg.2.2⟩

theorem linked_stable : world.Stable Linked := by
  intro h e hl
  unfold Linked at hl ⊢
  rw [show (world.stir h e).file = h.file from stir_file h e]
  split at hl
  · next hf => simpa only [hf] using idle_stable h e hl
  · next record hf => simpa only [hf] using guards_stable record h e hl

end Coding
end Atlas
