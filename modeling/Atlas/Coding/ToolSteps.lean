import Atlas.Coding.Workers

/-! What the parts of a call keep, whatever the host does in between: an assertion that the host
by itself does not undo survives them, and a group that was seen to be gone had no worker left. -/
namespace Atlas
namespace Coding

open Actions Dialogue World Memory

/-- An assertion under which a group is that of the only launch that may have workers. -/
def Tells (F : Host → Prop) (pid group : ℕ) (startTime : Option ℕ) : Prop :=
  pid ≠ 0 ∧ group = pid ∧ ∃ turn, ∀ h, F h → Covers turn pid startTime h

/-- A live leader with another birth time is no worker, nor has its group any. -/
theorem Covers.idle_of_leader {turn pid : ℕ} {startTime : Option ℕ} {h : Host}
    (hc : Covers turn pid startTime h) {q : Process} (hq : q ∈ h.table) (hpid : q.pid = pid)
    (hn : startTime ≠ none) (hs : startTime ≠ some q.startTime) : Idle h := by
  intro p hp hw
  rcases (hc p hp hw).2.2 q hq hpid with h' | h'
  · exact hn h'
  · exact hs h'

theorem Covers.idle_of_members {turn pid : ℕ} {startTime : Option ℕ} {h : Host}
    (hc : Covers turn pid startTime h)
    (hm : (h.table.filter fun p => p.group == pid && !p.zombie) = []) : Idle h := by
  intro p hp hw
  have := List.filter_eq_nil_iff.mp hm p hp
  rw [(hc p hp hw).2.1,hw.1] at this
  simp at this

/-- What a look at the group tells: the assertion still holds, and if the group was gone then no
worker is left. -/
def Looked (F : Host → Prop) (pid group : ℕ) (startTime : Option ℕ) (alive : Bool) (t : Host) :
    Prop :=
  F t ∧ (alive = false → Tells F pid group startTime → Idle t)

/-- Whatever ends well has seen that no process of the group is left. -/
def Stopped (F : Host → Prop) (pid group : ℕ) (startTime : Option ℕ) :
    Except Failure Unit → Host → Prop :=
  fun r t => F t ∧ (r = .ok () → Tells F pid group startTime → Idle t)

section

variable {I F : Host → Prop} {s : Host} (hF : world.Stable F) (hI : ∀ h, F h → I h)
include hF

theorem looked_stable (pid group : ℕ) (startTime : Option ℕ) (alive : Bool) :
    world.Stable (Looked F pid group startTime alive) := hF.and ((idle_stable.imp _).imp _)

theorem stopped_stable (pid group : ℕ) (startTime : Option ℕ) (r : Except Failure Unit) :
    world.Stable (Stopped F pid group startTime r) := hF.and ((idle_stable.imp _).imp _)

include hI

theorem looked_keeps {pid group : ℕ} {startTime : Option ℕ} {alive : Bool}
    (h : Looked F pid group startTime alive s) :
    world.Keeps I (Returns (Looked F pid group startTime))
      (.done (.ok alive) : Tool Bool) s :=
  Keeps.done (looked_stable hF pid group startTime alive) h fun u hu => ⟨hI u hu.1,hu⟩

theorem stopped_keeps {pid group : ℕ} {startTime : Option ℕ} {r : Except Failure Unit}
    (h : Stopped F pid group startTime r s) :
    world.Keeps I (Stopped F pid group startTime) (.done r) s :=
  Keeps.done (stopped_stable hF pid group startTime r) h fun u hu => ⟨hI u hu.1,hu⟩

theorem members_keeps (hs : F s) (pid group : ℕ) (startTime : Option ℕ) :
    world.Keeps I (Returns (Looked F pid group startTime))
      (do
        let members ← Prog.request (Request.members group)
        return !members.isEmpty : Tool Bool) s := by
  refine Keeps.ask hF hs hI fun u hu => looked_keeps hF hI ⟨hu,fun hb ht => ?_⟩
  rcases ht with ⟨-,rfl,turn,hc⟩
  apply (hc u hu).idle_of_members
  simpa [world,Host.answer] using hb

theorem processGroupAlive_keeps (hs : F s) (pid group : ℕ) (startTime : Option ℕ) :
    world.Keeps I (Returns (Looked F pid group startTime))
      (processGroupAlive pid group startTime) s := by
  unfold processGroupAlive processIdentity
  by_cases hpid : pid = 0
  · rw [if_pos hpid]
    exact members_keeps hF hI hs pid group startTime
  · rw [if_neg hpid,Prog.request_bind]
    refine Keeps.ask hF hs hI fun u hu => ?_
    have ha : (world.answer u (.identity pid)).1 =
        (u.table.find? (·.pid == pid)).map fun p => (p.zombie,p.startTime) := rfl
    rw [ha]
    cases hq : u.table.find? (·.pid == pid) with
    | none => exact members_keeps hF hI hu pid group startTime
    | some q =>
      have hmem := List.mem_of_find?_eq_some hq
      have hqpid : q.pid = pid := by simpa using List.find?_some hq
      cases hz : q.zombie with
      | true =>
        simp only [Option.map_some,hz]
        exact members_keeps hF hI hu pid group startTime
      | false =>
        simp only [Option.map_some,hz]
        refine looked_keeps hF hI ⟨hu,fun hb ht => ?_⟩
        rcases ht with ⟨-,-,turn,hc⟩
        simp only [Bool.or_eq_false_iff,Option.isNone_eq_false_iff,beq_eq_false_iff_ne] at hb
        exact (hc u hu).idle_of_leader hmem hqpid (Option.isSome_iff_ne_none.mp hb.1) hb.2

theorem seenGone_keeps (polls : ℕ) (hs : F s) (pid group : ℕ) (startTime : Option ℕ) :
    world.Keeps I (Returns fun gone => Looked F pid group startTime !gone)
      (seenGone pid group startTime polls) s := by
  have hdone : ∀ {t : Host} (gone : Bool), Looked F pid group startTime (!gone) t →
      world.Keeps I (Returns fun gone => Looked F pid group startTime !gone)
        (.done (.ok gone) : Tool Bool) t := fun gone ht =>
    Keeps.done (looked_stable hF pid group startTime !gone) ht fun u hu => ⟨hI u hu.1,hu⟩
  induction polls generalizing s with
  | zero => exact hdone false ⟨hs,fun h => by cases h⟩
  | succ polls ih =>
    unfold seenGone
    refine (processGroupAlive_keeps hF hI hs pid group startTime).bind_returns fun b t h => ?_
    cases b with
    | true => exact ih h.1
    | false => exact hdone true h

omit hF hI in
theorem killpg_idle {u : Host} {pid group : ℕ} {startTime : Option ℕ} {signal : Signal}
    (hu : F u) (ha : (world.answer u (.killpg group signal)).1 = false)
    (ht : Tells F pid group startTime) : Idle u := by
  rcases ht with ⟨-,rfl,turn,hc⟩
  simp only [world,Host.answer,List.any_eq_false,beq_iff_eq] at ha
  exact fun p hp hw => ha p hp ((hc u hu) p hp hw).2.1

theorem killProcessGroup_keeps (hs : F s) (pid group : ℕ) (startTime : Option ℕ)
    (patience : Patience) :
    world.Keeps I (Stopped F pid group startTime)
      (killProcessGroup pid group startTime patience) s := by
  unfold killProcessGroup
  refine (processGroupAlive_keeps hF hI hs pid group startTime).bind_returns fun b t h => ?_
  cases b with
  | false => exact stopped_keeps hF hI ⟨h.1,fun _ => h.2 rfl⟩
  | true =>
    rw [if_pos rfl,Prog.request_bind]
    refine Keeps.ask hF h.1 hI fun u hu => ?_
    cases ha : (world.answer u (.killpg group .kill)).1 with
    | false => exact stopped_keeps hF hI ⟨hu,fun _ => killpg_idle hu ha⟩
    | true =>
      rw [if_pos rfl]
      refine (seenGone_keeps hF hI patience.kill hu pid group startTime).bind_returns
        fun b t h => ?_
      cases b with
      | true => exact stopped_keeps hF hI ⟨h.1,fun _ => h.2 rfl⟩
      | false =>
        rw [if_neg Bool.false_ne_true]
        refine (processGroupAlive_keeps hF hI h.1 pid group startTime).bind_returns
          fun b t h => ?_
        cases b with
        | true => exact stopped_keeps hF hI ⟨h.1,fun h => by cases h⟩
        | false => exact stopped_keeps hF hI ⟨h.1,fun _ => h.2 rfl⟩

theorem terminateProcessGroup_keeps (hs : F s) (pid group : ℕ) (startTime : Option ℕ)
    (patience : Patience) :
    world.Keeps I (Stopped F pid group startTime)
      (terminateProcessGroup pid group startTime patience) s := by
  unfold terminateProcessGroup
  refine (processGroupAlive_keeps hF hI hs pid group startTime).bind_returns fun b t h => ?_
  cases b with
  | false => exact stopped_keeps hF hI ⟨h.1,fun _ => h.2 rfl⟩
  | true =>
    rw [if_pos rfl,Prog.request_bind]
    refine Keeps.ask hF h.1 hI fun u hu => ?_
    cases ha : (world.answer u (.killpg group .term)).1 with
    | false => exact stopped_keeps hF hI ⟨hu,fun _ => killpg_idle hu ha⟩
    | true =>
      rw [if_pos rfl]
      refine (seenGone_keeps hF hI patience.term hu pid group startTime).bind_returns
        fun b t h => ?_
      cases b with
      | true => exact stopped_keeps hF hI ⟨h.1,fun _ => h.2 rfl⟩
      | false => exact killProcessGroup_keeps hF hI h.1 pid group startTime patience

theorem runAlive_keeps (hs : F s) (run : RunRecord) :
    world.Keeps I (Returns (Looked F run.pid run.group run.procStartTime)) (runAlive run) s := by
  unfold runAlive
  by_cases hrun : run.pid ≠ 0 ∧ run.group ≠ 0
  · rw [if_pos hrun]
    exact processGroupAlive_keeps hF hI hs run.pid run.group run.procStartTime
  · rw [if_neg hrun]
    refine looked_keeps hF hI ⟨hs,fun _ ht => absurd ⟨ht.1,?_⟩ hrun⟩
    rw [ht.2.1]
    exact ht.1

/-- What `_refresh` makes of a record. -/
def Refreshed (F : Host → Prop) (record record' : Session) (t : Host) : Prop :=
  F t ∧ match record.runs.getLast? with
    | none => record' = record
    | some run => ∃ running finishedAt updatedAt u, F u ∧
        (running = false → Tells F run.pid run.group run.procStartTime → Idle t) ∧
        record' = record.observed run running (u.logs run.logPath) finishedAt updatedAt

theorem refresh_keeps (hs : F s) (record : Session) :
    world.Keeps I (Returns (Refreshed F record)) (refresh record) s := by
  unfold refresh
  cases hrun : record.runs.getLast? with
  | none =>
    refine Keeps.done hF hs fun t ht => ⟨hI t ht,ht,?_⟩
    rw [hrun]
  | some run =>
    refine (runAlive_keeps hF hI hs run).bind_returns fun running t h => ?_
    have hL := looked_stable hF run.pid run.group run.procStartTime running
    have hLI : ∀ h, Looked F run.pid run.group run.procStartTime running h → I h :=
      fun h hl => hI h hl.1
    rw [Prog.request_bind]
    refine Keeps.ask hL h hLI fun u hu => ?_
    have hend : ∀ finishedAt t, Looked F run.pid run.group run.procStartTime running t →
        world.Keeps I (Returns (Refreshed F record)) (do
          let updatedAt ← Prog.request Request.now
          return record.observed run running (u.logs run.logPath) finishedAt updatedAt : Tool _)
          t := by
      intro finishedAt t ht
      refine Keeps.ask hL ht hLI fun v hv => ?_
      refine Keeps.done hL hv fun w hw => ⟨hLI w hw,hw.1,?_⟩
      rw [hrun]
      exact ⟨running,finishedAt,_,u,hu.1,hw.2,rfl⟩
    split
    · exact Keeps.ask hL hu hLI fun v hv => hend _ v hv
    · exact hend _ u hu

end

end Coding
end Atlas
