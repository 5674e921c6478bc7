import Atlas.Coding.ToolSteps

/-! Every call keeps the file true about the workers that are alive, and a cancellation that is
reported leaves none. -/
namespace Atlas
namespace Coding

open Actions Dialogue World Memory

/-- The session is cancelled for good: no worker is left and, without a turn, no thread to go on
with. -/
structure Sealed (record : Session) (h : Host) : Prop where
  file : h.file = some record
  status : record.status = .cancelled
  thread : record.runs = [] → record.codexThreadId = none
  idle : Idle h

theorem sealed_stable (record : Session) : world.Stable (Sealed record) := fun h e hs =>
  ⟨(stir_file h e).trans hs.file,hs.status,hs.thread,idle_stable h e hs.idle⟩

/-- The assertion that every call keeps while it waits. -/
def Steady (h : Host) : Prop := Sane h ∧ Linked h

theorem steady_stable : world.Stable Steady := sane_stable.and linked_stable

theorem guards_last {record : Session} {run : RunRecord} (h : Host)
    (hrun : record.runs.getLast? = some run) :
    Guards record h ↔ run.pid ≠ 0 ∧ run.processGroup = run.pid ∧
      Covers run.turn run.pid run.procStartTime h := by
  unfold Guards
  rw [hrun]

theorem guards_new {record : Session} {runs : List RunRecord} {run : RunRecord} (h : Host)
    (hr : record.runs = runs ++ [run]) :
    Guards record h ↔ run.pid ≠ 0 ∧ run.processGroup = run.pid ∧
      Covers run.turn run.pid run.procStartTime h :=
  guards_last h (by simp [hr])

theorem Guards.of_file {record : Session} {h : Host} (hl : Linked h) (hf : h.file = some record) :
    Guards record h := by
  unfold Linked at hl
  rwa [hf] at hl

theorem Idle.covers {h : Host} (hi : Idle h) (turn pid : ℕ) (startTime : Option ℕ) :
    Covers turn pid startTime h := fun p hp hw => absurd hw (hi p hp)

/-- What is written to the file must be true about the workers. -/
theorem save_steady {h : Host} {record : Session} (hs : Sane h) (hg : Guards record h) :
    Steady (world.answer h (.save record)).2 := ⟨⟨hs.pids,hs.one⟩,hg⟩

theorem group_eq {run : RunRecord} (hpid : run.pid ≠ 0) (hg : run.processGroup = run.pid) :
    run.group = run.pid := by
  unfold RunRecord.group
  rw [hg,if_neg hpid]

/-- The record that the file holds tells which group may have workers. -/
theorem tells_of_file {F : Host → Prop} {record : Session} {run : RunRecord} {s : Host}
    (hF : ∀ h, F h → Linked h ∧ h.file = some record) (hs : F s)
    (hrun : record.runs.getLast? = some run) :
    Tells F run.pid run.group run.procStartTime := by
  have hg : ∀ h, F h → Guards record h := fun h hf => .of_file (hF h hf).1 (hF h hf).2
  rcases (guards_last s hrun).mp (hg s hs) with ⟨hpid,hgroup,-⟩
  exact ⟨hpid,group_eq hpid hgroup,run.turn,fun h hf => ((guards_last h hrun).mp (hg h hf)).2.2⟩

theorem Refreshed.guards {F : Host → Prop} {record record' : Session} {t : Host}
    (h : Refreshed F record record' t) {u : Host} (hg : Guards record u) : Guards record' u := by
  rcases h with ⟨-,h⟩
  cases hrun : record.runs.getLast? with
  | none =>
    rw [hrun] at h
    exact h ▸ hg
  | some run =>
    rw [hrun] at h
    rcases h with ⟨running,finishedAt,updatedAt,v,-,-,rfl⟩
    have hnew : (record.observed run running (v.logs run.logPath) finishedAt updatedAt).runs =
        record.runs.dropLast ++ [run.observe (v.logs run.logPath)
          (eventStatus (v.logs run.logPath) running) finishedAt] := rfl
    exact (guards_new u hnew).mpr ((guards_last u hrun).mp hg)

theorem eventStatus_ne (events : List CodexEvent) (running : Bool) :
    eventStatus events running ≠ .cancelled ∧ eventStatus events running ≠ .created := by
  unfold eventStatus
  split
  · exact ⟨by decide,by decide⟩
  · have ho : ∀ status, outcome events = some status → status = .completed ∨ status = .failed := by
      intro status hs
      rcases List.exists_of_findSome?_eq_some hs with ⟨event,-,he⟩
      unfold CodexEvent.outcome at he
      split at he
      · exact Or.inl (Option.some.inj he).symm
      · split at he
        · exact Or.inr (Option.some.inj he).symm
        · cases he
    cases h : outcome events with
    | none => exact ⟨by decide,by decide⟩
    | some status => rcases ho status h with rfl | rfl <;> exact ⟨by decide,by decide⟩

/-- A refreshed record whose turn is over has no worker left. -/
theorem Refreshed.idle {F : Host → Prop} {record record' : Session} {s t : Host}
    (h : Refreshed F record record' t) (hF : ∀ h, F h → Linked h ∧ h.file = some record)
    (hs : F s) (hover : record'.status ≠ .running) : Idle t := by
  rcases h with ⟨ht,h⟩
  cases hrun : record.runs.getLast? with
  | none =>
    have hg := Guards.of_file (hF t ht).1 (hF t ht).2
    unfold Guards at hg
    rw [hrun] at hg
    exact hg.1
  | some run =>
    rw [hrun] at h
    rcases h with ⟨running,finishedAt,updatedAt,v,-,hidle,rfl⟩
    cases running with
    | false => exact hidle rfl (tells_of_file hF hs hrun)
    | true => exact absurd rfl hover

section

variable {s : Host} {run : RunRecord}

/-- While a turn is awaited its run covers the workers. -/
def Awaits (run : RunRecord) (h : Host) : Prop :=
  Steady h ∧ Covers run.turn run.pid run.procStartTime h

theorem awaits_stable (run : RunRecord) : world.Stable (Awaits run) :=
  steady_stable.and (covers_stable _ _ _)

/-- A record whose latest run has the process of the given run. -/
def Ends (run : RunRecord) (record : Session) : Prop :=
  ∃ runs run', record.runs = runs ++ [run'] ∧ run'.turn = run.turn ∧ run'.pid = run.pid ∧
    run'.processGroup = run.pid ∧ run'.procStartTime = run.procStartTime

theorem Ends.guards {record : Session} (he : Ends run record) (hpid : run.pid ≠ 0) {h : Host}
    (hc : Covers run.turn run.pid run.procStartTime h) : Guards record h := by
  rcases he with ⟨runs,run',hr,ht,hp,hg,hst⟩
  refine (guards_new h hr).mpr ⟨hp ▸ hpid,hg.trans hp.symm,?_⟩
  rw [ht,hp,hst]
  exact hc

theorem save_awaits {record : Session} (he : Ends run record) (hpid : run.pid ≠ 0)
    (h : Awaits run s) : Awaits run (world.answer s (.save record)).2 :=
  ⟨save_steady h.1.1 (he.guards hpid h.2),h.2⟩

theorem awaits_sane (h : Host) (ha : Awaits run h) : Sane h := ha.1.1

/-- What the wait for the first event of a turn ends with. -/
def Awaited (run : RunRecord) : Except Failure Session → Host → Prop
  | .ok record, t => Awaits run t ∧ Ends run record
  | .error _, t => Steady t

theorem awaited_keeps {record : Session} (ha : Awaits run s) (he : Ends run record) :
    world.Keeps Sane (Awaited run) (.done (.ok record)) s :=
  Keeps.done (awaits_stable run) ha fun _ ht => ⟨ht.1.1,ht,he⟩

theorem refuseThread_keeps (record : Session) (expected observed : String) (patience : Patience)
    (hpid : run.pid ≠ 0) (hgroup : run.processGroup = run.pid) (ha : Awaits run s) :
    world.Keeps Sane (Awaited run) (refuseThread record run expected observed patience) s := by
  unfold refuseThread
  refine (terminateProcessGroup_keeps (awaits_stable run) awaits_sane ha run.pid run.pid
    run.procStartTime patience).bind (fun _ _ ht => ?_) fun _ _ ht => ht.1.1
  refine Keeps.ask (awaits_stable run) ht.1 awaits_sane fun u hu => ?_
  refine Keeps.ask (awaits_stable run) hu awaits_sane fun v hv => ?_
  refine Keeps.ask (awaits_stable run) hv awaits_sane fun w hw => ?_
  refine Keeps.done (awaits_stable run) (save_awaits ?_ hpid hw) fun x hx => ⟨hx.1.1,hx.1⟩
  exact ⟨_,_,rfl,rfl,rfl,hgroup,rfl⟩

theorem noteThread_keeps {record : Session} (events : List CodexEvent) (thread : String)
    (hpid : run.pid ≠ 0) (he : Ends run record) (ha : Awaits run s) :
    world.Keeps Sane (Awaited run) (awaitThread.noteThread record run events thread) s := by
  unfold awaitThread.noteThread
  refine (processGroupAlive_keeps (awaits_stable run) awaits_sane ha run.pid run.pid
    run.procStartTime).bind_returns fun alive t ht => ?_
  refine Keeps.ask (awaits_stable run) ht.1 awaits_sane fun u hu => ?_
  have he' : Ends run {record with
      codexThreadId := some thread
      status := if alive then .running else eventStatus events false} := he
  exact awaited_keeps (save_awaits he' hpid hu) he'

theorem awaitThread_keeps {record : Session} (expected : Option String) (patience : Patience)
    (polls : ℕ) (hpid : run.pid ≠ 0) (hgroup : run.processGroup = run.pid)
    (he : Ends run record) (ha : Awaits run s) :
    world.Keeps Sane (Awaited run) (awaitThread record run expected patience polls) s := by
  induction polls generalizing s with
  | zero => exact awaited_keeps ha he
  | succ polls ih =>
    unfold awaitThread
    rw [Prog.request_bind]
    refine Keeps.ask (awaits_stable run) ha awaits_sane fun u hu => ?_
    split
    · split
      · exact refuseThread_keeps _ _ _ patience hpid hgroup hu
      · exact noteThread_keeps _ _ hpid he hu
    · exact noteThread_keeps _ _ hpid he hu
    · refine (processGroupAlive_keeps (awaits_stable run) awaits_sane hu run.pid run.pid
        run.procStartTime).bind_returns fun alive t ht => ?_
      cases alive with
      | true => exact ih ht.1
      | false => exact awaited_keeps ht.1 he

end

/-- What launching a process may do. -/
theorem spawn_cases (h : Host) (turn : ℕ) :
    h.spawn turn = (none,h) ∨ ∃ offer, h.free offer.pid = true ∧
      h.spawn turn = (some offer.pid,h.spawned turn offer) := by
  unfold Host.spawn
  split
  · exact Or.inl rfl
  · next offer _ =>
    split
    · next hfree => exact Or.inr ⟨offer,hfree,rfl⟩
    · exact Or.inl rfl

section

variable {h : Host} {turn : ℕ} {offer : Offer}

theorem spawned_sane (hs : Sane h) (hi : Idle h) (hfree : h.free offer.pid = true) :
    Sane (h.spawned turn offer) := by
  constructor
  · unfold Host.spawned
    rw [List.map_append,List.nodup_append]
    refine ⟨hs.pids,by simp,?_⟩
    intro a ha b hb hab
    rcases List.mem_map.mp ha with ⟨q,hq,rfl⟩
    simp only [List.map_cons,List.map_nil,List.mem_singleton] at hb
    exact ((free_iff.mp hfree).2 q hq).1 (hab.trans hb)
  · intro q hq r hr hqw hrw
    rcases List.mem_append.mp hq with hq | hq
    · exact absurd hqw (hi q hq)
    · rcases List.mem_append.mp hr with hr | hr
      · exact absurd hrw (hi r hr)
      · rw [List.mem_singleton.mp hq,List.mem_singleton.mp hr]
        exact ⟨rfl,rfl⟩

theorem spawned_covers (hi : Idle h) : Covers turn offer.pid none (h.spawned turn offer) := by
  intro q hq hqw
  rcases List.mem_append.mp hq with hq | hq
  · exact absurd hqw (hi q hq)
  · rw [List.mem_singleton.mp hq]
    exact ⟨rfl,rfl,fun _ _ _ => Or.inl rfl⟩

end

/-- The birth time of the leader tells its number from one that is used again. -/
theorem Covers.born {turn pid : ℕ} {h : Host} (hs : Sane h) (hc : Covers turn pid none h) :
    Covers turn pid (((h.table.find? (·.pid == pid)).map fun p =>
      (p.zombie,p.startTime)).map (·.2)) h := by
  intro p hp hw
  refine ⟨(hc p hp hw).1,(hc p hp hw).2.1,fun q hq hpid => Or.inr ?_⟩
  have hsome : (h.table.find? (·.pid == pid)).isSome :=
    List.find?_isSome.mpr ⟨q,hq,by simpa using hpid⟩
  rcases Option.isSome_iff_exists.mp hsome with ⟨o,ho⟩
  have hopid : o.pid = pid := by simpa using List.find?_some ho
  have heq : o = q := List.inj_on_of_nodup_map hs.pids (List.mem_of_find?_eq_some ho) hq
    (hopid.trans hpid.symm)
  rw [ho,heq]
  rfl

section

variable [CodingRuntime] {s : Host}

/-- A turn is launched where no worker is left, and the file then names its group. -/
theorem launch_keeps (record : Session) (prompt : String) (resume : Bool) (patience : Patience)
    (hs : Steady s) (hi : Idle s) :
    world.Keeps Sane (fun _ t => Steady t) (launch record prompt resume patience) s := by
  have hstay : ∀ {α : Type} (r : Except Failure α) {t : Host}, Steady t →
      world.Keeps Sane (fun _ t => Steady t) (.done r : Tool α) t := fun r t ht =>
    Keeps.done steady_stable ht fun u hu => ⟨hu.1,hu⟩
  unfold launch
  cases hc : command record prompt resume with
  | error e => exact hstay _ hs
  | ok parts =>
    rcases parts with ⟨line,repo,expected⟩
    have hP := steady_stable.and idle_stable
    refine Keeps.ask hP ⟨hs,hi⟩ (fun h hh => hh.1.1) fun u hu => ?_
    rcases spawn_cases u (record.runs.length + 1) with hsp | ⟨⟨pid,start⟩,hfree,hsp⟩
    · rw [show world.answer u (.popen (record.runs.length + 1) line repo) = (none,u) from hsp]
      exact hstay _ hu.1
    · rw [show world.answer u (.popen (record.runs.length + 1) line repo) = _ from hsp]
      have hpid : pid ≠ 0 := (free_iff.mp hfree).1
      have hsane := sane_stable.and (covers_stable (record.runs.length + 1) pid none)
      have hident : processIdentity pid = Prog.request (Request.identity pid) := if_neg hpid
      simp only [Prog.done_bind,hident]
      refine Keeps.ask hsane ⟨spawned_sane hu.1.1 hu.2 hfree,spawned_covers hu.2⟩
        (fun h hh => hh.1) fun v hv => ?_
      have hborn := hv.2.born hv.1
      rw [show world.answer v (.identity pid) =
        ((v.table.find? (·.pid == pid)).map fun p => (p.zombie,p.startTime),v) from rfl]
      generalize ((v.table.find? (·.pid == pid)).map fun p =>
        (p.zombie,p.startTime)) = identity at hborn
      have hP := sane_stable.and (covers_stable (record.runs.length + 1) pid (identity.map (·.2)))
      refine Keeps.ask hP ⟨hv.1,hborn⟩ (fun h hh => hh.1) fun w hw => ?_
      refine Keeps.ask hP hw (fun h hh => hh.1) fun x hx => ?_
      refine Keeps.ask hP hx (fun h hh => hh.1) fun y hy => ?_
      refine (awaitThread_keeps expected patience patience.start hpid rfl ⟨_,_,rfl,rfl,rfl,rfl,rfl⟩
        ⟨save_steady hy.1 ((guards_new y rfl).mpr ⟨hpid,rfl,hy.2⟩),hy.2⟩).bind
        (fun record' t ht => ?_) fun _ _ ht => ht
      exact (refresh_keeps (awaits_stable _) awaits_sane ht.1 record').mono fun r t ht => by
        cases r with
        | ok r => exact ht.1.1
        | error e => exact ht.elim

end

end Coding
end Atlas
