import Atlas.Memory.Runs

/-! What becomes of an accepted explicit command: the candidate its obligation names, and the
command context the reconciler reads for that candidate. -/
namespace Atlas
namespace Memory

open RowTable

namespace Tables

/-- The command whose obligation decides the context of a candidate. -/
def decidingCommand (s : Tables) (candidateId : ℕ) : Option CommandRow :=
  ((s.obligations.filter (·.explicitAbout candidateId)).filterMap fun o =>
    o.commandId.bind fun id => s.commands[id]?).head?

theorem explicitCommandContext_eq (s : Tables) (candidateId : ℕ) :
    s.explicitCommandContext candidateId =
      ((s.decidingCommand candidateId).map CommandRow.context).getD {} := rfl

/-- The queued command is what a worker will find: the candidate carries its content, and the
context is its own. -/
def Carries (s : Tables) (q : Queued) (c : ExplicitCommand) : Prop :=
  (∃ row, s.candidates[q.candidateId]? = some row ∧ row.content = some c.content) ∧
    ∃ command, s.commands[q.commandId]? = some command ∧
      s.explicitCommandContext q.candidateId = command.context

section

variable [PyRuntime] {s s' : Tables}

/-- A candidate that the command's owner turn already has, if it has one, carries the same
content, and the command that decides its context, if there is one, says the same. -/
def Unshared (s : Tables) (c : ExplicitCommand) (source : OwnerSource) (now : Time) : Prop :=
  ∀ turnId, source.2 = some turnId → ∀ k,
    s.reconcilableByHash (evidenceSetHash [(turnId,"")]) = some k →
    (∃ row, s.candidates[k]? = some row ∧ row.content = some c.content) ∧
    ∀ first, s.decidingCommand k = some first → ∀ guarded target,
      s.correctionGuardRow c source now = .ok (guarded,target) →
      first.context = {
        explicitOperation := some c.operation
        explicitTargetMemoryId := target
        explicitChangeType := c.changeType}

omit [PyRuntime] in
theorem commandRow_context (c : ExplicitCommand) (transcriptId turnId : ℕ) (target : Option ℕ) :
    (c.commandRow transcriptId turnId target).context = {
      explicitOperation := some c.operation
      explicitTargetMemoryId := target
      explicitChangeType := c.changeType} := by
  cases hc : c.changeType <;> simp [CommandRow.context,ExplicitCommand.commandRow,
    ExplicitCommand.storedArguments,Json.textAt,Dict.get,hc]

omit [PyRuntime] in
/-- Obligations name commands that exist. -/
theorem command_lt (h : s.consistent = true) {o : ObligationRow} (ho : o ∈ s.obligations) {id : ℕ}
    (hid : o.commandId = some id) : id < s.commands.length := by
  simp only [consistent,Bool.and_eq_true,List.all_eq_true] at h
  have := h.2 o ho
  rw [hid] at this
  simpa using this

omit [PyRuntime] in
/-- The context after an obligation about the candidate was added for a new command. -/
theorem decidingCommand_added (h : s.consistent = true) {t : Tables} {o : ObligationRow}
    {command : CommandRow} {k : ℕ} (hobl : t.obligations = s.obligations ++ [o])
    (hcmd : t.commands = s.commands ++ [command]) (ho : o.explicitAbout k = true)
    (hid : o.commandId = some s.commands.length) :
    t.decidingCommand k = (s.decidingCommand k).or (some command) := by
  have hold : (s.obligations.filter (·.explicitAbout k)).filterMap
      (fun o => o.commandId.bind fun id => t.commands[id]?) =
      (s.obligations.filter (·.explicitAbout k)).filterMap
        fun o => o.commandId.bind fun id => s.commands[id]? := by
    refine List.filterMap_congr fun x hx => ?_
    cases hx' : x.commandId with
    | none => rfl
    | some id =>
      have hlt := command_lt h (List.mem_filter.mp hx).1 hx'
      simp [hcmd,List.getElem?_append_left hlt]
  have hnew : o.commandId.bind (fun id => t.commands[id]?) = some command := by
    simp [hid,hcmd]
  unfold decidingCommand
  rw [hobl,List.filter_append,List.filter_cons_of_pos ho,List.filter_nil,List.filterMap_append,hold]
  simp only [List.filterMap_cons,hnew,List.filterMap_nil,List.head?_append,List.head?_cons]

omit [PyRuntime] in
theorem decidingCommand_none {k : ℕ} (h : s.namedCount k = 0) : s.decidingCommand k = none := by
  rw [namedCount,List.countP_eq_zero] at h
  have : s.obligations.filter (·.explicitAbout k) = [] := by
    rw [List.filter_eq_nil_iff]
    exact h
  simp [decidingCommand,this]

theorem createGuard_commands {content : String} {status : MemoryStatus} {recordKind : String}
    {source : Option ℕ × Option ℕ} {now : Time} {r : ℕ × Bool}
    (h : s.createGuard content status recordKind source now = .ok (s',r)) :
    s'.commands = s.commands := by
  unfold createGuard at h
  extract_lets fingerprint guardRow at h
  split at h
  · cases h
  · split at h <;> (cases h; rfl)

theorem correctionGuardRow_commands {c : ExplicitCommand} {source : OwnerSource} {now : Time}
    {target : Option ℕ} (h : s.correctionGuardRow c source now = .ok (s',target)) :
    s'.commands = s.commands := by
  unfold correctionGuardRow at h
  split at h
  · cases h
    rfl
  · split at h
    · cases h
      rfl
    · obtain ⟨⟨s₁,r⟩,hg,h⟩ := map_ok h
      cases h
      exact createGuard_commands hg

/-- The tables an accepted command leaves. -/
structure QueuedTables (s s' : Tables) (c : ExplicitCommand) (source : OwnerSource) (now : Time)
    (q : Queued) (transcriptId turnId : ℕ) (target : Option ℕ) : Prop where
  origin : source = (some transcriptId,some turnId)
  command : q.commandId = s.commands.length
  commands : s'.commands = s.commands ++ [c.commandRow transcriptId turnId target]
  obligations : s'.obligations = s.obligations ++
    [c.obligationRow transcriptId turnId q.candidateId q.commandId]
  candidate :
    (s.reconcilableByHash (evidenceSetHash [(turnId,"")]) = some q.candidateId ∧
      s'.candidates = s.candidates ∧
      ∃ guarded, s.correctionGuardRow c source now = .ok (guarded,target)) ∨
    (s.reconcilableByHash (evidenceSetHash [(turnId,"")]) = none ∧
      q.candidateId = s.candidates.length ∧ ∃ row : CandidateRow,
        s'.candidates = s.candidates ++ [row] ∧ row.content = some (normalizeSpace c.content))

theorem queued_tables {c : ExplicitCommand} {source : OwnerSource} {now : Time} {q : Queued}
    (h : s.queueExplicitContentCommandIn c source now = .ok (s',q)) :
    ∃ transcriptId turnId target, QueuedTables s s' c source now q transcriptId turnId target := by
  obtain ⟨transcriptId,turnId,candidate,s₁,created,target,rfl,hv,he,s₂,hg,hcmd,_,rfl⟩ :=
    queueExplicitContentCommandIn_cases h
  have hcore := correctionGuardRow_core hg
  have hob : s₂.obligations = s₁.obligations := congrArg Core.obligations hcore
  have hca : s₂.candidates = s₁.candidates := congrArg Core.candidates hcore
  have hcm := correctionGuardRow_commands hg
  obtain ⟨refs,hcites,_,_,⟨hr,rfl,_⟩ | ⟨hr,hnew,_,normalized,hn,rfl⟩⟩ := enqueue_cases he
  · cases proposal_cites hv hcites
    exact ⟨transcriptId,turnId,target,rfl,hcmd,congrArg (· ++ _) hcm,congrArg (· ++ _) hob,
      Or.inl ⟨hr,hca,s₂,hg⟩⟩
  · cases proposal_cites hv hcites
    refine ⟨transcriptId,turnId,target,rfl,hcmd,congrArg (· ++ _) hcm,congrArg (· ++ _) hob,
      Or.inr ⟨hr,hnew,_,hca,?_⟩⟩
    rw [← show candidate.content = c.content from (validate_fields hv).1,← (normalized_fields hn).1]
    rfl

/-- A queued command is carried exactly when its owner turn has no other candidate, or one that
says the same. -/
theorem queued_carries {c : ExplicitCommand} {source : OwnerSource} {now : Time} {q : Queued}
    (hs : Sound s) (hc : normalizeSpace c.content = c.content)
    (h : s.queueExplicitContentCommandIn c source now = .ok (s',q)) :
    s'.Carries q c ↔ s.Unshared c source now := by
  obtain ⟨transcriptId,turnId,target,hq⟩ := queued_tables h
  have hrow : s'.commands[q.commandId]? = some (c.commandRow transcriptId turnId target) := by
    rw [hq.commands,hq.command]
    exact List.getElem?_concat_length
  have hctx : s'.decidingCommand q.candidateId = (s.decidingCommand q.candidateId).or
      (some (c.commandRow transcriptId turnId target)) :=
    decidingCommand_added hs.consistent hq.obligations hq.commands (by simp)
      (congrArg some hq.command)
  have hcarries : s'.Carries q c ↔
      (∃ row, s'.candidates[q.candidateId]? = some row ∧ row.content = some c.content) ∧
      ∀ first, s.decidingCommand q.candidateId = some first → first.context =
        (c.commandRow transcriptId turnId target).context := by
    refine and_congr_right fun _ => ?_
    simp only [hrow,Option.some.injEq,exists_eq_left',explicitCommandContext_eq,hctx]
    cases s.decidingCommand q.candidateId <;> simp
  rw [hcarries]
  rcases hq.candidate with ⟨hr,hcand,guarded,hg⟩ | ⟨hr,hnew,row,hcand,hcontent⟩
  · rw [hcand,hq.origin]
    constructor
    · rintro ⟨hcontent,hfirst⟩ u hu k hk
      cases Option.some.inj hu
      cases Option.some.inj (hr.symm.trans hk)
      refine ⟨hcontent,fun first hf guarded' target' hg' => ?_⟩
      rw [hq.origin] at hg
      cases hg.symm.trans hg'
      exact (hfirst first hf).trans (commandRow_context c transcriptId turnId target)
    · intro hu
      obtain ⟨hcontent,hfirst⟩ := hu turnId rfl _ hr
      refine ⟨hcontent,fun first hf => ?_⟩
      rw [commandRow_context]
      exact hfirst first hf guarded target (hq.origin ▸ hg)
  · refine iff_of_true ⟨⟨row,?_,hcontent.trans (congrArg some hc)⟩,fun first hf => ?_⟩ ?_
    · rw [hcand,hnew]
      exact List.getElem?_concat_length
    · rw [decidingCommand_none (hnew ▸ hs.wellformed.unnamed)] at hf
      cases hf
    · intro u hu k hk
      rw [hq.origin] at hu
      cases Option.some.inj hu
      rw [hr] at hk
      cases hk

end

end Tables

section

variable [PyRuntime]

/-- The command that the arguments of `remember` stand for. -/
structure RememberArguments.Queues (arguments : RememberArguments) (c : ExplicitCommand) : Prop where
  operation : c.operation = "remember"
  content : cleanMemoryContent arguments.content "content" = .ok c.content
  target : c.targetMemoryId = none
  changeType : c.changeType = none
  old : c.legacyOldContent = none

/-- The command that the arguments of `correct` stand for: the target is the memory they name,
else the active memory with the old wording, else a guard row for that wording. -/
structure CorrectArguments.Queues (s : Tables) (arguments : CorrectArguments) (c : ExplicitCommand) :
    Prop where
  operation : c.operation = "correct"
  content : cleanMemoryContent arguments.content "content" = .ok c.content
  changeType : c.changeType = some ((arguments.changeType.bind orNone).getD "correction")
  target : ∀ id, arguments.memoryId = some id → c.targetMemoryId = some id
  old : arguments.memoryId = none → ∃ raw old, arguments.oldContent = some raw ∧
    cleanMemoryContent (some raw) "old_content" = .ok old ∧
    c.targetMemoryId = s.activeByFingerprint (memoryFingerprint old) ∧
    (c.targetMemoryId = none → c.legacyOldContent = some old)

omit [PyRuntime] in
theorem cleanMemoryContent_normal {value : Option String} {field content : String}
    (h : cleanMemoryContent value field = .ok content) : normalizeSpace content = content := by
  unfold cleanMemoryContent at h
  extract_lets cleaned at h
  split at h
  · cases h
  · split at h
    · cases h
    · rw [← Except.ok.inj h]
      exact normalizeSpace_normalizeSpace _

/-- A command that was queued is one the transaction accepted. -/
theorem queueExplicitContentCommand_queued {w w' : State} {c : ExplicitCommand} {source : OwnerSource}
    {now : Time} {q : Queued}
    (h : queueExplicitContentCommand w c source now = (w',.ok (.queued q))) :
    w.data.queueExplicitContentCommandIn c source now = .ok (w'.data,q) := by
  have hfail : ∀ reason, intakeFailure w c.operation source reason now ≠ (w',.ok (.queued q)) := by
    intro reason hi
    rcases transact_cases w fun s => .ok (s.recordExplicitIntakeFailure c.operation source reason now)
      with ⟨e,he⟩ | ⟨s,a,hs,_,he⟩
    · rw [intakeFailure,he] at hi
      cases hi
    · rw [intakeFailure,he] at hi
      cases hs
      cases hi
  unfold queueExplicitContentCommand at h
  split at h
  · exact absurd h (hfail _)
  · rcases transact_cases w fun s => s.queueExplicitContentCommandIn c source now with
      ⟨e,he⟩ | ⟨s,a,hs,_,he⟩
    · rw [he] at h
      exact absurd h (hfail _)
    · rw [he] at h
      cases h
      exact hs

theorem remember_queued {w w' : State} {arguments : RememberArguments} {transcriptId : Option ℕ}
    {now : Time} {q : Queued} (h : remember w arguments transcriptId now = (w',.ok (.queued q))) :
    ∃ c, arguments.Queues c ∧ w.data.queueExplicitContentCommandIn c
      (w.data.latestOwnerSource transcriptId) now = .ok (w'.data,q) := by
  unfold remember at h
  extract_lets source at h
  split at h
  · cases h
  · next content hc =>
    split at h
    · cases h
    · exact ⟨_,⟨rfl,hc,rfl,rfl,rfl⟩,queueExplicitContentCommand_queued h⟩

theorem correctionTarget_named {s : Tables} {id : ℕ} {old : Option String}
    {target : Option ℕ} (h : correctionTarget s (some id) old = .ok target) : target = some id := by
  unfold correctionTarget at h
  dsimp only at h
  split at h
  · cases h
  · split at h
    · cases h
    · split at h
      · cases h
      · cases h
        rfl

theorem correct_queued {w w' : State} {arguments : CorrectArguments} {transcriptId : Option ℕ}
    {now : Time} {q : Queued} (h : correct w arguments transcriptId now = (w',.ok (.queued q))) :
    ∃ c, arguments.Queues w.data c ∧ w.data.queueExplicitContentCommandIn c
      (w.data.latestOwnerSource transcriptId) now = .ok (w'.data,q) := by
  unfold correct at h
  extract_lets source changeType at h
  split at h
  · cases h
  · cases h
  · next content old hc hold =>
    split at h
    · cases h
    · next hsel =>
      split at h
      · cases h
      · split at h
        · rcases transact_cases w fun s => .ok (s.recordExplicitIntakeFailure "correct" source _ now)
            with ⟨e,he⟩ | ⟨s,a,hs,_,he⟩
          · rw [intakeFailure,he] at h
            cases h
          · rw [intakeFailure,he] at h
            cases hs
            cases h
        · next targetId ht =>
          refine ⟨_,⟨rfl,hc,rfl,fun id hid => ?_,fun hnone => ?_⟩,
            queueExplicitContentCommand_queued h⟩
          · rw [hid] at ht
            exact correctionTarget_named ht
          · rw [hnone] at ht hsel
            cases hraw : arguments.oldContent with
            | none =>
              rw [hraw] at hold
              cases hold
              exact absurd ⟨rfl,rfl⟩ hsel
            | some raw =>
              rw [hraw] at hold
              obtain ⟨text,htext,hold⟩ := map_ok hold
              cases hold
              cases ht
              refine ⟨raw,text,rfl,htext,rfl,fun hn => ?_⟩
              dsimp only at hn ⊢
              simp [hn]

/-- Every accepted command is carried exactly when its owner turn's candidate is its own. -/
theorem explicit_command_carried {w : State} (h : Reachable (fun _ _ => True) w) :
    (∀ arguments transcriptId now w' q,
      remember w arguments transcriptId now = (w',.ok (.queued q)) → ∃ c : ExplicitCommand,
        arguments.Queues c ∧ (w'.data.Carries q c ↔
          w.data.Unshared c (w.data.latestOwnerSource transcriptId) now)) ∧
    ∀ arguments transcriptId now w' q,
      correct w arguments transcriptId now = (w',.ok (.queued q)) → ∃ c : ExplicitCommand,
        arguments.Queues w.data c ∧ (w'.data.Carries q c ↔
          w.data.Unshared c (w.data.latestOwnerSource transcriptId) now) := by
  have hs := reachable_sound h
  refine ⟨fun arguments transcriptId now w' q hq => ?_,fun arguments transcriptId now w' q hq => ?_⟩
  · obtain ⟨c,hc,hin⟩ := remember_queued hq
    exact ⟨c,hc,Tables.queued_carries hs (cleanMemoryContent_normal hc.content) hin⟩
  · obtain ⟨c,hc,hin⟩ := correct_queued hq
    exact ⟨c,hc,Tables.queued_carries hs (cleanMemoryContent_normal hc.content) hin⟩

end

instance (s : Tables) (q : Queued) (c : ExplicitCommand) : Decidable (s.Carries q c) := by
  unfold Tables.Carries
  infer_instance

/-- An owner turn that no command has cited yet. -/
def firstTurn : List Op :=
  [.getOrCreateActive 0,.appendTurn 0 .owner [textBlock "I like tea"] 1]

theorem explicit_command_carried_first :
    letI := plainRuntime
    let w := (remember (ran firstTurn) {content := some "likes tea"} none 2).1
    ∃ c : ExplicitCommand, RememberArguments.Queues {content := some "likes tea"} c ∧
      w.data.Carries ⟨0,0,0⟩ c := by
  obtain ⟨hrun,hqueued,hnone⟩ : letI := plainRuntime
    Trace.Allowed step (fun w op => Legal w op ∧ True) emptyStore firstTurn ∧
      (remember (ran firstTurn) {content := some "likes tea"} none 2).2 = .ok (.queued ⟨0,0,0⟩) ∧
      (ran firstTurn).data.candidates = [] := by
    rw [plainRuntime_eq]
    decide +kernel
  obtain ⟨c,hc,hiff⟩ := (@explicit_command_carried plainRuntime (@ran plainRuntime firstTurn)
    (@ran_reachable plainRuntime _ _ hrun)).1 {content := some "likes tea"} none 2
      _ ⟨0,0,0⟩ (Prod.ext rfl hqueued)
  refine ⟨c,hc,hiff.mpr fun turnId _ k hk => ?_⟩
  rw [Tables.reconcilableByHash,hnone] at hk
  cases hk

/-- A second command on the same owner turn. -/
def likesMate : ExplicitCommand where
  operation := "remember"
  content := "likes mate"
  classification := ⟨"fact",.crossChat,some .owner,.longTerm,none,none⟩

/-- The second command is queued on the candidate of the first, and its words are gone. -/
theorem command_lost :
    letI := plainRuntime
    let w := ran (firstTurn ++ [.remember {content := some "likes tea"} none 2])
    let r := remember w {content := some "likes mate"} none 3
    Reachable (fun _ _ => True) w ∧ r.2 = .ok (.queued ⟨1,0,1⟩) ∧
      RememberArguments.Queues {content := some "likes mate"} likesMate ∧
      ¬r.1.data.Carries ⟨1,0,1⟩ likesMate := by
  have hclean : cleanMemoryContent (some "likes mate") "content" = .ok "likes mate" := by
    decide +kernel
  refine And.imp (@ran_reachable plainRuntime _ _)
    (And.imp_right (And.intro ⟨rfl,hclean,rfl,rfl,rfl⟩)) ?_
  rw [plainRuntime_eq]
  decide +kernel

end Memory
end Atlas
