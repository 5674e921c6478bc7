import Atlas.Memory.RecordSteps
import Atlas.Memory.Transitions

/-! What runs of the memory store guarantee about durable memories: active content is unique,
the columns of a row agree with its status, and supersession leads to an end. -/
namespace Atlas
namespace Memory

open RowTable

section

variable [PyRuntime]

/-- Runs from a store whose memories, if it holds any, already satisfy a property. -/
abbrev ReachableFrom (I : List DurableMemoryRow → Prop) : State → Prop :=
  Trace.Reach step (fun w op => Legal w op ∧ True) fun w => Initial w ∧ I w.data.memories

theorem ReachableFrom.reachable {I : List DurableMemoryRow → Prop} {w : State}
    (h : ReachableFrom I w) : Reachable (fun _ _ => True) w := by
  induction h with
  | start hi => exact .start hi.1
  | next _ hok ih => exact .next ih hok

/-- A property that every row write keeps holds of the memories of every run. -/
theorem ReachableFrom.records {I : List DurableMemoryRow → Prop}
    (hI : ∀ t t', I t → RecordChange t t' → I t') {w : State} (h : ReachableFrom I w) :
    I w.data.memories := by
  induction h with
  | start hi => exact hi.2
  | @next w op hr hok ih =>
    have hs := reachable_sound (ReachableFrom.reachable hr)
    exact (stepLoaded_records id op hs.consistent).invariant hI ih

theorem Committed.consistent {loaded : Tables → Tables} {op : Op} {s s' : Tables}
    (h : Committed loaded op s s') (hs : s.consistent = true) : s'.consistent = true := by
  induction h with
  | refl => exact hs
  | tail _ hb _ => exact hb.2

/-- No two active memories share a fingerprint, and the transactions see to it themselves: each
writes its rows in an order that keeps it so, before the constraints are examined. -/
theorem active_fingerprint_unique {w : State} (h : Reachable (fun _ _ => True) w) :
    UniqueActive w.data.memories ∧ ∀ op s s', Committed id op w.data s → Body id s op s' →
      UniqueActive s'.memories ∧ RecordRun s.memories s'.memories ∧
        ∀ t, RecordRun s.memories t → UniqueActive t := by
  have hs := (reachable_sound h).consistent
  refine ⟨uniqueActive_of_consistent hs,fun op s s' hc hb => ?_⟩
  have hcons := Committed.consistent hc hs
  have hrun := hb.records hcons
  have hkept : ∀ t, RecordRun s.memories t → UniqueActive t := fun t ht =>
    ht.invariant (fun _ _ => UniqueActive.change) (uniqueActive_of_consistent hcons)
  exact ⟨hkept _ hrun,hrun,hkept⟩

/-- What backs a verified memory: a reconciliation record, or a turn the owner asserted it in. -/
def Grounded (s : Tables) (m : DurableMemoryRow) : Prop :=
  (∃ id, m.verificationRecordId = some id ∧ id < s.records.length) ∨ m.ownerAssertionTurnId ≠ none

omit [PyRuntime] in
theorem grounded_of_consistent {s : Tables} (h : s.consistent = true) {i : ℕ} {m : DurableMemoryRow}
    (hm : s.memories[i]? = some m) (hv : m.groundingStatus = .verified) : Grounded s m := by
  simp only [Tables.consistent,Bool.and_eq_true,decide_eq_true_eq,List.all_eq_true] at h
  obtain ⟨⟨⟨⟨⟨⟨⟨⟨_,_⟩,_⟩,_⟩,hrows⟩,_⟩,_⟩,_⟩,_⟩ := h
  obtain ⟨⟨_,hg⟩,hfk⟩ := hrows m (List.mem_of_getElem? hm)
  simp only [hv,bne_self_eq_false,Bool.or_eq_true,Bool.false_or] at hg
  rcases hg with hg | hg
  · obtain ⟨id,hid⟩ := Option.isSome_iff_exists.mp hg
    rw [hid] at hfk
    exact Or.inl ⟨id,hid,by simpa using hfk⟩
  · exact Or.inr (Option.isSome_iff_ne_none.mp hg)

/-- The columns of every durable memory agree. -/
theorem durable_row_shape {w : State} (h : ReachableFrom Shaped w) :
    ∀ (i : ℕ) (m : DurableMemoryRow), w.data.memories[i]? = some m →
      (m.status = .active → m.suppressesRecall = false) ∧
      (m.status = .deleted → m.Erased) ∧
      (m.status ≠ .deleted → ∃ content, m.content = some content ∧
        m.fingerprint = some (memoryFingerprint content)) ∧
      (m.groundingStatus = .verified → Grounded w.data m) := by
  have hshape := h.records fun _ _ => Shaped.change
  have hs := reachable_sound h.reachable
  intro i m hm
  exact ⟨hshape.recalled i m hm,hshape.erased i m hm,hshape.payload i m hm,
    grounded_of_consistent hs.consistent hm⟩

/-- Superseded memories lead to one that is not, and active memories are their own end. -/
theorem supersession_forest {w : State} (h : ReachableFrom Forest w) :
    ∀ (i : ℕ) (m : DurableMemoryRow), w.data.memories[i]? = some m →
      (∃ n j, Pointers.follow (supersededBy w.data.memories) n i = some j ∧
        supersededBy w.data.memories j = some none) ∧
      (m.status = .active → m.supersededById = none) := by
  have hforest := h.records fun _ _ => Forest.change
  intro i m hm
  refine ⟨(hforest.rooted i (List.getElem?_eq_some_iff.mp hm).1).follow,fun ha => ?_⟩
  by_contra hn
  rcases hforest.ended i m hm hn with hs | hs <;> (rw [ha] at hs; cases hs)

end

/-- The verdicts a worker persists about its claim. -/
def evaluation (claim : CandidateLease) (snapshot : EvaluationSnapshot) (id : ℕ) (now : Time) :
    List Op :=
  [.persistReading claim snapshot {} none now,.persistComparison claim id {verdict := "supported"} now,
    .persistReconciliation claim id snapshot {relation := "create"} now]

/-- What a worker's evaluation saw of its candidate and of the memories it may change. -/
def evaluated (claim : CandidateLease) (turnId sourceRevision memoryRevision : ℕ)
    (active : List ℕ) (recordId : ℕ) (context : SnapshotCandidate) : EvaluationSnapshot :=
  { candidateId := claim.candidateId
    sourceTranscriptId := 0
    sourceTurnId := turnId
    sourceRevision := sourceRevision
    memoryRevision := memoryRevision
    candidate := context
    evidenceRefs := ⟨turnId,none,[turnId],none,active,[],[],some recordId⟩
    publicationAllowed := true }

/-- A memory the owner asked for, from the chat to its publication. -/
def remembered : List Op :=
  let claim : CandidateLease := ⟨0,0,0,1⟩
  let snapshot := evaluated claim 0 1 0 [] 0 {explicitOperation := some "remember"}
  [Op.getOrCreateActive 0,.appendTurn 0 .owner [textBlock "I like tea"] 1,
    .remember {content := some "likes tea"} none 2,.claimBatch {} 1 {} 3] ++
  evaluation claim snapshot 0 4 ++ [Op.publish {} claim snapshot createDecision (.uuid 0) 5]

/-- The owner's correction of that memory, which supersedes it. -/
def corrected : List Op :=
  let claim : CandidateLease := ⟨1,1,1,1⟩
  let snapshot := evaluated claim 1 2 1 [0] 1 {
    explicitOperation := some "correct"
    explicitTargetMemoryId := some 0
    explicitChangeType := some "correction"}
  remembered ++ [Op.appendTurn 0 .owner [textBlock "I like mate, not tea"] 6,
    .correct {memoryId := some 0, content := some "likes mate"} none 7,.claimBatch {} 1 {} 8] ++
  evaluation claim snapshot 1 9 ++ [Op.publish {} claim snapshot {
    decision := .supersede
    targetMemoryId := some 0
    content := some "likes mate"} (.uuid 1) 10]

/-- What these operations leave. -/
theorem ran_corrected :
    letI := plainRuntime
    Trace.Allowed step (fun w op => Legal w op ∧ True) emptyStore corrected ∧
      (ran corrected).data.memories.map (·.status) = [.superseded,.active] ∧
      ∃ m, (ran corrected).data.memories[0]? = some m ∧ m.status = .superseded ∧
        m.supersededById = some 1 := by
  rw [plainRuntime_eq]
  decide +kernel

theorem active_fingerprint_unique_corrected :
    letI := plainRuntime
    (ran corrected).data.memories.map (·.status) = [.superseded,.active] ∧
      UniqueActive (ran corrected).data.memories := by
  obtain ⟨hrun,hstatus,_⟩ := ran_corrected
  exact ⟨hstatus,(@active_fingerprint_unique plainRuntime _ (@ran_reachable plainRuntime _ _ hrun)).1⟩

theorem ran_reachableFrom [PyRuntime] {I : List DurableMemoryRow → Prop} (hI : I []) {ops : List Op}
    (h : Trace.Allowed step (fun w op => Legal w op ∧ True) emptyStore ops) :
    ReachableFrom I (ran ops) :=
  Trace.Reach.run (.start ⟨emptyStore_initial,hI⟩) h

theorem shaped_nil [PyRuntime] : Shaped [] where
  recalled _ _ h := by simp at h
  erased _ _ h := by simp at h
  payload _ _ h := by simp at h

theorem forest_nil : Forest [] where
  rooted _ h := absurd h (Nat.not_lt_zero _)
  guards _ _ h := by simp at h
  ended _ _ h := by simp at h

theorem durable_row_shape_corrected :
    letI := plainRuntime
    ∃ m, (ran corrected).data.memories[0]? = some m ∧ m.status = .superseded ∧ ∃ content,
      m.content = some content ∧ m.fingerprint = some (memoryFingerprint content) := by
  obtain ⟨hrun,_,m,hm,hs,_⟩ := ran_corrected
  exact ⟨m,hm,hs,((@durable_row_shape plainRuntime _ (@ran_reachableFrom plainRuntime _
    (@shaped_nil plainRuntime) _ hrun)) 0 m hm).2.2.1 (by rw [hs]; nofun)⟩

theorem supersession_forest_corrected :
    letI := plainRuntime
    ∃ m, (ran corrected).data.memories[0]? = some m ∧ m.supersededById = some 1 ∧ ∃ n j,
      Pointers.follow (supersededBy (ran corrected).data.memories) n 0 = some j ∧
        supersededBy (ran corrected).data.memories j = some none := by
  obtain ⟨hrun,_,m,hm,_,hp⟩ := ran_corrected
  exact ⟨m,hm,hp,((@supersession_forest plainRuntime _ (@ran_reachableFrom plainRuntime _ forest_nil _
    hrun)) 0 m hm).1⟩

end Memory
end Atlas
