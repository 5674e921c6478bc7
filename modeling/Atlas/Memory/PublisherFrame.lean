import Atlas.Memory.DurableRows
import Atlas.Memory.Publications

/-! What a publication may do to the durable memories that are already there. -/
namespace Atlas
namespace Memory

open RowTable

/-- The snapshot carries the command context that its loader read from a store. -/
def EvaluationSnapshot.ReadFrom (snapshot : EvaluationSnapshot) (s : Tables) (candidateId : ℕ) : Prop :=
  snapshot.candidate.explicitOperation = (s.explicitCommandContext candidateId).explicitOperation ∧
    snapshot.candidate.explicitTargetMemoryId =
      (s.explicitCommandContext candidateId).explicitTargetMemoryId

/-- The candidate is an explicit owner correction of the memory: an obligation about it belongs
to a correction that names the memory. -/
def Tables.Corrects (s : Tables) (candidateId memoryId : ℕ) : Prop :=
  ∃ o ∈ s.obligations, o.explicitAbout candidateId = true ∧ ∃ id, o.commandId = some id ∧
    ∃ command, s.commands[id]? = some command ∧ (command.operation = "correct" ∧
      command.targetMemoryId = some memoryId)

theorem Publication.correctsTarget.corrects {p : Publication} {s : Tables} {i : ℕ}
    (h : p.correctsTarget i) (hs : p.snapshot.ReadFrom s p.candidateId) : s.Corrects p.candidateId i := by
  obtain ⟨hop,htarget⟩ := h
  rw [Publication.explicitOperation,hs.1] at hop
  rw [Publication.explicitTargetId,hs.2] at htarget
  unfold Tables.explicitCommandContext at hop htarget
  cases hc : ((s.obligations.filter (·.explicitAbout p.candidateId)).filterMap fun o =>
      o.commandId.bind fun id => s.commands[id]?).head? with
  | none =>
    rw [hc] at htarget
    cases htarget
  | some command =>
    rw [hc] at hop htarget
    obtain ⟨o,ho,hid⟩ := List.mem_filterMap.mp (List.mem_of_mem_head? hc)
    obtain ⟨id,hid,hcommand⟩ := Option.bind_eq_some_iff.mp hid
    obtain ⟨ho,habout⟩ := List.mem_filter.mp ho
    exact ⟨o,ho,habout,id,hid,command,hcommand,hop,htarget⟩

section

variable [PyRuntime]

/-- The rows a publication may write: its own new row, the evaluated target, and the guard its
owner's correction names. -/
def Publication.mayWrite (p : Publication) (t : List DurableMemoryRow) (i : ℕ) : Prop :=
  i = t.length ∨
    (p.decision.targetMemoryId = some i ∧ (i ∈ p.activeIds ∨ i ∈ p.legacyIds)) ∨
    (p.correctsTarget i ∧ ∃ m, t[i]? = some m ∧ m.recordKind = correctionGuardKind)

namespace Publication.Writes

variable {p : Publication} {t t' : List DurableMemoryRow}

theorem frame (h : p.Writes t t') {i : ℕ} (hi : ¬p.mayWrite t i) : t'[i]? = t[i]? := by
  simp only [mayWrite,not_or,not_and,not_exists] at hi
  obtain ⟨hnew,htarget,hguard⟩ := hi
  have hinsert : ∀ row, (t ++ [row])[i]? = t[i]? := fun row => by rw [getElem?_insert,if_neg hnew]
  cases h with
  | nothing => rfl
  | asserted j f hd hl => exact getElem?_modify_ne t f fun hj => (htarget (hj ▸ hd)).1 (hj ▸ hl)
  | grounded j m m' content _ hd hl hc =>
    exact hc.others i fun hj => (htarget (hj ▸ hd)).2 (hj ▸ hl)
  | preceded j m row => exact hinsert row
  | created content row => exact hinsert row
  | corrected content row g m m' _ _ hcor hm hk _ hc =>
    rw [hc.others i fun hj => hguard (hj ▸ hcor) m (hj ▸ hm) hk,hinsert]
  | replaced content row j m m' _ _ hd hl _ _ _ hc =>
    rw [hc.others i fun hj => (htarget (hj ▸ hd)).1 (hj ▸ hl),hinsert]

/-- A publication keeps the wording and the standing of the owner's memories, unless it is the
owner's correction of that very memory. -/
theorem authority (h : p.Writes t t') {i : ℕ} {m : DurableMemoryRow} (hm : t[i]? = some m)
    (ho : m.ownerDirected = true) (hcor : ¬p.correctsTarget i) :
    ∃ m', t'[i]? = some m' ∧ m'.content = m.content ∧ (m'.status = .active ↔ m.status = .active) := by
  have hkept : t'[i]? = some m → ∃ m', t'[i]? = some m' ∧ m'.content = m.content ∧
      (m'.status = .active ↔ m.status = .active) := fun hm' => ⟨m,hm',rfl,Iff.rfl⟩
  have hinsert : ∀ row, (t ++ [row])[i]? = some m := fun row => getElem?_insert_of_some hm
  cases h with
  | nothing => exact hkept hm
  | asserted j f _ _ hf =>
    by_cases hj : j = i
    · subst hj
      exact ⟨f m,by rw [getElem?_modify_self,hm]; rfl,(hf m).content,by rw [(hf m).status]⟩
    · exact hkept (by rw [getElem?_modify_ne t f hj,hm])
  | grounded j x m' content _ _ _ hc hno =>
    have hne : i ≠ j := by
      rintro rfl
      cases hm.symm.trans hc.before
      rw [ho] at hno
      cases hno
    exact hkept (by rw [hc.others i hne,hm])
  | preceded j x row => exact hkept (hinsert row)
  | created content row => exact hkept (hinsert row)
  | corrected content row g x m' _ _ hcg hx _ _ hc =>
    exact hkept (by rw [hc.others i fun hj => hcor (hj ▸ hcg),hinsert])
  | replaced content row j x m' _ _ _ _ hx _ hown hc =>
    have hne : i ≠ j := by
      rintro rfl
      rcases hown with hown | hown
      · exact hcor hown
      · cases hm.symm.trans hx
        rw [ho] at hown
        cases hown
    exact hkept (by rw [hc.others i hne,hinsert])

/-- A row with new active content is the publication's proposal, and the content was free of
restrictions. -/
theorem activates (h : p.Writes t t') {i : ℕ} {m' : DurableMemoryRow} (hm' : t'[i]? = some m')
    (ha : m'.status = .active) :
    (∃ m, t[i]? = some m ∧ m.status = .active ∧ m.fingerprint = m'.fingerprint) ∨
      ∃ content, p.proposal = .ok content ∧ Unrestricted t content ∧
        m'.fingerprint = some (memoryFingerprint content) := by
  have hold : t[i]? = some m' → (∃ m, t[i]? = some m ∧ m.status = .active ∧
      m.fingerprint = m'.fingerprint) := fun h => ⟨m',h,ha,rfl⟩
  have hcreated : ∀ {content row}, p.Creates t content row → (t ++ [row])[i]? = some m' →
      (∃ m, t[i]? = some m ∧ m.status = .active ∧ m.fingerprint = m'.fingerprint) ∨
        ∃ content, p.proposal = .ok content ∧ Unrestricted t content ∧
          m'.fingerprint = some (memoryFingerprint content) := by
    intro content row hrow hi
    rw [getElem?_insert] at hi
    split at hi
    · cases hi
      exact Or.inr ⟨content,hrow.proposed,hrow.unrestricted,hrow.fingerprint⟩
    · exact Or.inl (hold hi)
  cases h with
  | nothing => exact Or.inl (hold hm')
  | asserted j f _ _ hf =>
    by_cases hj : j = i
    · subst hj
      rw [getElem?_modify_self] at hm'
      obtain ⟨m,hm,rfl⟩ := Option.map_eq_some_iff.mp hm'
      exact Or.inl ⟨m,hm,(hf m).status ▸ ha,(hf m).fingerprint.symm⟩
    · exact Or.inl (hold (by rw [← hm',getElem?_modify_ne t f hj]))
  | grounded j x x' content _ _ _ hc _ _ hp hu _ _ _ _ hf =>
    rcases hc.cases hm' with ⟨rfl,rfl⟩ | ⟨_,hi⟩
    · exact Or.inr ⟨content,hp,hu,hf⟩
    · exact Or.inl (hold hi)
  | preceded j x row _ _ _ _ hs =>
    rw [getElem?_insert] at hm'
    split at hm'
    · cases hm'
      rw [ha] at hs
      cases hs
    · exact Or.inl (hold hm')
  | created content row hrow => exact hcreated hrow hm'
  | corrected content row g x x' _ hrow _ _ _ hna hc hst =>
    rcases hc.cases hm' with ⟨rfl,rfl⟩ | ⟨_,hi⟩
    · exact absurd (hst ▸ ha) hna
    · exact hcreated hrow hi
  | replaced content row j x x' _ hrow _ _ _ _ _ hc hst =>
    rcases hc.cases hm' with ⟨rfl,rfl⟩ | ⟨_,hi⟩
    · rw [ha] at hst
      cases hst
    · exact hcreated hrow hi

/-- A publication retires nothing and leaves retired rows retired with their fingerprint. -/
theorem retired (h : p.Writes t t') {i : ℕ} {r : DurableMemoryRow} (hr : t'[i]? = some r)
    (hs : r.status = .retired) : ∃ r', t[i]? = some r' ∧ r'.status = .retired ∧
      r'.fingerprint = r.fingerprint := by
  have hold : t[i]? = some r → ∃ r', t[i]? = some r' ∧ r'.status = .retired ∧
      r'.fingerprint = r.fingerprint := fun h => ⟨r,h,hs,rfl⟩
  have hnew : ∀ row : DurableMemoryRow, row.status ≠ .retired → (t ++ [row])[i]? = some r →
      t[i]? = some r := by
    intro row hrow hi
    rw [getElem?_insert] at hi
    split at hi
    · cases hi
      exact absurd hs hrow
    · exact hi
  cases h with
  | nothing => exact hold hr
  | asserted j f _ _ hf =>
    by_cases hj : j = i
    · subst hj
      rw [getElem?_modify_self] at hr
      obtain ⟨m,hm,rfl⟩ := Option.map_eq_some_iff.mp hr
      exact ⟨m,hm,(hf m).status ▸ hs,(hf m).fingerprint.symm⟩
    · exact hold (by rw [← hr,getElem?_modify_ne t f hj])
  | grounded j x x' content _ _ _ hc _ ha _ _ _ hst =>
    rcases hc.cases hr with ⟨rfl,rfl⟩ | ⟨_,hi⟩
    · rw [hst,ha] at hs
      cases hs
    · exact hold hi
  | preceded j x row _ _ _ _ hst => exact hold (hnew row (by rw [hst]; nofun) hr)
  | created content row hrow => exact hold (hnew row (by rw [hrow.status]; nofun) hr)
  | corrected content row g x x' _ hrow _ hx _ _ hc hst hp =>
    rcases hc.cases hr with ⟨rfl,rfl⟩ | ⟨_,hi⟩
    · exact ⟨x,hx,hst ▸ hs,hp.fingerprint.symm⟩
    · exact hold (hnew row (by rw [hrow.status]; nofun) hi)
  | replaced content row j x x' _ hrow _ _ _ _ _ hc hst =>
    rcases hc.cases hr with ⟨rfl,rfl⟩ | ⟨_,hi⟩
    · rw [hst] at hs
      cases hs
    · exact hold (hnew row (by rw [hrow.status]; nofun) hi)

end Publication.Writes

/-- A committed publication writes the memories as its claim's candidate. -/
theorem publish_writes {w : State} (hs : w.data.consistent = true) (config : PublisherConfig)
    (claim : CandidateLease) (snapshot : EvaluationSnapshot) (decision : ReconciliationDecision)
    (operationId : OperationId) (now : Time) :
    (publish w config claim snapshot decision operationId now).world.data.memories =
        w.data.memories ∨
      ∃ row turnId, w.data.candidates[claim.candidateId]? = some row ∧
        Publication.Writes ⟨claim.candidateId,claim.attemptId,row,snapshot,decision,turnId,now⟩
          w.data.memories
          (publish w config claim snapshot decision operationId now).world.data.memories := by
  rcases publish_cases w config claim snapshot decision operationId now with he | ⟨pub,he⟩
  · exact Or.inl (congrArg Tables.memories he)
  · exact Tables.publishAndSettle_writes (uniqueActive_of_consistent hs) he

/-- Content that a retired memory holds is also held out of recall by a verified row, so that
the publisher's restriction check finds it. -/
def Guarded (s : Tables) (claim : CandidateLease) (decision : ReconciliationDecision) : Prop :=
  ∀ row, s.candidates[claim.candidateId]? = some row → ∀ content,
    cleanMemoryContent (textOr decision.content row.content) "content" = .ok content →
    (∃ r ∈ s.memories, r.status = .retired ∧ r.fingerprint = some (memoryFingerprint content)) →
    ∃ r ∈ s.memories, Publication.restricts (memoryFingerprint content) r = true

/-- An active memory has content of a retired one that it did not have before. -/
def Resurrects (t t' : List DurableMemoryRow) : Prop :=
  ∃ (i j : ℕ) (m r : DurableMemoryRow), t'[i]? = some m ∧ m.status = .active ∧
    t'[j]? = some r ∧ r.status = .retired ∧ m.fingerprint = r.fingerprint ∧
    ¬∃ m₀, t[i]? = some m₀ ∧ m₀.status = .active ∧ m₀.fingerprint = m.fingerprint

/-- Where every retired memory with the proposed content restricts it, a publication brings no
retired content back. -/
theorem retired_content_stays {w : State} (h : Reachable (fun _ _ => True) w)
    (config : PublisherConfig) (claim : CandidateLease) (snapshot : EvaluationSnapshot)
    (decision : ReconciliationDecision) (operationId : OperationId) (now : Time)
    (hg : Guarded w.data claim decision) :
    ¬Resurrects w.data.memories
      (publish w config claim snapshot decision operationId now).world.data.memories := by
  rintro ⟨i,j,m,r,hm,ha,hr,hret,hf,hnew⟩
  rcases publish_writes (reachable_sound h).consistent config claim snapshot decision operationId
    now with he | ⟨row,turnId,hrow,hw⟩
  · exact hnew ⟨m,he ▸ hm,ha,rfl⟩
  · rcases hw.activates hm ha with hold | ⟨content,hp,hu,hmf⟩
    · exact hnew hold
    · obtain ⟨r₀,hr₀,hret₀,hf₀⟩ := hw.retired hr hret
      obtain ⟨x,hx,hres⟩ := hg row hrow content hp ⟨r₀,List.mem_of_getElem? hr₀,hret₀,
        hf₀.trans (hf.symm.trans hmf)⟩
      obtain ⟨k,hk⟩ := List.mem_iff_getElem?.mp hx
      rw [hu k x hk] at hres
      cases hres

end

instance (s : Tables) (candidateId memoryId : ℕ) : Decidable (s.Corrects candidateId memoryId) := by
  unfold Tables.Corrects
  infer_instance

instance decidableForallOk {ε α : Type*} (x : Except ε α) (p : α → Prop) [DecidablePred p] :
    Decidable (∀ a, x = .ok a → p a) :=
  match x with
  | .error _ => .isTrue nofun
  | .ok a => decidable_of_iff (p a) ⟨fun h _ he => by cases he; exact h,fun h => h a rfl⟩

instance [PyRuntime] (s : Tables) (claim : CandidateLease) (decision : ReconciliationDecision) :
    Decidable (Guarded s claim decision) := by
  unfold Guarded
  infer_instance

/-- A proposal the foreground model makes of one owner turn of the first chat. -/
def proposed (content : String) (turnId : ℕ) : Op :=
  .enqueueMany [{
    kind := "fact"
    content := content
    scope := "cross_chat"
    confidence := 1
    durability := "long_term"
    subject := none
    nameSpace := none
    evidenceRefs := [{turnId := some turnId}]}] {
      sourceTranscriptId := 0
      sourceTurnId := turnId
      allowedEvidenceTurnIds := some [turnId] }

/-- A memory that was verified, retired by the owner, and proposed again. -/
def retiredVerified : List Op :=
  remembered ++ [.retire {memoryId := some 0} none 6,
    .appendTurn 0 .owner [textBlock "I still like tea"] 7,proposed "likes tea" 1,
    .claimBatch {} 1 {} 8] ++
  evaluation ⟨1,1,1,1⟩ (evaluated ⟨1,1,1,1⟩ 1 2 2 [] 1 {}) 1 9

theorem retired_content_stays_verified :
    letI := plainRuntime
    let w := ran retiredVerified
    (w.data.memories.map (·.status) = [.retired] ∧ Guarded w.data ⟨1,1,1,1⟩ {decision := .create}) ∧
      ¬Resurrects w.data.memories (publish w {} ⟨1,1,1,1⟩ (evaluated ⟨1,1,1,1⟩ 1 2 2 [] 1 {})
        {decision := .create} (.uuid 1) 10).world.data.memories := by
  obtain ⟨hrun,hretired,hguard⟩ : letI := plainRuntime
    let w := ran retiredVerified
    Trace.Allowed step (fun w op => Legal w op ∧ True) emptyStore retiredVerified ∧
      w.data.memories.map (·.status) = [.retired] ∧
      Guarded w.data ⟨1,1,1,1⟩ {decision := .create} := by
    rw [plainRuntime_eq]
    decide +kernel
  exact ⟨⟨hretired,hguard⟩,@retired_content_stays plainRuntime _
    (@ran_reachable plainRuntime _ _ hrun) {} _ _ _ _ 10 hguard⟩

/-- A store with a memory of an earlier release, which no evidence has grounded yet. -/
def legacyStore [PyRuntime] : State :=
  ⟨fun _ => none,[],{
    memories := [{
      recordKind := "derived"
      content := some "likes tea"
      fingerprint := some (memoryFingerprint "likes tea")}]}⟩

theorem legacyStore_initial : @Initial (@legacyStore plainRuntime) where
  fresh := ⟨rfl,fun _ => rfl⟩
  consistent := by
    rw [plainRuntime_eq]
    decide +kernel
  candidates := rfl
  evidence := rfl
  attempts := rfl
  conflicts := rfl
  commands := rfl
  reviews _ ho := absurd ho List.not_mem_nil
  retired := by
    rw [plainRuntime_eq]
    decide +kernel

/-- The owner retires that memory, and a later turn suggests its content again. -/
def retiredLegacy : List Op :=
  [Op.getOrCreateActive 0,.appendTurn 0 .owner [textBlock "I like tea"] 1,
    .retire {memoryId := some 0} none 2,proposed "likes tea" 0,.claimBatch {} 1 {} 3] ++
  evaluation ⟨0,0,0,1⟩ (evaluated ⟨0,0,0,1⟩ 0 1 1 [] 0 {}) 0 4

/-- The restriction check looks for verified rows only, so the content becomes active again. -/
theorem retired_content_resurrected :
    letI := plainRuntime
    let w := retiredLegacy.foldl step legacyStore
    let op := Op.publish {} ⟨0,0,0,1⟩ (evaluated ⟨0,0,0,1⟩ 0 1 1 [] 0 {}) {decision := .create}
      (.uuid 0) 5
    Reachable (fun _ _ => True) w ∧ Legal w op ∧ w.data.namedCount 0 = 0 ∧
      Resurrects w.data.memories (step w op).data.memories := by
  obtain ⟨⟨m,hm,ha,hf⟩,⟨r,hr,hs,hg⟩,hnone,hrun,hl,hnamed⟩ : letI := plainRuntime
    let w := retiredLegacy.foldl step legacyStore
    let op := Op.publish {} ⟨0,0,0,1⟩ (evaluated ⟨0,0,0,1⟩ 0 1 1 [] 0 {}) {decision := .create}
      (.uuid 0) 5
    (∃ m : DurableMemoryRow, (step w op).data.memories[1]? = some m ∧ (m.status = .active ∧
      m.fingerprint = some (memoryFingerprint "likes tea"))) ∧
    (∃ r : DurableMemoryRow, (step w op).data.memories[0]? = some r ∧ (r.status = .retired ∧
      r.fingerprint = some (memoryFingerprint "likes tea"))) ∧
    w.data.memories[1]? = none ∧
    Trace.Allowed step (fun w op => Legal w op ∧ True) legacyStore retiredLegacy ∧
    Legal w op ∧ w.data.namedCount 0 = 0 := by
    rw [plainRuntime_eq]
    decide +kernel
  refine ⟨Trace.Reach.run (.start legacyStore_initial) hrun,hl,hnamed,1,0,m,r,hm,ha,hr,hs,
    hf.trans hg.symm,?_⟩
  rintro ⟨m₀,hm₀,_⟩
  rw [hnone] at hm₀
  cases hm₀

end Memory
end Atlas
