import Atlas.Memory.Worker

/-! The order of events between a candidate and the memory it is related to: a model's relation
supersedes or precedes its target only as far as the recorded times, or the owner's own
correction, support it. -/
namespace Atlas
namespace Memory

/-- `datetime.fromisoformat`. -/
class TimeText where
  fromisoformat : String → Option Time

/-- A time in a snapshot's dictionaries. -/
inductive SnapshotTime where
  | absent
  | datetime (t : Time)
  | text (s : String)
  | other
  deriving Repr, DecidableEq

/-- The keys of a snapshot's candidate that its command context does not give. -/
structure CandidatePayload where
  kind : String
  content : Option String
  scope : Option Scope
  durability : Option Durability
  intakePath : String := "foreground"
  origin : Option String := some "conversation"
  temporalHorizonAt : SnapshotTime := .absent
  deriving Repr, DecidableEq

/-- An item of `evidence_items`, up to its time. -/
structure EvidenceItem where
  recordedAt : SnapshotTime
  deriving Repr, DecidableEq

/-- `_project_for_model`, up to the identity, the authority and the time of the event. -/
structure MemoryProjection where
  memoryId : ℕ
  authority : String
  eventValidFrom : SnapshotTime
  deriving Repr, DecidableEq

/-- A snapshot with what the evaluation itself reads. -/
structure Evaluation extends EvaluationSnapshot where
  payload : CandidatePayload
  evidenceItems : List EvidenceItem
  activeMemories : List MemoryProjection
  deriving Repr, DecidableEq

/-- A relation that the guard has settled. -/
def MemoryRelationDecision.guarded (relation : MemoryRelationDecision) (kind guard : String) :
    MemoryRelationDecision := {relation with relation := kind, temporalGuard := some guard}

/-- The relation that the two events' times support. -/
def orderedRelation (relation : MemoryRelationDecision) (candidateTime targetTime : Option Time) :
    MemoryRelationDecision :=
  match candidateTime,targetTime with
  | some candidateTime,some targetTime =>
      if targetTime < candidateTime then relation.guarded "supersedes" "event_order_checked"
      else if candidateTime < targetTime then
        relation.guarded "historical_predecessor" "event_order_checked"
      else relation.guarded "conflicts_with" "event_times_equal"
  | _,_ => relation.guarded "conflicts_with" "event_order_unknown"

def Temporal (relation : MemoryRelationDecision) : Prop :=
  relation.relation = "supersedes" ∨ relation.relation = "historical_predecessor"

theorem contains_iff_temporal {relation : MemoryRelationDecision} :
    ["supersedes","historical_predecessor"].contains relation.relation = true ↔
      Temporal relation := by simp [Temporal]

/-- The relation that the times support, with the order that supports it. -/
theorem orderedRelation_cases (relation : MemoryRelationDecision)
    (candidateTime targetTime : Option Time) :
    let result := orderedRelation relation candidateTime targetTime
    (result.relation = "supersedes" ∧ result.temporalGuard = some "event_order_checked" ∧
        ∃ c t, candidateTime = some c ∧ targetTime = some t ∧ t < c) ∨
      (result.relation = "historical_predecessor" ∧
        result.temporalGuard = some "event_order_checked" ∧
        ∃ c t, candidateTime = some c ∧ targetTime = some t ∧ c < t) ∨
      result.relation = "conflicts_with" := by
  unfold orderedRelation
  split
  · next c t =>
    split
    · next hlt => exact Or.inl ⟨rfl,rfl,c,t,rfl,rfl,hlt⟩
    · split
      · next hlt => exact Or.inr (Or.inl ⟨rfl,rfl,c,t,rfl,rfl,hlt⟩)
      · exact Or.inr (Or.inr rfl)
  · exact Or.inr (Or.inr rfl)

/-- Only the kind of a relation and its guard are settled by the times. -/
theorem orderedRelation_eq_guarded (relation : MemoryRelationDecision)
    (candidateTime targetTime : Option Time) : ∃ kind guard,
    orderedRelation relation candidateTime targetTime = relation.guarded kind guard := by
  unfold orderedRelation
  split
  · split
    · exact ⟨_,_,rfl⟩
    · split
      · exact ⟨_,_,rfl⟩
      · exact ⟨_,_,rfl⟩
  · exact ⟨_,_,rfl⟩

theorem orderedRelation_guarded (relation : MemoryRelationDecision) (kind guard : String)
    (candidateTime targetTime : Option Time) :
    orderedRelation (relation.guarded kind guard) candidateTime targetTime =
      orderedRelation relation candidateTime targetTime := rfl

theorem orderedRelation_same (relation : MemoryRelationDecision)
    (candidateTime targetTime : Option Time) :
    let result := orderedRelation relation candidateTime targetTime
    result.targetMemoryId = relation.targetMemoryId ∧
      result.replacementContent = relation.replacementContent := by
  rcases orderedRelation_eq_guarded relation candidateTime targetTime with ⟨kind,guard,h⟩
  rw [h]
  exact ⟨rfl,rfl⟩

theorem orderedRelation_again (relation : MemoryRelationDecision)
    (candidateTime targetTime : Option Time) :
    orderedRelation (orderedRelation relation candidateTime targetTime) candidateTime targetTime =
      orderedRelation relation candidateTime targetTime := by
  rcases orderedRelation_eq_guarded relation candidateTime targetTime with ⟨kind,guard,h⟩
  rw [h,orderedRelation_guarded,h]

section

variable [TimeText]

/-- The datetime that an entry is or that its text reads as. -/
def SnapshotTime.read : SnapshotTime → Option Time
  | .datetime t => some t
  | .text s => TimeText.fromisoformat s
  | .absent | .other => none

/-- The latest time at which cited evidence was recorded. -/
def citedHorizon (snapshot : Evaluation) : Option Time :=
  (snapshot.evidenceItems.filterMap (·.recordedAt.read)).max?

/-- The time of the sweep that the candidate comes from. -/
def sweepHorizon (snapshot : Evaluation) : Option Time :=
  if snapshot.payload.intakePath = "sweep" then snapshot.payload.temporalHorizonAt.read else none

def evidenceHorizon (snapshot : Evaluation) : Option Time :=
  match sweepHorizon snapshot,citedHorizon snapshot with
  | some sweep,some cited => some (min cited sweep)
  | some sweep,none => some sweep
  | none,cited => cited

/-- The evaluated memory that a relation targets. -/
def temporalTarget (snapshot : Evaluation) (relation : MemoryRelationDecision) :
    Option MemoryProjection :=
  snapshot.activeMemories.find? fun item => some item.memoryId == relation.targetMemoryId

/-- The candidate is an explicit correction of the relation's target. -/
def explicitCorrection (snapshot : Evaluation) (relation : MemoryRelationDecision) : Bool :=
  snapshot.candidate.explicitOperation == some "correct" &&
    snapshot.candidate.explicitTargetMemoryId.isSome &&
    snapshot.candidate.explicitTargetMemoryId == relation.targetMemoryId

def beyondHorizon (snapshot : Evaluation) (reading : IndependentReading) : Bool :=
  match reading.eventValidFrom,evidenceHorizon snapshot with
  | some candidateTime,some horizon => horizon < candidateTime
  | _,_ => false

/-- `_enforce_temporal_order`. -/
def enforceTemporalOrder (snapshot : Evaluation) (reading : IndependentReading)
    (relation : MemoryRelationDecision) : Except Failure MemoryRelationDecision :=
  if !(["supersedes","historical_predecessor"].contains relation.relation) then .ok relation
  else
    match temporalTarget snapshot relation with
    | none => .error (valueError "temporal target disappeared from evaluated graph")
    | some target =>
        if target.authority == "owner_directed" && !explicitCorrection snapshot relation then
          .ok {relation with relation := "conflicts_with"}
        else if beyondHorizon snapshot reading then
          .ok (relation.guarded "conflicts_with" "beyond_evidence_horizon")
        else if explicitCorrection snapshot relation && relation.relation == "supersedes" then
          .ok (relation.guarded "supersedes" "explicit_owner_correction")
        else .ok (orderedRelation relation reading.eventValidFrom target.eventValidFrom.read)

/-- The horizon is the earliest of the times that are known. -/
theorem evidenceHorizon_eq (snapshot : Evaluation) : evidenceHorizon snapshot =
    ((citedHorizon snapshot).toList ++ (sweepHorizon snapshot).toList).min? := by
  unfold evidenceHorizon
  cases hs : sweepHorizon snapshot with
  | none =>
    cases citedHorizon snapshot with
    | none => rfl
    | some cited => rfl
  | some sweep =>
    cases citedHorizon snapshot with
    | none => rfl
    | some cited => rfl

/-- The candidate's event is not after the horizon, as far as both are known. -/
def WithinHorizon (snapshot : Evaluation) (reading : IndependentReading) : Prop :=
  ∀ candidateTime horizon, reading.eventValidFrom = some candidateTime →
    evidenceHorizon snapshot = some horizon → candidateTime ≤ horizon

/-- The branches of the guard, with what has been checked in each. -/
inductive Ruled (snapshot : Evaluation) (reading : IndependentReading)
    (relation : MemoryRelationDecision) : MemoryRelationDecision → Prop
  | untimed : ¬Temporal relation → Ruled snapshot reading relation relation
  | ownerDirected : Temporal relation → explicitCorrection snapshot relation = false →
      Ruled snapshot reading relation {relation with relation := "conflicts_with"}
  | beyond : Temporal relation →
      Ruled snapshot reading relation (relation.guarded "conflicts_with" "beyond_evidence_horizon")
  | corrected {target : MemoryProjection} : relation.relation = "supersedes" →
      temporalTarget snapshot relation = some target →
      explicitCorrection snapshot relation = true → WithinHorizon snapshot reading → Ruled snapshot reading relation
        (relation.guarded "supersedes" "explicit_owner_correction")
  | ordered {target : MemoryProjection} : Temporal relation →
      temporalTarget snapshot relation = some target →
      (target.authority = "owner_directed" → explicitCorrection snapshot relation = true) →
      (relation.relation = "supersedes" → explicitCorrection snapshot relation = false) →
      WithinHorizon snapshot reading → Ruled snapshot reading relation
        (orderedRelation relation reading.eventValidFrom target.eventValidFrom.read)

theorem withinHorizon_of_not_beyond {snapshot : Evaluation} {reading : IndependentReading}
    (h : beyondHorizon snapshot reading = false) : WithinHorizon snapshot reading := by
  intro candidateTime horizon hc hh
  simp only [beyondHorizon,hc,hh,decide_eq_false_iff_not,Nat.not_lt] at h
  exact h

theorem enforceTemporalOrder_ruled {snapshot : Evaluation} {reading : IndependentReading}
    {relation result : MemoryRelationDecision}
    (h : enforceTemporalOrder snapshot reading relation = .ok result) :
    Ruled snapshot reading relation result := by
  unfold enforceTemporalOrder at h
  split at h
  · next hnot =>
    cases h
    refine .untimed fun ht => ?_
    rw [contains_iff_temporal.mpr ht] at hnot
    cases hnot
  · next hin =>
    have ht : Temporal relation := by
      rw [Bool.not_eq_true,Bool.not_eq_false'] at hin
      exact contains_iff_temporal.mp hin
    split at h
    · cases h
    · next target htarget =>
      split at h
      · next hown =>
        cases h
        simp only [Bool.and_eq_true,Bool.not_eq_true'] at hown
        exact .ownerDirected ht hown.2
      · next hown =>
        split at h
        · cases h
          exact .beyond ht
        · next hb =>
          have hw := withinHorizon_of_not_beyond (by simpa using hb)
          split at h
          · next hc =>
            cases h
            simp only [Bool.and_eq_true,beq_iff_eq] at hc
            exact .corrected hc.2 htarget hc.1 hw
          · next hc =>
            cases h
            refine .ordered ht htarget (fun ha => ?_) (fun hs => ?_) hw
            · by_contra hne
              simp [ha,hne] at hown
            · by_contra hne
              simp [hs,hne] at hc

theorem enforceTemporalOrder_untimed (snapshot : Evaluation) (reading : IndependentReading)
    {relation : MemoryRelationDecision} (h : ¬Temporal relation) :
    enforceTemporalOrder snapshot reading relation = .ok relation := by
  have hnot : ["supersedes","historical_predecessor"].contains relation.relation = false := by
    rw [← Bool.not_eq_true]
    exact fun hc => h (contains_iff_temporal.mp hc)
  rw [enforceTemporalOrder,hnot]
  rfl

theorem beyondHorizon_false {snapshot : Evaluation} {reading : IndependentReading}
    (h : WithinHorizon snapshot reading) : beyondHorizon snapshot reading = false := by
  unfold beyondHorizon
  split
  · next candidateTime horizon hc hh => simpa using h candidateTime horizon hc hh
  · rfl

theorem enforceTemporalOrder_within {snapshot : Evaluation} {reading : IndependentReading}
    {relation : MemoryRelationDecision} {target : MemoryProjection} (ht : Temporal relation)
    (htarget : temporalTarget snapshot relation = some target)
    (hown : target.authority = "owner_directed" → explicitCorrection snapshot relation = true)
    (hw : WithinHorizon snapshot reading) :
    enforceTemporalOrder snapshot reading relation =
      .ok (if explicitCorrection snapshot relation && relation.relation == "supersedes" then
        relation.guarded "supersedes" "explicit_owner_correction"
      else orderedRelation relation reading.eventValidFrom target.eventValidFrom.read) := by
  have hguard : (target.authority == "owner_directed" &&
      !explicitCorrection snapshot relation) = false := by
    by_cases ha : target.authority = "owner_directed"
    · simp [hown ha]
    · simp [ha]
  simp only [enforceTemporalOrder,contains_iff_temporal.mpr ht,htarget,hguard,
    beyondHorizon_false hw,Bool.not_true,Bool.false_eq_true,if_false]
  split <;> rfl

/-- The guard finds the relation that it has settled as it left it; only for an explicit
correction that the model took for a predecessor does it name its reason anew. -/
theorem enforceTemporalOrder_again {snapshot : Evaluation} {reading : IndependentReading}
    {relation result : MemoryRelationDecision} (h : Ruled snapshot reading relation result) :
    ∃ again, enforceTemporalOrder snapshot reading result = .ok again ∧
      again.relation = result.relation ∧ again.targetMemoryId = result.targetMemoryId ∧
      again.replacementContent = result.replacementContent ∧
      (again = result ∨ explicitCorrection snapshot relation = true ∧
        relation.relation = "historical_predecessor") := by
  have hfixed : ¬Temporal result → ∃ again,
      enforceTemporalOrder snapshot reading result = .ok again ∧
      again.relation = result.relation ∧ again.targetMemoryId = result.targetMemoryId ∧
      again.replacementContent = result.replacementContent ∧
      (again = result ∨ explicitCorrection snapshot relation = true ∧
        relation.relation = "historical_predecessor") := fun hn =>
    ⟨result,enforceTemporalOrder_untimed snapshot reading hn,rfl,rfl,rfl,Or.inl rfl⟩
  cases h with
  | untimed hn => exact hfixed hn
  | ownerDirected _ _ => exact hfixed (by simp [Temporal])
  | beyond _ => exact hfixed (by simp [Temporal,MemoryRelationDecision.guarded])
  | corrected _ htarget hc hw =>
    refine ⟨_,enforceTemporalOrder_within (Or.inl rfl) htarget (fun _ => hc) hw,?_⟩
    have hif : (explicitCorrection snapshot
        (relation.guarded "supersedes" "explicit_owner_correction") &&
        (relation.guarded "supersedes" "explicit_owner_correction").relation ==
          "supersedes") = true := by
      rw [Bool.and_eq_true]
      exact ⟨hc,rfl⟩
    rw [if_pos hif]
    exact ⟨rfl,rfl,rfl,Or.inl rfl⟩
  | ordered ht htarget hown hne hw =>
    rename_i target
    have hsame := orderedRelation_same relation reading.eventValidFrom
      target.eventValidFrom.read
    have htemporal := orderedRelation_cases relation reading.eventValidFrom
      target.eventValidFrom.read
    have hagain := orderedRelation_again relation reading.eventValidFrom
      target.eventValidFrom.read
    generalize orderedRelation relation reading.eventValidFrom target.eventValidFrom.read =
      result at *
    have hexplicit : explicitCorrection snapshot result = explicitCorrection snapshot relation := by
      rw [explicitCorrection,explicitCorrection,hsame.1]
    have htarget' : temporalTarget snapshot result = some target := by
      rw [← htarget,temporalTarget,temporalTarget,hsame.1]
    have hwithin := fun ht' : Temporal result => enforceTemporalOrder_within ht' htarget'
      (fun ha => hexplicit.trans (hown ha)) hw
    rcases htemporal with ⟨hs,-⟩ | ⟨hp,-⟩ | hc
    · refine ⟨_,hwithin (Or.inl hs),?_⟩
      by_cases he : explicitCorrection snapshot relation = true
      · rw [if_pos (by simp [hexplicit,he,hs])]
        refine ⟨hs.symm,rfl,rfl,Or.inr ⟨he,?_⟩⟩
        rcases ht with ht | ht
        · rw [hne ht] at he
          cases he
        · exact ht
      · rw [if_neg (by simp [hexplicit,he]),hagain]
        exact ⟨rfl,rfl,rfl,Or.inl rfl⟩
    · refine ⟨_,hwithin (Or.inr hp),?_⟩
      rw [if_neg (by simp [hp]),hagain]
      exact ⟨rfl,rfl,rfl,Or.inl rfl⟩
    · exact hfixed (by simp [Temporal,hc])

/-- The guard lets a relation supersede its target only for an explicit correction within the
evidence horizon, or when the candidate's event is after that of a target that is not the
owner's and not after the horizon; it keeps the target, a second application changes nothing
more, and the horizon is the earlier of the evidence's and the sweep's time. -/
theorem temporal_order_enforced (snapshot : Evaluation) (reading : IndependentReading)
    (relation result : MemoryRelationDecision)
    (h : enforceTemporalOrder snapshot reading relation = .ok result) :
    (result.relation = "supersedes" → WithinHorizon snapshot reading ∧
      (explicitCorrection snapshot relation = true ∨ ∃ target c t,
        temporalTarget snapshot relation = some target ∧ target.authority ≠ "owner_directed" ∧
        reading.eventValidFrom = some c ∧ target.eventValidFrom.read = some t ∧ t < c)) ∧
    (result.relation = "historical_predecessor" → ∃ target c t,
      temporalTarget snapshot relation = some target ∧
      reading.eventValidFrom = some c ∧ target.eventValidFrom.read = some t ∧ c < t) ∧
    (Temporal relation → Temporal result ∨ result.relation = "conflicts_with") ∧
    (¬Temporal relation → result = relation) ∧
    (result.targetMemoryId = relation.targetMemoryId ∧
      result.replacementContent = relation.replacementContent) ∧
    (∃ again, enforceTemporalOrder snapshot reading result = .ok again ∧
      again.relation = result.relation ∧ again.targetMemoryId = result.targetMemoryId ∧
      again.replacementContent = result.replacementContent ∧
      (again = result ∨ explicitCorrection snapshot relation = true ∧
        relation.relation = "historical_predecessor")) ∧
    evidenceHorizon snapshot =
      ((citedHorizon snapshot).toList ++ (sweepHorizon snapshot).toList).min? := by
  have hr := enforceTemporalOrder_ruled h
  refine ⟨fun hs => ?_,fun hp => ?_,fun ht => ?_,fun hn => ?_,?_,
    enforceTemporalOrder_again hr,evidenceHorizon_eq snapshot⟩
  · cases hr with
    | untimed hn => exact absurd (Or.inl hs) hn
    | ownerDirected _ _ => simp at hs
    | beyond _ => simp [MemoryRelationDecision.guarded] at hs
    | corrected _ _ hc hw => exact ⟨hw,Or.inl hc⟩
    | ordered _ htarget hown _ hw =>
      refine ⟨hw,?_⟩
      by_cases he : explicitCorrection snapshot relation = true
      · exact Or.inl he
      · right
        rcases orderedRelation_cases relation reading.eventValidFrom _ with
          ⟨-,-,c,t,hc,ht,hlt⟩ | ⟨hk,-⟩ | hk
        · exact ⟨_,c,t,htarget,fun ha => he (hown ha),hc,ht,hlt⟩
        · rw [hk] at hs
          simp at hs
        · rw [hk] at hs
          simp at hs
  · cases hr with
    | untimed hn => exact absurd (Or.inr hp) hn
    | ownerDirected _ _ => simp at hp
    | beyond _ => simp [MemoryRelationDecision.guarded] at hp
    | corrected _ _ _ _ => simp [MemoryRelationDecision.guarded] at hp
    | ordered _ htarget _ _ _ =>
      rcases orderedRelation_cases relation reading.eventValidFrom _ with
        ⟨hk,-⟩ | ⟨-,-,c,t,hc,ht,hlt⟩ | hk
      · rw [hk] at hp
        simp at hp
      · exact ⟨_,c,t,htarget,hc,ht,hlt⟩
      · rw [hk] at hp
        simp at hp
  · cases hr with
    | untimed hn => exact absurd ht hn
    | ownerDirected _ _ => exact Or.inr rfl
    | beyond _ => exact Or.inr rfl
    | corrected _ _ _ _ => exact Or.inl (Or.inl rfl)
    | ordered _ _ _ _ _ =>
      rcases orderedRelation_cases relation reading.eventValidFrom _ with ⟨hk,-⟩ | ⟨hk,-⟩ | hk
      · exact Or.inl (Or.inl hk)
      · exact Or.inl (Or.inr hk)
      · exact Or.inr hk
  · rw [enforceTemporalOrder_untimed snapshot reading hn] at h
    exact (Except.ok.inj h).symm
  · cases hr with
    | ordered _ _ _ _ _ => exact orderedRelation_same relation _ _
    | _ => exact ⟨rfl,rfl⟩

end

/-- A reader of times to evaluate the guard with. -/
@[reducible] def plainTimes : TimeText := ⟨fun s => s.toList.length⟩

/-- A candidate of a sweep at time 9 with evidence of time 12, and a memory whose event was at
time 3. -/
def movedEvaluation : Evaluation where
  candidateId := 0
  sourceTranscriptId := 0
  sourceTurnId := 0
  sourceRevision := 1
  memoryRevision := 1
  evidenceRefs := ⟨0,none,[0],none,[4],[],[],none⟩
  publicationAllowed := true
  payload := {
    kind := "fact"
    content := some "moved to Leeds"
    scope := some .crossChat
    durability := some .longTerm
    intakePath := "sweep"
    origin := some "sweep"
    temporalHorizonAt := .datetime 9}
  evidenceItems := [⟨.datetime 12⟩]
  activeMemories := [⟨4,"derived",.datetime 3⟩]

theorem temporal_order_enforced_moved : letI := plainTimes;
    enforceTemporalOrder movedEvaluation {eventValidFrom := some 7} ⟨"supersedes",some 4,none,none⟩ =
        .ok ⟨"supersedes",some 4,none,some "event_order_checked"⟩ ∧
      evidenceHorizon movedEvaluation = some 9 ∧
      WithinHorizon movedEvaluation {eventValidFrom := some 7} := by
  let := plainTimes
  have h : enforceTemporalOrder movedEvaluation {eventValidFrom := some 7}
      ⟨"supersedes",some 4,none,none⟩ = .ok ⟨"supersedes",some 4,none,some "event_order_checked"⟩ := by
    rfl
  exact ⟨h,by decide,((temporal_order_enforced _ _ _ _ h).1 rfl).1⟩

end Memory
end Atlas
