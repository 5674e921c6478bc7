import Atlas.Schedules.WakeOnce

/-! What the model can tell of the fields that a notification names as sensitive. -/
namespace Atlas
namespace Schedules

open Actions Notifications

/-- Two entries of a detail with one key, whose values may differ where the key is free. -/
def AlikeEntry (free : String → Prop) (p q : String × Json) : Prop :=
  p.1 = q.1 ∧ (¬free p.1 → p.2 = q.2)

/-- Two notifications that agree besides the values of some of their texts and of some keys of
their details. -/
structure AlikeBesides (freeText freeKey : String → Prop) (row other : NotificationRow) :
    Prop where
  rest : {other with title := row.title, body := row.body, detail := row.detail} = row
  title : ¬freeText "title" → row.title = other.title
  body : ¬freeText "body" → row.body = other.body
  detail : List.Forall₂ (AlikeEntry freeKey) row.detail other.detail

/-- Two notifications that differ only in the values of the fields that they name. -/
def Alike (row other : NotificationRow) : Prop :=
  AlikeBesides (· ∈ row.sensitiveFields) (· ∈ row.sensitiveFields) row other

/-- Two notifications that differ only in the values of named fields, the title and a key of the
detail called `body` aside. -/
def AlikeShown (row other : NotificationRow) : Prop :=
  AlikeBesides (fun name => name ∈ row.sensitiveFields ∧ name ≠ "title")
    (fun key => key ∈ row.sensitiveFields ∧ key ≠ "body") row other

/-- The values of redacted keys leave no trace in a detail. -/
theorem redacted_detail_eq {hidden : List String} {detail other : Dict}
    (h : List.Forall₂ (AlikeEntry fun key => key ∈ hidden ∧ key ≠ "body") detail other) :
    (detail.map fun p => if p.1 ≠ "body" ∧ hidden.contains p.1 then (p.1,redacted) else p) =
      other.map fun p => if p.1 ≠ "body" ∧ hidden.contains p.1 then (p.1,redacted) else p := by
  induction h with
  | nil => rfl
  | @cons p q ps qs hpq _ ih =>
    rw [List.map_cons,List.map_cons,ih]
    congr 1
    rcases p with ⟨key,value⟩
    rcases q with ⟨key',value'⟩
    rcases hpq with ⟨hkey,hvalue⟩
    simp only at hkey hvalue
    subst hkey
    by_cases hidden_key : key ∈ hidden ∧ key ≠ "body"
    · simp [hidden_key.1,hidden_key.2]
    · rw [hvalue hidden_key]

section

variable [ScheduleRuntime]

theorem projectNotification_alike {row other : NotificationRow} (h : AlikeShown row other)
    (id : ℕ) : projectNotification id row = projectNotification id other := by
  rcases other with ⟨source,kind,severity,title,body,detail,hidden,threadKey,status,readAt,
    createdAt,resolvedAt,runId,pushStatus,pushQuiet,pushAttemptedAt,wakeClaimedAt⟩
  have hhidden : row.sensitiveFields = hidden := by rw [← h.rest]
  have htitle : row.title = title := h.title fun hfree => hfree.2 rfl
  have hbody : (if hidden.contains "body" then redacted else Json.str row.body) =
      if hidden.contains "body" then redacted else Json.str body := by
    by_cases hnamed : "body" ∈ hidden
    · simp [hnamed]
    · rw [h.body fun hfree => hnamed (hhidden ▸ hfree.1)]
  have hdetail := redacted_detail_eq (hhidden ▸ h.detail)
  have hrest := h.rest
  simp only at hrest hdetail
  rw [← hrest]
  simp only [projectNotification]
  rw [htitle,hbody,hdetail]

/-- Neither the projection of a notification for the model, nor the filters that match it, nor
the prompt of a run that it wakes depends on the values of its redacted fields. -/
theorem redaction_blind {row other : NotificationRow} (h : AlikeShown row other) (id : ℕ) :
    projectNotification id row = projectNotification id other ∧
      (∀ f : EventFilter, f.matches (projectNotification id row) =
        f.matches (projectNotification id other)) ∧
      ∀ taskPrompt, composeEventPrompt taskPrompt (projectNotification id row) =
        composeEventPrompt taskPrompt (projectNotification id other) := by
  have heq := projectNotification_alike h id
  exact ⟨heq,fun f => congrArg f.matches heq,fun taskPrompt =>
    congrArg (composeEventPrompt taskPrompt) heq⟩

end

/-- A request to sign in, whose code and body are sensitive. -/
def signIn (code : String) : NotificationRow where
  source := "runtime.rdc"
  kind := "auth_required"
  severity := .actionRequired
  title := "Sign in"
  body := "Enter " ++ code
  detail := [("url",.str "https://device"),("code",.str code)]
  sensitiveFields := ["code","body"]

theorem redaction_blind_signIn : letI := plainSchedules
    projectNotification 0 (signIn "AB12") = projectNotification 0 (signIn "CD34") := by
  let := plainSchedules
  refine (redaction_blind ⟨rfl,fun _ => rfl,fun hfree => ?_,?_⟩ 0).1
  · exact absurd ⟨by decide,by decide⟩ hfree
  · refine .cons ⟨rfl,fun _ => rfl⟩ (.cons ⟨rfl,fun hfree => ?_⟩ .nil)
    exact absurd ⟨by decide,by decide⟩ hfree

/-- A notification that names its title. -/
def titled (title : String) : NotificationRow where
  source := "runtime.rdc"
  kind := "auth_required"
  severity := .actionRequired
  title := title
  sensitiveFields := ["title"]

/-- A title that is named as sensitive is shown to the model all the same. -/
theorem title_shown : letI := plainSchedules
    Alike (titled "Code AB12") (titled "Code CD34") ∧
      projectNotification 0 (titled "Code AB12") ≠ projectNotification 0 (titled "Code CD34") := by
  let := plainSchedules
  refine ⟨⟨rfl,fun hfree => ?_,fun _ => rfl,.nil⟩,fun heq => ?_⟩
  · exact absurd (by decide) hfree
  · simp [projectNotification,titled] at heq

end Schedules
end Atlas
