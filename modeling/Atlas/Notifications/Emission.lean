import Atlas.Notifications.Hook
import Mathlib.Data.List.TakeWhile

/-! What an event emitted in one transaction leaves open on the threads of the awareness ledger,
and what the owner closes there. -/
namespace Atlas
namespace Notifications

open Actions
open Memory (strip)

/-- Whether a notification is open on a thread. -/
def openOn (rows : List NotificationRow) (key : String) : Bool := rows.any (·.isOpen key)

/-- `emit_sync`: the row that it returns, if any, and the rows after it. -/
def emitSync (repeatMinutes : ℕ) (now : Instant) (rows : List NotificationRow)
    (event : NotificationEvent) : Option NotificationRow × List NotificationRow :=
  let openRows := event.thread.elim [] fun key => rows.filter (·.isOpen key)
  let history := event.thread.elim (false,none) (threadPushHistory rows)
  match emission openRows history event now repeatMinutes with
  | .nothing => (none,rows)
  | .duplicate => (openRows.find? (·.repeats event),rows)
  | .written close row =>
      (some row,(rows.map fun r => if event.thread.any r.isOpen then close r else r) ++ [row])

/-- Events emitted one after the other, with the number of those that left or found a row. -/
def emitAll (repeatMinutes : ℕ) (now : Instant) :
    List NotificationRow → List NotificationEvent → ℕ × List NotificationRow
  | rows, [] => (0,rows)
  | rows, event :: events =>
      let (row,next) := emitSync repeatMinutes now rows event
      let (emitted,last) := emitAll repeatMinutes now next events
      (emitted + if row.isSome then 1 else 0,last)

/-- `resolve_thread_sync`. -/
def resolveThread (rows : List NotificationRow) (key : String) (now : Instant) :
    List NotificationRow :=
  rows.map fun row => if row.isOpen key then row.resolve now else row

/-- `NotificationService.resolve`: the thread of the row is closed, and the row itself. -/
def resolveNotification (rows : List NotificationRow) (id : ℕ) (now : Instant) :
    Except Refusal (List NotificationRow) :=
  match rows[id]? with
  | none => .error ⟨.lookupError,"Notification not found"⟩
  | some row =>
      let closed := (row.threadKey.filter fun key => !key.isEmpty).elim rows
        fun key => resolveThread rows key now
      .ok (closed.modify id fun row =>
        let row := if row.status = .opened then row.resolve now else row
        {row with readAt := row.readAt.or (some now)})

section

variable {repeatMinutes : ℕ} {now : Instant} {rows : List NotificationRow}
  {event : NotificationEvent} {key : String}

theorem thread_eq (hkey : event.threadKey = some key) (hne : key ≠ "") :
    event.thread = some key := by
  simp [NotificationEvent.thread,hkey,hne]

/-- Closing the open rows of a thread leaves the other threads as they are. -/
theorem openOn_close {close : NotificationRow → NotificationRow}
    (hclose : ∀ r k, (close r).isOpen k = false) (k : String) :
    openOn (rows.map fun r => if r.isOpen key then close r else r) k =
      (openOn rows k && k != key) := by
  induction rows with
  | nil => rfl
  | cons r rows ih =>
    simp only [openOn,List.map_cons,List.any_cons] at ih ⊢
    rw [ih,Bool.and_or_distrib_right]
    congr 1
    by_cases hr : r.isOpen key = true
    · rw [if_pos hr,hclose]
      by_cases hk : k = key
      · simp [hk]
      · have hnot : r.isOpen k = false := by
          rw [Bool.eq_false_iff]
          exact fun hopen => hk (isOpen_unique hopen hr)
        rw [hnot,Bool.false_and]
    · rw [if_neg hr]
      by_cases hk : k = key
      · simp only [Bool.not_eq_true] at hr
        simp [hk,hr]
      · simp [hk]

theorem openOn_append (row : NotificationRow) (k : String) :
    openOn (rows ++ [row]) k = (openOn rows k || row.isOpen k) := by
  simp [openOn]

theorem openOn_filter : (rows.filter (·.isOpen key)) = [] ↔ openOn rows key = false := by
  simp [openOn]

/-- An event that resolves its thread leaves nothing open there. -/
theorem openOn_resolved (hs : event.severity = .resolved) (hkey : event.threadKey = some key)
    (hne : key ≠ "") (k : String) :
    openOn (emitSync repeatMinutes now rows event).2 k = (openOn rows k && k != key) := by
  simp only [emitSync,thread_eq hkey hne,Option.elim_some,emission,if_pos hs,Option.any_some]
  by_cases hnil : rows.filter (·.isOpen key) = []
  · rw [hnil,List.isEmpty_nil,if_pos rfl]
    by_cases hk : k = key
    · rw [openOn_filter] at hnil
      simp [hk,hnil]
    · simp [hk]
  · rw [if_neg (by rwa [List.isEmpty_iff])]
    rw [openOn_append,isOpen_resolve,Bool.or_false]
    exact openOn_close (fun r k => isOpen_resolve r now k) k

/-- An event that announces something leaves a row open on its thread. -/
theorem openOn_announced (hs : event.severity ≠ .resolved) (hkey : event.threadKey = some key)
    (hne : key ≠ "") (k : String) :
    openOn (emitSync repeatMinutes now rows event).2 k = (openOn rows k || k == key) := by
  simp only [emitSync,thread_eq hkey hne,Option.elim_some]
  rcases emission_announced (rows.filter (·.isOpen key)) (threadPushHistory rows key) now
    repeatMinutes hs hkey with ⟨he,hopened⟩ | ⟨row,he,hopen⟩
  · rw [he]
    by_cases hk : k = key
    · have htrue : openOn rows key = true := by
        rw [← Bool.not_eq_false,← openOn_filter.not]
        exact hopened
      simp [hk,htrue]
    · simp [hk]
  · have hclose : openOn (rows.map fun r => if r.isOpen key then r.supersede else r) k =
        (openOn rows k && k != key) := openOn_close isOpen_supersede k
    rw [he]
    refine (openOn_append row k).trans ?_
    simp only [Option.any_some]
    rw [hclose,hopen]
    by_cases hk : k = key
    · simp [hk]
    · have hbeq : (k == key) = false := beq_eq_false_iff_ne.mpr hk
      rw [bne,hbeq,Bool.not_false,Bool.and_true]

/-- A row that an event leaves open was open before and is not on the thread that it resolves, or
is the row of the event. -/
theorem mem_emitSync {row : NotificationRow}
    (hrow : row ∈ (emitSync repeatMinutes now rows event).2) (hopen : row.status = .opened) :
    (row ∈ rows ∧ (event.severity = .resolved → ∀ key, event.thread = some key →
      row.threadKey ≠ some key)) ∨
    (event.severity ≠ .resolved ∧ row.source = event.source ∧ row.kind = event.kind ∧
      row.threadKey = event.threadKey) := by
  have hkept : ∀ (close : NotificationRow → NotificationRow), (∀ r, (close r).status ≠ .opened) →
      row ∈ (rows.map fun r => if event.thread.any r.isOpen then close r else r) →
      row ∈ rows ∧ ∀ key, event.thread = some key → row.threadKey ≠ some key := by
    intro close hclose hmem
    obtain ⟨r,hr,hrow⟩ := List.mem_map.mp hmem
    by_cases hany : event.thread.any r.isOpen = true
    · rw [if_pos hany] at hrow
      exact absurd hopen (hrow ▸ hclose r)
    · rw [if_neg hany] at hrow
      subst hrow
      refine ⟨hr,fun key hkey hthread => hany ?_⟩
      simp [hkey,NotificationRow.isOpen,hopen,hthread]
  simp only [emitSync,emission] at hrow
  by_cases hs : event.severity = .resolved
  · refine Or.inl ?_
    simp only [if_pos hs] at hrow
    by_cases hnil : (event.thread.elim [] fun key => rows.filter (·.isOpen key)) = []
    · rw [hnil,List.isEmpty_nil,if_pos rfl] at hrow
      refine ⟨hrow,fun _ key hkey hthread => ?_⟩
      have hmem : row ∈ rows.filter (·.isOpen key) := by
        rw [List.mem_filter]
        exact ⟨hrow,by simp [NotificationRow.isOpen,hopen,hthread]⟩
      rw [hkey,Option.elim_some] at hnil
      rw [hnil] at hmem
      exact absurd hmem List.not_mem_nil
    · rw [if_neg (by rwa [List.isEmpty_iff])] at hrow
      rcases List.mem_append.mp hrow with hrow | hrow
      · have hrest := hkept (·.resolve now) (fun r => by simp [NotificationRow.resolve]) hrow
        exact ⟨hrest.1,fun _ => hrest.2⟩
      · rw [List.mem_singleton.mp hrow] at hopen
        cases hopen
  · simp only [if_neg hs] at hrow
    split at hrow
    · next heq =>
      split at heq <;> cases heq
    · exact Or.inl ⟨hrow,fun h => absurd h hs⟩
    · next close written heq =>
      split at heq
      · cases heq
      · obtain ⟨rfl,rfl⟩ := Emission.written.inj heq
        rcases List.mem_append.mp hrow with hrow | hrow
        · have hrest := hkept (·.supersede) (fun r => by simp [NotificationRow.supersede]) hrow
          exact Or.inl ⟨hrest.1,fun h => absurd h hs⟩
        · rw [List.mem_singleton.mp hrow]
          exact Or.inr ⟨hs,rfl,rfl,rfl⟩

theorem emitAll_append (events events' : List NotificationEvent) :
    (emitAll repeatMinutes now rows (events ++ events')).2 =
      (emitAll repeatMinutes now (emitAll repeatMinutes now rows events).2 events').2 := by
  induction events generalizing rows with
  | nil => rfl
  | cons event events ih => exact ih

theorem openOn_modify {id : ℕ} {f : NotificationRow → NotificationRow}
    (hf : ∀ r, rows[id]? = some r → (f r).isOpen key = r.isOpen key) :
    openOn (rows.modify id f) key = openOn rows key := by
  induction rows generalizing id with
  | nil => simp
  | cons r rows ih =>
    cases id with
    | zero => simp [openOn,hf r rfl]
    | succ id =>
      have hrest : openOn (rows.modify id f) key = openOn rows key := ih fun r hr => hf r hr
      simp only [openOn,List.modify_succ_cons,List.any_cons] at hrest ⊢
      rw [hrest]

/-- What the owner closes: the thread of a notification. -/
theorem resolveNotification_ok {id : ℕ} {rows' : List NotificationRow}
    (h : resolveNotification rows id now = .ok rows') (hne : key ≠ "") :
    openOn rows' key = (openOn rows key && (rows[id]?.bind (·.threadKey)) != some key) := by
  simp only [resolveNotification] at h
  split at h
  · cases h
  · next row hrow =>
    obtain rfl := Except.ok.inj h
    rw [hrow,Option.bind_some]
    have hshut : ∀ r : NotificationRow,
        ({(if r.status = .opened then r.resolve now else r) with
          readAt := (if r.status = .opened then r.resolve now else r).readAt.or
            (some now)} : NotificationRow).isOpen key = false := by
      intro r
      by_cases hr : r.status = .opened
      · simp [NotificationRow.isOpen,NotificationRow.resolve,hr]
      · simp [NotificationRow.isOpen,hr]
    cases hthread : row.threadKey.filter fun key => !key.isEmpty with
    | none =>
      have hkey : row.threadKey ≠ some key := by
        intro hkey
        rw [hkey] at hthread
        simp [hne] at hthread
      have hnot : row.isOpen key = false := by simp [NotificationRow.isOpen,hkey]
      rw [Option.elim_none,openOn_modify fun r hr => ?_]
      · simp [hkey]
      · obtain rfl := Option.some.inj (hrow.symm.trans hr)
        exact (hshut row).trans hnot.symm
    | some t =>
      have ht : row.threadKey = some t := (Option.filter_eq_some_iff.mp hthread).1
      rw [Option.elim_some,openOn_modify fun r hr => ?_]
      · rw [resolveThread,openOn_close (fun r k => isOpen_resolve r now k),ht]
        by_cases hk : t = key
        · rw [hk,bne_self_eq_false,bne_self_eq_false]
        · have hbeq : (key == t) = false := beq_eq_false_iff_ne.mpr (Ne.symm hk)
          have hbeq' : (some t == some key) = false :=
            beq_eq_false_iff_ne.mpr fun h => hk (Option.some.inj h)
          rw [bne,hbeq,bne,hbeq']
      · rw [resolveThread,List.getElem?_map,hrow,Option.map_some] at hr
        obtain rfl := Option.some.inj hr
        rw [hshut]
        by_cases hopen : row.isOpen t = true
        · rw [if_pos hopen,isOpen_resolve]
        · rw [if_neg hopen,eq_comm,Bool.eq_false_iff]
          intro hkey
          obtain rfl : t = key := by
            simp only [NotificationRow.isOpen,Bool.and_eq_true,beq_iff_eq] at hkey
            exact Option.some.inj (ht.symm.trans hkey.2)
          exact hopen hkey

theorem strip_ne_empty {s : String} {c : Char} (hc : c ∈ s.toList) (hspace : isSpace c = false) :
    strip s ≠ "" := by
  intro h
  have hlist := congrArg String.toList h
  simp only [strip,String.toList_ofList,String.toList_empty,List.reverse_eq_nil_iff,
    List.dropWhile_eq_nil_iff,List.mem_reverse] at hlist
  have hmem : c ∈ s.toList.dropWhile isSpace := by
    have hsplit := List.takeWhile_append_dropWhile (p := isSpace) (l := s.toList)
    rw [← hsplit,List.mem_append] at hc
    rcases hc with hc | hc
    · have htrue : isSpace c = true := List.mem_takeWhile_imp hc
      rw [hspace] at htrue
      cases htrue
    · exact hc
  have htrue := hlist c hmem
  rw [hspace] at htrue
  cases htrue

/-- An event whose title shows something is accepted. -/
theorem check_of_mem {c : Char} (hc : c ∈ event.title.toList) (hspace : isSpace c = false) :
    event.check = .ok () := by
  rw [NotificationEvent.check,require,if_pos (strip_ne_empty hc hspace)]

end

end Notifications
end Atlas
