import Atlas.Notifications.Threads

/-! One open row a thread where events on a thread find what is open on it. -/
namespace Atlas
namespace Notifications

open Actions RowTable

/-- A row as a session leaves it that has its lock and opens nothing. -/
structure Slot.Closed (session : ℕ) (s s' : Slot) : Prop where
  row : s'.row = s.row
  lock : s'.lock = some session
  mine : ∀ d, s.draft = some d → d.session = session
  draft : ∀ d', s'.draft = some d' →
    d'.session = session ∧ (s.draft = some d' ∨ ∀ key, d'.row.isOpen key = false)
  kept : s.draft.isSome → s'.draft.isSome

namespace Slot

variable {session : ℕ} {key : String} {s s' : Slot}

/-- A row with a draft is locked by the draft's session. -/
def Owned (s : Slot) : Prop := ∀ d, s.draft = some d → s.lock = some d.session

theorem mine_of_free (ho : s.Owned) (hf : s.free session = true) :
    ∀ d, s.draft = some d → d.session = session := by
  intro d hd
  rw [free,ho d hd,Option.all_some,beq_iff_eq] at hf
  exact hf

theorem closed_take (ho : s.Owned) (hf : s.free session = true) :
    Closed session s (s.take session) :=
  ⟨rfl,rfl,mine_of_free ho hf,fun d hd => ⟨mine_of_free ho hf d hd,Or.inl hd⟩,id⟩

theorem closed_write (ho : s.Owned) (hf : s.free session = true)
    {close : NotificationRow → NotificationRow} (hclose : ∀ r key, (close r).isOpen key = false) :
    Closed session s (s.write session close) := by
  have hmine := mine_of_free ho hf
  refine ⟨rfl,rfl,hmine,fun d hd => ?_,fun h => ?_⟩
  · obtain ⟨r,_,rfl⟩ := Option.map_eq_some_iff.mp hd
    exact ⟨rfl,Or.inr (hclose r)⟩
  · obtain ⟨d,hd⟩ := Option.isSome_iff_exists.mp h
    simp [write,held,hd,hmine d hd]

theorem closing_write {close : NotificationRow → NotificationRow}
    (hclose : ∀ r key, (close r).isOpen key = false)
    (h : (s.write session close).stored key = true ∨ (s.write session close).drafted key = true) :
    (s.write session close).closing session key = true := by
  cases hheld : s.held session with
  | none =>
    rcases h with h | h
    · have hrow : s.row = none := by
        rw [held] at hheld
        split at hheld
        · split at hheld
          · cases hheld
          · exact hheld
        · exact hheld
      simp [write,stored,hrow] at h
    · simp [write,drafted,hheld] at h
  | some r => simp [write,closing,hheld,hclose]

theorem stored_iff : s.stored key = true ↔ ∃ r, s.row = some r ∧ r.isOpen key = true := by
  rw [stored,Option.any_eq_true]

theorem drafted_iff : s.drafted key = true ↔ ∃ d, s.draft = some d ∧ d.row.isOpen key = true := by
  rw [drafted,Option.any_eq_true]

theorem closing_iff : s.closing session key = true ↔
    ∃ d, s.draft = some d ∧ d.session = session ∧ d.row.isOpen key = false := by
  simp [closing,Option.any_eq_true]

theorem not_drafted_of_closing (h : s.closing session key = true) : s.drafted key = false := by
  obtain ⟨d,hd,_,hclosed⟩ := closing_iff.mp h
  rw [drafted,hd,Option.any_some,hclosed]

theorem Closed.drafted (h : Closed session s s') (hd : s'.drafted key = true) :
    s.drafted key = true := by
  obtain ⟨d,hd,hopen⟩ := drafted_iff.mp hd
  rcases (h.draft d hd).2 with he | hclosed
  · exact drafted_iff.mpr ⟨d,he,hopen⟩
  · rw [hclosed key] at hopen
    cases hopen

theorem Closed.closing (h : Closed session s s') {owner : ℕ}
    (hc : s.closing owner key = true) : s'.closing owner key = true := by
  obtain ⟨d,hd,rfl,hclosed⟩ := closing_iff.mp hc
  obtain ⟨d',hd'⟩ := Option.isSome_iff_exists.mp (h.kept (by rw [hd]; rfl))
  obtain ⟨hsession,hsame⟩ := h.draft d' hd'
  refine closing_iff.mpr ⟨d',hd',hsession.trans (h.mine d hd).symm,?_⟩
  rcases hsame with he | hall
  · obtain rfl := Option.some.inj (hd.symm.trans he)
    exact hclosed
  · exact hall key

theorem Closed.stored (h : Closed session s s') : s'.stored key = s.stored key := by
  rw [Slot.stored,Slot.stored,h.row]

theorem Closed.owned (h : Closed session s s') : s'.Owned := by
  intro d hd
  rw [h.lock,(h.draft d hd).1]

theorem owned_flush (ho : s.Owned) : (s.flush session).Owned := by
  intro d hd
  obtain ⟨d',hd',rfl⟩ := Option.map_eq_some_iff.mp hd
  have hlock : (s.flush session).lock = some d'.session := ho d' hd'
  rw [hlock]
  split
  · rfl
  · rfl

theorem draft_release {d : Draft} :
    (s.release session).draft = some d ↔ s.draft = some d ∧ d.session ≠ session := by
  simp [release,Option.filter_eq_some_iff]

theorem owned_release (ho : s.Owned) : (s.release session).Owned := by
  intro d hd
  obtain ⟨hd,hne⟩ := draft_release.mp hd
  simp [release,ho d hd,hne]

theorem drafted_release (h : (s.release session).drafted key = true) : s.drafted key = true := by
  obtain ⟨d,hd,hopen⟩ := drafted_iff.mp h
  exact drafted_iff.mpr ⟨d,(draft_release.mp hd).1,hopen⟩

theorem closing_release {owner : ℕ} (hne : owner ≠ session) (h : s.closing owner key = true) :
    (s.release session).closing owner key = true := by
  obtain ⟨d,hd,rfl,hclosed⟩ := closing_iff.mp h
  exact closing_iff.mpr ⟨d,draft_release.mpr ⟨hd,hne⟩,rfl,hclosed⟩

/-- What a commit makes the committed row of a slot. -/
theorem stored_commit (h : (s.commit session).stored key = true) :
    (∃ d, s.draft = some d ∧ d.session = session ∧ d.row.isOpen key = true) ∨
      (s.stored key = true ∧ s.closing session key = false) := by
  obtain ⟨r,hr,hopen⟩ := stored_iff.mp h
  cases hd : s.draft with
  | none =>
    simp only [commit,hd] at hr
    exact Or.inr ⟨stored_iff.mpr ⟨r,hr,hopen⟩,by simp [closing,hd]⟩
  | some d =>
    simp only [commit,hd] at hr
    by_cases hs : d.session = session
    · rw [if_pos hs] at hr
      obtain rfl := Option.some.inj hr
      exact Or.inl ⟨d,rfl,hs,hopen⟩
    · rw [if_neg hs] at hr
      exact Or.inr ⟨stored_iff.mpr ⟨r,hr,hopen⟩,by simp [closing,hd,hs]⟩

theorem commit_of_draft {d : Draft} (hd : s.draft = some d) (hs : d.session = session)
    (hopen : d.row.isOpen key = true) : (s.commit session).stored key = true :=
  stored_iff.mpr ⟨d.row,by simp only [commit,hd,if_pos hs],hopen⟩

end Slot

/-- What an emission writes opens nothing but its own row, on its own thread. -/
theorem emission_written {openRows : List NotificationRow} {history : Bool × Option Instant}
    {event : NotificationEvent} {now : Instant} {repeatMinutes : ℕ}
    {close : NotificationRow → NotificationRow} {row : NotificationRow}
    (h : emission openRows history event now repeatMinutes = .written close row) :
    (∀ r key, (close r).isOpen key = false) ∧
      ∀ key, row.isOpen key = true → event.severity ≠ .resolved ∧ event.threadKey = some key := by
  simp only [emission] at h
  split at h
  · split at h
    · cases h
    · obtain ⟨rfl,rfl⟩ := Emission.written.inj h
      exact ⟨fun r key => isOpen_resolve r now key,fun key hopen => by simp at hopen⟩
  · next hs =>
    split at h
    · cases h
    · obtain ⟨rfl,rfl⟩ := Emission.written.inj h
      refine ⟨fun r key => isOpen_supersede r key,fun key hopen => ⟨hs,?_⟩⟩
      simpa [NotificationRow.isOpen] using hopen

namespace Board

/-- What holds of the rows where no announcement was made past an open row. -/
structure Kept (m : Board) : Prop where
  owned : ∀ {i : ℕ} {s : Slot}, m.slots[i]? = some s → s.Owned
  one : ∀ {key : String} {i j : ℕ} {s t : Slot}, m.slots[i]? = some s → m.slots[j]? = some t →
    s.stored key = true → t.stored key = true → i = j
  cover : ∀ {key : String} {i j : ℕ} {s t : Slot} {d : Draft}, m.slots[i]? = some s →
    s.draft = some d → d.row.isOpen key = true → m.slots[j]? = some t → j ≠ i →
    t.drafted key = false ∧ (t.stored key = true → t.closing d.session key = true)

theorem kept_start : Kept {} where
  owned := fun h => by simp at h
  one := fun h => by simp at h
  cover := fun h => by simp at h

variable {m : Board} {session : ℕ}

theorem kept_endLookup (h : m.Kept) (session : ℕ) : (m.endLookup session).Kept :=
  ⟨h.owned,h.one,h.cover⟩

theorem slots_change {ids : List ℕ} {f : Slot → Slot} {i : ℕ} {s' : Slot}
    (h : (m.change session ids f).slots[i]? = some s') :
    ∃ s, m.slots[i]? = some s ∧ ((i ∈ ids ∧ s' = f s) ∨ (i ∉ ids ∧ s' = s)) := by
  rw [change,List.getElem?_mapIdx] at h
  obtain ⟨s,hs,rfl⟩ := Option.map_eq_some_iff.mp h
  refine ⟨s,hs,?_⟩
  by_cases hi : i ∈ ids
  · exact Or.inl ⟨hi,by rw [if_pos (List.contains_iff_mem.mpr hi)]⟩
  · exact Or.inr ⟨hi,by rw [if_neg (fun hc => hi (List.contains_iff_mem.mp hc))]⟩

theorem kept_change (h : m.Kept) {ids : List ℕ} {f : Slot → Slot}
    (hf : ∀ (i : ℕ) (s : Slot), i ∈ ids → m.slots[i]? = some s → Slot.Closed session s (f s)) :
    (m.change session ids f).Kept := by
  have hold : ∀ {i : ℕ} {s' : Slot}, (m.change session ids f).slots[i]? = some s' →
      ∃ s, m.slots[i]? = some s ∧ (s' = s ∨ Slot.Closed session s s') := by
    intro i s' hs'
    obtain ⟨s,hs,⟨hi,rfl⟩ | ⟨_,rfl⟩⟩ := slots_change hs'
    · exact ⟨s,hs,Or.inr (hf i s hi hs)⟩
    · exact ⟨s',hs,Or.inl rfl⟩
  constructor
  · intro i s' hs'
    obtain ⟨s,hs,rfl | hclosed⟩ := hold hs'
    · exact h.owned hs
    · exact hclosed.owned
  · intro key i j s' t' hs' ht' hss htt
    obtain ⟨s,hs,hsame⟩ := hold hs'
    obtain ⟨t,ht,htame⟩ := hold ht'
    have hss' : s.stored key = true := by
      rcases hsame with rfl | hclosed
      · exact hss
      · rw [← hclosed.stored,hss]
    have htt' : t.stored key = true := by
      rcases htame with rfl | hclosed
      · exact htt
      · rw [← hclosed.stored,htt]
    exact h.one hs ht hss' htt'
  · intro key i j s' t' d hs' hd hopen ht' hne
    obtain ⟨s,hs,hsame⟩ := hold hs'
    obtain ⟨t,ht,htame⟩ := hold ht'
    have hsd : s.draft = some d := by
      rcases hsame with rfl | hclosed
      · exact hd
      · rcases (hclosed.draft d hd).2 with he | hall
        · exact he
        · rw [hall key] at hopen
          cases hopen
    obtain ⟨hnot,hclosing⟩ := h.cover hs hsd hopen ht hne
    rcases htame with rfl | hclosed
    · exact ⟨hnot,hclosing⟩
    · constructor
      · rw [Bool.eq_false_iff]
        intro hdrafted
        rw [hclosed.drafted hdrafted] at hnot
        cases hnot
      · intro hstored
        rw [hclosed.stored] at hstored
        exact hclosed.closing (hclosing hstored)

/-- A new row on a thread on which the session has closed all that is open. -/
theorem kept_add (h : m.Kept) {row : NotificationRow}
    (hclosed : ∀ key, row.isOpen key = true → ∀ (i : ℕ) (s : Slot), m.slots[i]? = some s →
      s.stored key = true ∨ s.drafted key = true → s.closing session key = true) :
    (m.add session row).Kept := by
  have hget : ∀ {i : ℕ} {s : Slot}, (m.add session row).slots[i]? = some s →
      (i = m.slots.length ∧ s = {draft := some ⟨session,row,false⟩,lock := some session}) ∨
        (i ≠ m.slots.length ∧ m.slots[i]? = some s) := by
    intro i s hs
    rw [add,getElem?_insert] at hs
    by_cases hi : i = m.slots.length
    · rw [if_pos hi] at hs
      exact Or.inl ⟨hi,(Option.some.inj hs).symm⟩
    · rw [if_neg hi] at hs
      exact Or.inr ⟨hi,hs⟩
  constructor
  · intro i s hs
    rcases hget hs with ⟨_,rfl⟩ | ⟨_,hs⟩
    · intro d hd
      obtain rfl := Option.some.inj hd
      rfl
    · exact h.owned hs
  · intro key i j s t hs ht hss htt
    rcases hget hs with ⟨_,rfl⟩ | ⟨_,hs⟩
    · cases hss
    · rcases hget ht with ⟨_,rfl⟩ | ⟨_,ht⟩
      · cases htt
      · exact h.one hs ht hss htt
  · intro key i j s t d hs hd hopen ht hne
    rcases hget hs with ⟨hi,rfl⟩ | ⟨hi,hs⟩
    · obtain rfl := Option.some.inj hd
      rcases hget ht with ⟨hj,_⟩ | ⟨_,ht⟩
      · exact absurd (hj.trans hi.symm) hne
      · have hall := hclosed key hopen j t ht
        refine ⟨?_,fun hstored => hall (Or.inl hstored)⟩
        rw [Bool.eq_false_iff]
        intro hdrafted
        rw [Slot.not_drafted_of_closing (hall (Or.inr hdrafted))] at hdrafted
        cases hdrafted
    · rcases hget ht with ⟨_,rfl⟩ | ⟨_,ht⟩
      · refine ⟨?_,fun hstored => by cases hstored⟩
        rw [Bool.eq_false_iff]
        intro hdrafted
        have hclosing := hclosed key hdrafted i s hs
          (Or.inr (Slot.drafted_iff.mpr ⟨d,hd,hopen⟩))
        have hnot := Slot.not_drafted_of_closing hclosing
        rw [Slot.drafted_iff.mpr ⟨d,hd,hopen⟩] at hnot
        cases hnot
      · exact h.cover hs hd hopen ht hne

theorem slots_map {f : Slot → Slot} {i : ℕ} {s' : Slot} (h : (m.slots.map f)[i]? = some s') :
    ∃ s, m.slots[i]? = some s ∧ s' = f s := by
  rw [List.getElem?_map] at h
  obtain ⟨s,hs,rfl⟩ := Option.map_eq_some_iff.mp h
  exact ⟨s,hs,rfl⟩

theorem kept_flush (h : m.Kept) (session : ℕ) :
    Kept {m with slots := m.slots.map (·.flush session)} := by
  have hrow : ∀ (s : Slot) (d : Draft), (s.flush session).draft = some d →
      ∃ d', s.draft = some d' ∧ d.session = d'.session ∧ d.row = d'.row := by
    intro s d hd
    obtain ⟨d',hd',rfl⟩ := Option.map_eq_some_iff.mp hd
    refine ⟨d',hd',?_⟩
    split
    · exact ⟨rfl,rfl⟩
    · exact ⟨rfl,rfl⟩
  have hdrafted : ∀ (s : Slot) (key : String),
      (s.flush session).drafted key = s.drafted key := by
    intro s key
    simp only [Slot.drafted,Slot.flush,Option.any_map]
    congr 1
    funext d
    split
    · rfl
    · rfl
  have hclosing : ∀ (s : Slot) (owner : ℕ) (key : String),
      (s.flush session).closing owner key = s.closing owner key := by
    intro s owner key
    simp only [Slot.closing,Slot.flush,Option.any_map]
    congr 1
    funext d
    split
    · rfl
    · rfl
  constructor
  · intro i s' hs'
    obtain ⟨s,hs,rfl⟩ := slots_map hs'
    exact Slot.owned_flush (h.owned hs)
  · intro key i j s' t' hs' ht' hss htt
    obtain ⟨s,hs,rfl⟩ := slots_map hs'
    obtain ⟨t,ht,rfl⟩ := slots_map ht'
    exact h.one hs ht hss htt
  · intro key i j s' t' d hs' hd hopen ht' hne
    obtain ⟨s,hs,rfl⟩ := slots_map hs'
    obtain ⟨t,ht,rfl⟩ := slots_map ht'
    obtain ⟨d',hd',hsession,hrow'⟩ := hrow s d hd
    rw [hrow'] at hopen
    rw [hdrafted,hclosing,hsession]
    exact h.cover hs hd' hopen ht hne

theorem kept_rollback (h : m.Kept) (session : ℕ) :
    Kept {m.endLookup session with slots := m.slots.map (·.release session)} := by
  constructor
  · intro i s' hs'
    obtain ⟨s,hs,rfl⟩ := slots_map hs'
    exact Slot.owned_release (h.owned hs)
  · intro key i j s' t' hs' ht' hss htt
    obtain ⟨s,hs,rfl⟩ := slots_map hs'
    obtain ⟨t,ht,rfl⟩ := slots_map ht'
    exact h.one hs ht hss htt
  · intro key i j s' t' d hs' hd hopen ht' hne
    obtain ⟨s,hs,rfl⟩ := slots_map hs'
    obtain ⟨t,ht,rfl⟩ := slots_map ht'
    obtain ⟨hd,hother⟩ := Slot.draft_release.mp hd
    obtain ⟨hnot,hclosing⟩ := h.cover hs hd hopen ht hne
    refine ⟨?_,fun hstored => Slot.closing_release hother (hclosing hstored)⟩
    rw [Bool.eq_false_iff]
    intro hdrafted
    rw [Slot.drafted_release hdrafted] at hnot
    cases hnot

theorem kept_commit (h : m.Kept) (session : ℕ) :
    Kept {m.endLookup session with slots := m.slots.map (·.commit session)} := by
  constructor
  · intro i s' hs'
    obtain ⟨s,hs,rfl⟩ := slots_map hs'
    exact Slot.owned_release (h.owned hs)
  · intro key i j s' t' hs' ht' hss htt
    obtain ⟨s,hs,rfl⟩ := slots_map hs'
    obtain ⟨t,ht,rfl⟩ := slots_map ht'
    by_contra hne
    rcases Slot.stored_commit hss with ⟨d,hd,rfl,hopen⟩ | ⟨hsold,hsc⟩
    · obtain ⟨hnot,hclosing⟩ := h.cover hs hd hopen ht (Ne.symm hne)
      rcases Slot.stored_commit htt with ⟨d',hd',_,hopen'⟩ | ⟨htold,htc⟩
      · rw [Slot.drafted_iff.mpr ⟨d',hd',hopen'⟩] at hnot
        cases hnot
      · rw [hclosing htold] at htc
        cases htc
    · rcases Slot.stored_commit htt with ⟨d,hd,rfl,hopen⟩ | ⟨htold,_⟩
      · rw [(h.cover ht hd hopen hs hne).2 hsold] at hsc
        cases hsc
      · exact hne (h.one hs ht hsold htold)
  · intro key i j s' t' d hs' hd hopen ht' hne
    obtain ⟨s,hs,rfl⟩ := slots_map hs'
    obtain ⟨t,ht,rfl⟩ := slots_map ht'
    obtain ⟨hd,hother⟩ := Slot.draft_release.mp hd
    obtain ⟨hnot,hclosing⟩ := h.cover hs hd hopen ht hne
    constructor
    · rw [Bool.eq_false_iff]
      intro hdrafted
      rw [Slot.drafted_release hdrafted] at hnot
      cases hnot
    · intro hstored
      rcases Slot.stored_commit hstored with ⟨d',hd',_,hopen'⟩ | ⟨hstored,_⟩
      · rw [Slot.drafted_iff.mpr ⟨d',hd',hopen'⟩] at hnot
        cases hnot
      · exact Slot.closing_release hother (hclosing hstored)

theorem free_of_found {key : String} {i : ℕ} {s : Slot} (hready : m.ready session key = true)
    (hi : i ∈ m.found session key) (hs : m.slots[i]? = some s) : s.free session = true := by
  rw [ready] at hready
  rw [found] at hi
  split at hi
  · cases hi
  · next lookup hlookup =>
    rw [hlookup,Option.any_some,Bool.and_eq_true,List.all_eq_true] at hready
    split at hi
    · have hall := hready.2 i (List.mem_of_mem_filter hi)
      rw [hs,Option.all_some] at hall
      exact hall
    · cases hi

theorem free_of_thread {key : Option String} {i : ℕ} {s : Slot}
    (hready : key.any (fun key => !m.ready session key) = false)
    (hi : i ∈ (m.thread session key).1) (hs : m.slots[i]? = some s) : s.free session = true := by
  cases key with
  | none => cases hi
  | some key =>
    rw [Option.any_some,Bool.not_eq_false'] at hready
    exact free_of_found hready hi hs

theorem kept_emit (h : m.Kept) {event : NotificationEvent} {now : Instant} {repeatMinutes : ℕ}
    (hok : m.Undisturbed (.emit session event now repeatMinutes))
    (hready : event.thread.any (fun key => !m.ready session key) = false) :
    (m.emit session event now repeatMinutes).Kept := by
  have hfree : ∀ (i : ℕ) (s : Slot), i ∈ (m.thread session event.thread).1 →
      m.slots[i]? = some s → s.free session = true := fun i s => free_of_thread hready
  have htake : (m.change session _ _).Kept := kept_change h
    fun i s hi hs => Slot.closed_take (h.owned hs) (hfree i s hi hs)
  simp only [emit]
  split
  · exact htake
  · exact htake
  · next close row hwritten =>
    obtain ⟨hclose,hrow⟩ := emission_written hwritten
    have hclosed := fun i s hi hs => Slot.closed_write (h.owned hs) (hfree i s hi hs) hclose
    refine kept_add (kept_change h hclosed) fun key hopen i s' hs' hactive => ?_
    obtain ⟨hseverity,hkey⟩ := hrow key hopen
    obtain ⟨s,hs,⟨hi,rfl⟩ | ⟨hi,rfl⟩⟩ := slots_change hs'
    · exact Slot.closing_write hclose hactive
    · exact (hok hseverity key hkey i s' hs hactive).resolve_left hi

theorem kept_act (h : m.Kept) (a : BoardStep) (hok : m.Undisturbed a) : (m.act a).Kept := by
  cases a with
  | look session key => exact ⟨h.owned,h.one,h.cover⟩
  | emit session event now repeatMinutes =>
    simp only [act]
    split
    · exact h
    · next hgo =>
      rw [not_or,Bool.not_eq_true] at hgo
      exact kept_emit h hok hgo.2
  | resolveThread session now =>
    simp only [act]
    split
    · exact h
    · next lookup hlookup =>
      split
      · exact h
      · next hready =>
        rw [Bool.not_eq_false] at hready
        exact kept_change h fun i s hi hs => Slot.closed_write (h.owned hs)
          (free_of_found hready hi hs) fun r key => isOpen_resolve r now key
  | resolveRow session id now =>
    simp only [act]
    split
    · next hfree =>
      refine kept_change h fun i s hi hs => Slot.closed_write (h.owned hs) ?_
        fun r key => isOpen_resolve r now key
      obtain rfl := List.mem_singleton.mp hi
      rw [hs,Option.all_some] at hfree
      exact hfree
    · exact h
  | flush session => exact kept_flush h session
  | commit session => exact kept_commit h session
  | rollback session => exact kept_rollback h session

theorem kept_openIds (h : m.Kept) (key : String) : (m.openIds key).length ≤ 1 := by
  have hnodup := nodup_ids (·.stored key) m.slots
  have hall : ∀ i ∈ m.openIds key, ∀ j ∈ m.openIds key, i = j := by
    intro i hi j hj
    obtain ⟨s,hs,hss⟩ := mem_ids.mp hi
    obtain ⟨t,ht,htt⟩ := mem_ids.mp hj
    exact h.one hs ht hss htt
  rw [openIds] at hall ⊢
  generalize ids (·.stored key) m.slots = l at hnodup hall
  cases l with
  | nil => exact Nat.zero_le 1
  | cons i l => cases l with
    | nil => exact Nat.le_refl 1
    | cons j l =>
      have he := hall i List.mem_cons_self j (List.mem_cons_of_mem _ List.mem_cons_self)
      rw [he] at hnodup
      exact absurd List.mem_cons_self (List.nodup_cons.mp hnodup).1

end Board

/-- Where every announcement finds what is open on its thread, no thread ever has two open rows,
and the commit of an announcement leaves its row as the only open one of the thread. -/
theorem one_open_notification {m : Board}
    (h : Trace.Reach Board.act Board.Undisturbed (· = {}) m) :
    (∀ key, (m.openIds key).length ≤ 1) ∧
    ∀ (id : ℕ) (slot : Slot) (draft : Draft) (key : String), m.slots[id]? = some slot →
      slot.draft = some draft → draft.row.isOpen key = true →
      (m.act (.commit draft.session)).openIds key = [id] := by
  have hkept : ∀ {m : Board}, Trace.Reach Board.act Board.Undisturbed (· = {}) m → m.Kept :=
    fun hm => hm.invariant (fun m hm => by subst hm; exact Board.kept_start)
      fun m a hm ha => Board.kept_act hm a ha
  refine ⟨Board.kept_openIds (hkept h),fun id slot draft key hslot hdraft hopen => ?_⟩
  have hcommit : m.Undisturbed (.commit draft.session) := trivial
  have hle := Board.kept_openIds (hkept (h.next hcommit)) key
  have hmem : id ∈ (m.act (.commit draft.session)).openIds key := by
    refine mem_ids.mpr ⟨slot.commit draft.session,?_,Slot.commit_of_draft hdraft rfl hopen⟩
    simp [Board.act,hslot]
  cases hl : (m.act (.commit draft.session)).openIds key with
  | nil =>
    rw [hl] at hmem
    cases hmem
  | cons i l =>
    rw [hl] at hle hmem
    obtain rfl : l = [] := by simpa using hle
    rw [List.mem_singleton.mp hmem]

/-- An announcement of the monitor. -/
def authEvent (title : String) : NotificationEvent where
  source := "monitor"
  kind := "rdc.auth"
  severity := .actionRequired
  title := title
  threadKey := some "rdc.auth:1"

/-- Two sessions that announce something, one after the other. -/
def twoInTurn : List BoardStep := [
  .look 0 "rdc.auth:1",
  .emit 0 (authEvent "First code") 1 60,
  .commit 0,
  .look 1 "rdc.auth:1",
  .emit 1 (authEvent "Second code") 2 60]

theorem one_open_notification_in_turn :
    (∀ key, ((twoInTurn.foldl Board.act {}).openIds key).length ≤ 1) ∧
      ((twoInTurn.foldl Board.act {}).act (.commit 1)).openIds "rdc.auth:1" = [1] := by
  have hall : Trace.Allowed Board.act Board.Undisturbed {} twoInTurn := by
    refine ⟨trivial,fun _ _ _ _ _ hslot _ => ?_,trivial,trivial,
      fun _ _ hkey i _ hslot _ => ?_,trivial⟩
    · cases hslot
    · cases i with
      | zero =>
        obtain rfl := Option.some.inj hkey
        exact Or.inl (by decide)
      | succ i => cases hslot
  have hinit : Trace.Reach Board.act Board.Undisturbed (· = {}) {} := .start rfl
  have hdone := one_open_notification (hinit.run hall)
  exact ⟨hdone.1,hdone.2 1 _ _ "rdc.auth:1" rfl rfl rfl⟩

/-- Two sessions that announce on a thread on which nothing is open. -/
def twoAtOnce : List BoardStep := [
  .look 0 "rdc.auth:1",
  .look 1 "rdc.auth:1",
  .emit 0 (authEvent "First code") 1 60,
  .emit 1 (authEvent "Second code") 2 60,
  .commit 0,
  .commit 1]

/-- Both rows are then open. -/
theorem two_open_notifications : ∃ m : Board, m.Reachable ∧ m.openIds "rdc.auth:1" = [0,1] := by
  have hinit : Board.Reachable {} := Trace.Reach.start rfl
  exact ⟨_,hinit.steps twoAtOnce,by decide⟩

end Notifications
end Atlas
