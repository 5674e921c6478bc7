import Atlas.Notifications.ThreadKeys

/-! What a flush of attention rows does to the open notifications of each thread. -/
namespace Atlas
namespace Notifications

open Actions RowTable

/-- Whether the notification at an index is open on a thread. -/
def openAt (rows : List NotificationRow) (key : String) (p : ℕ) : Bool :=
  (rows[p]?).any (·.isOpen key)

/-- The same notifications are open on a thread. -/
def SameOpen (key : String) (rows rows' : List NotificationRow) : Prop :=
  ∀ p, openAt rows' key p = openAt rows key p

theorem SameOpen.trans {key : String} {rows rows' rows'' : List NotificationRow}
    (h : SameOpen key rows rows') (h' : SameOpen key rows' rows'') : SameOpen key rows rows'' :=
  fun p => (h' p).trans (h p)

namespace HookAct

def key : HookAct → String
  | .announce _ key => key
  | .close key => key

/-- What an act leaves of its thread. -/
def Done (rows : List NotificationRow) : HookAct → Prop
  | .announce _ key => ∃ p, openAt rows key p = true
  | .close key => ∀ p, openAt rows key p = false

/-- An announcement of the bridge. -/
def Sound : HookAct → Prop
  | .announce event key => event.threadKey = some key ∧ event.severity ≠ .resolved
  | .close _ => True

theorem Done.same {act : HookAct} {rows rows' : List NotificationRow} (h : act.Done rows)
    (hs : SameOpen act.key rows rows') : act.Done rows' := by
  cases act with
  | announce event key =>
    obtain ⟨p,hp⟩ := h
    exact ⟨p,(hs p).trans hp⟩
  | close key => exact fun p => (hs p).trans (h p)

end HookAct

section

variable {stored rows rows' : List NotificationRow} {key : String}
  {close : NotificationRow → NotificationRow}

theorem mem_openThread {p : ℕ} : p ∈ openThread stored key ↔ openAt stored key p = true := by
  rw [openThread,mem_ids,openAt,Option.any_eq_true]

theorem openAt_closeThread (hs : SameOpen key stored rows)
    (hclose : ∀ r k, (close r).isOpen k = false) (k : String) (p : ℕ) :
    openAt (closeThread stored rows key close) k p =
      (openAt rows k p && k != key) := by
  rw [openAt,closeThread,List.getElem?_mapIdx,openAt]
  cases hrow : rows[p]? with
  | none => rfl
  | some row =>
    have hp : openAt rows key p = row.isOpen key := by rw [openAt,hrow,Option.any_some]
    rw [Option.map_some,Option.any_some,Option.any_some]
    by_cases hm : p ∈ openThread stored key
    · rw [if_pos (List.contains_iff_mem.mpr hm),hclose]
      rw [mem_openThread,← hs p,hp] at hm
      by_cases hk : k = key
      · simp [hk]
      · have hnot : row.isOpen k = false := by
          rw [Bool.eq_false_iff]
          exact fun hopen => hk (isOpen_unique hopen hm)
        rw [hnot,Bool.false_and]
    · rw [if_neg fun hc => hm (List.contains_iff_mem.mp hc)]
      by_cases hk : k = key
      · rw [mem_openThread,← hs p,hp,Bool.not_eq_true] at hm
        rw [hk,hm,Bool.false_and]
      · simp [hk]

theorem openAt_append (row : NotificationRow) (k : String) (p : ℕ) :
    openAt (rows ++ [row]) k p =
      if p = rows.length then row.isOpen k else openAt rows k p := by
  rw [openAt,getElem?_insert]
  split
  · rfl
  · rfl

/-- An event that announces something and is written opens its row. -/
theorem emission_announced (openRows : List NotificationRow) (history : Bool × Option Instant)
    {event : NotificationEvent} (now : Instant) (repeatMinutes : ℕ)
    (hs : event.severity ≠ .resolved) (hkey : event.threadKey = some key) :
    (emission openRows history event now repeatMinutes = .duplicate ∧ openRows ≠ []) ∨
      ∃ row, emission openRows history event now repeatMinutes = .written (·.supersede) row ∧
        ∀ k, row.isOpen k = (k == key) := by
  simp only [emission,if_neg hs]
  split
  · next hdup =>
    refine Or.inl ⟨rfl,fun hnil => ?_⟩
    rw [hnil] at hdup
    cases hdup
  · refine Or.inr ⟨_,rfl,fun k => ?_⟩
    simp only [NotificationRow.isOpen,hkey]
    by_cases hk : k = key
    · simp [hk]
    · simp [hk,Ne.symm hk]

variable {repeatMinutes : ℕ} {now : Instant}

theorem performAct_ok {act : HookAct} (hact : act.Sound) (hs : SameOpen act.key stored rows)
    (h : performAct repeatMinutes now stored rows act = .ok rows') :
    (∀ k, k ≠ act.key → SameOpen k rows rows') ∧ act.Done rows' := by
  cases act with
  | close key =>
    obtain rfl := Except.ok.inj h
    have hs : SameOpen key stored rows := hs
    have hat := openAt_closeThread hs fun r k => isOpen_resolve r now k
    refine ⟨fun k hk p => ?_,fun p => ?_⟩
    · have hk : k ≠ key := hk
      rw [hat]
      simp [hk]
    · rw [hat]
      simp
  | announce event key =>
    obtain ⟨hkey,hseverity⟩ := hact
    obtain ⟨_,_,h⟩ := accepted h
    have hs : SameOpen key stored rows := hs
    simp only [] at h
    rcases emission_announced ((openThread stored key).filterMap (rows[·]?))
      (threadPushHistory stored key) now repeatMinutes hseverity hkey with
      ⟨he,hne⟩ | ⟨row,he,hopen⟩
    · rw [he] at h
      obtain rfl := Except.ok.inj h
      refine ⟨fun k _ p => rfl,?_⟩
      obtain ⟨row,hrow⟩ := List.exists_mem_of_ne_nil _ hne
      obtain ⟨p,hp,_⟩ := List.mem_filterMap.mp hrow
      exact ⟨p,(hs p).trans (mem_openThread.mp hp)⟩
    · rw [he] at h
      obtain rfl := Except.ok.inj h
      have hat := openAt_closeThread hs isOpen_supersede
      have hlength : (closeThread stored rows key (·.supersede)).length = rows.length := by
        simp [closeThread]
      refine ⟨fun k hk p => ?_,(closeThread stored rows key (·.supersede)).length,?_⟩
      · have hk : k ≠ key := hk
        rw [openAt_append,hlength,hopen,hat]
        split
        · next hp =>
          have hnone : openAt rows k p = false := by
            rw [openAt,hp,List.getElem?_eq_none le_rfl]
            rfl
          simp [hk,hnone]
        · simp [hk]
      · rw [openAt_append,if_pos rfl,hopen]
        simp

/-- The acts of a flush, each on a thread of its own. -/
theorem performActs_ok (acts : List HookAct) : ∀ {rows rows' : List NotificationRow},
    (acts.map HookAct.key).Nodup → (∀ act ∈ acts, act.Sound) →
    (∀ act ∈ acts, SameOpen act.key stored rows) →
    acts.foldlM (performAct repeatMinutes now stored) rows = .ok rows' →
    (∀ k, k ∉ acts.map HookAct.key → SameOpen k rows rows') ∧ ∀ act ∈ acts, act.Done rows' := by
  induction acts with
  | nil =>
    intro rows rows' _ _ _ h
    obtain rfl := Except.ok.inj h
    exact ⟨fun k _ p => rfl,fun act hact => by cases hact⟩
  | cons act acts ih =>
    intro rows rows' hnodup hsound hsame h
    rw [List.map_cons,List.nodup_cons] at hnodup
    rw [List.foldlM_cons] at h
    obtain ⟨next,hnext,h⟩ := accepted h
    obtain ⟨hothers,hdone⟩ := performAct_ok (hsound act List.mem_cons_self)
      (hsame act List.mem_cons_self) hnext
    obtain ⟨hrest,hall⟩ := ih hnodup.2 (fun a ha => hsound a (List.mem_cons_of_mem _ ha))
      (fun a ha => (hsame a (List.mem_cons_of_mem _ ha)).trans (hothers a.key fun he =>
        hnodup.1 (he ▸ List.mem_map_of_mem ha))) h
    refine ⟨fun k hk => ?_,fun a ha => ?_⟩
    · rw [List.map_cons,List.mem_cons,not_or] at hk
      exact (hothers k hk.1).trans (hrest k hk.2)
    · rcases List.mem_cons.mp ha with rfl | ha
      · exact hdone.same (hrest a.key hnodup.1)
      · exact hall a ha

end

/-- What a transaction does to the attention rows of some threads: it restates or resolves an
unresolved one or adds one, one for each thread. -/
structure Touched (t t' : List OwnerAttentionRow) (T : ThreadKey → Prop) : Prop where
  old : ∀ {i : ℕ} {a : OwnerAttentionRow}, t[i]? = some a → ∃ a', t'[i]? = some a' ∧
    attentionThreadKey i a' = attentionThreadKey i a ∧
    (a' = a ∨ (a.resolved = false ∧ T (attentionThreadKey i a)))
  new : ∀ {i : ℕ} {a : OwnerAttentionRow}, t'[i]? = some a → t[i]? = none →
    a.resolved = false ∧ T (attentionThreadKey i a)
  alone : ∀ {i j : ℕ} {a b : OwnerAttentionRow}, t'[i]? = some a → t[i]? ≠ some a →
    t'[j]? = some b → t[j]? ≠ some b → attentionThreadKey i a = attentionThreadKey j b → i = j

namespace Touched

variable {t t' t'' : List OwnerAttentionRow} {T T' : ThreadKey → Prop}

theorem refl (t : List OwnerAttentionRow) (T : ThreadKey → Prop) : Touched t t T where
  old := fun ha => ⟨_,ha,rfl,Or.inl rfl⟩
  new := fun ha hn => by
    rw [ha] at hn
    cases hn
  alone := fun ha hne _ _ _ => absurd ha hne

/-- The thread of a row that was touched. -/
theorem thread (h : Touched t t' T) {i : ℕ} {a : OwnerAttentionRow} (ha : t'[i]? = some a)
    (hne : t[i]? ≠ some a) : T (attentionThreadKey i a) := by
  cases hi : t[i]? with
  | none => exact (h.new ha hi).2
  | some b =>
    obtain ⟨a',ha',hkey,hsame⟩ := h.old hi
    obtain rfl := Option.some.inj (ha.symm.trans ha')
    rcases hsame with rfl | ⟨_,hT⟩
    · exact absurd hi hne
    · rw [hkey]
      exact hT

theorem trans (h : Touched t t' T) (h' : Touched t' t'' T') (hd : ∀ k, T k → ¬T' k) :
    Touched t t'' fun k => T k ∨ T' k := by
  have hsplit : ∀ {i : ℕ} {a : OwnerAttentionRow}, t''[i]? = some a → t[i]? ≠ some a →
      (t'[i]? = some a ∧ t[i]? ≠ some a) ∨ t'[i]? ≠ some a := by
    intro i a _ hne
    by_cases hi : t'[i]? = some a
    · exact Or.inl ⟨hi,hne⟩
    · exact Or.inr hi
  constructor
  · intro i a ha
    obtain ⟨b,hb,hkey,hsame⟩ := h.old ha
    obtain ⟨c,hc,hkey',hsame'⟩ := h'.old hb
    refine ⟨c,hc,hkey'.trans hkey,?_⟩
    rcases hsame with rfl | ⟨hopen,hT⟩
    · rcases hsame' with rfl | ⟨hopen,hT'⟩
      · exact Or.inl rfl
      · exact Or.inr ⟨hopen,Or.inr hT'⟩
    · exact Or.inr ⟨hopen,Or.inl hT⟩
  · intro i a ha hnone
    cases hi : t'[i]? with
    | none =>
      obtain ⟨hopen,hT'⟩ := h'.new ha hi
      exact ⟨hopen,Or.inr hT'⟩
    | some b =>
      obtain ⟨hopen,hT⟩ := h.new hi hnone
      obtain ⟨c,hc,hkey,hsame⟩ := h'.old hi
      obtain rfl := Option.some.inj (ha.symm.trans hc)
      rcases hsame with rfl | ⟨_,hT'⟩
      · exact ⟨hopen,Or.inl hT⟩
      · exact absurd hT' (hd _ hT)
  · intro i j a b ha hna hb hnb hkey
    rcases hsplit ha hna with ⟨hia,hna⟩ | hia
    · rcases hsplit hb hnb with ⟨hjb,hnb⟩ | hjb
      · exact h.alone hia hna hjb hnb hkey
      · have hT := h.thread hia hna
        rw [hkey] at hT
        exact absurd (h'.thread hb hjb) (hd _ hT)
    · rcases hsplit hb hnb with ⟨hjb,hnb⟩ | hjb
      · have hT := h.thread hjb hnb
        rw [← hkey] at hT
        exact absurd (h'.thread ha hia) (hd _ hT)
      · exact h'.alone ha hia hb hjb hkey

theorem mono (h : Touched t t' T) (hT : ∀ k, T k → T' k) : Touched t t' T' where
  old := fun ha => by
    obtain ⟨b,hb,hkey,hsame⟩ := h.old ha
    exact ⟨b,hb,hkey,hsame.imp_right fun ⟨hopen,hk⟩ => ⟨hopen,hT _ hk⟩⟩
  new := fun ha hn => ⟨(h.new ha hn).1,hT _ (h.new ha hn).2⟩
  alone := h.alone

theorem add (t : List OwnerAttentionRow) {row : OwnerAttentionRow} (hrow : row.resolved = false) :
    Touched t (t ++ [row]) (· = attentionThreadKey t.length row) := by
  have hnew : ∀ {i : ℕ} {a : OwnerAttentionRow}, (t ++ [row])[i]? = some a → t[i]? ≠ some a →
      i = t.length ∧ a = row := by
    intro i a ha hne
    rw [getElem?_insert] at ha
    by_cases hi : i = t.length
    · rw [if_pos hi] at ha
      exact ⟨hi,(Option.some.inj ha).symm⟩
    · rw [if_neg hi] at ha
      exact absurd ha hne
  constructor
  · exact fun ha => ⟨_,getElem?_insert_of_some ha,rfl,Or.inl rfl⟩
  · intro i a ha hn
    obtain ⟨rfl,rfl⟩ := hnew ha (by rw [hn]; simp)
    exact ⟨hrow,rfl⟩
  · intro i j a b ha hna hb hnb _
    rw [(hnew ha hna).1,(hnew hb hnb).1]

theorem change {i : ℕ} {a : OwnerAttentionRow} (ha : t[i]? = some a) (hopen : a.resolved = false)
    {f : OwnerAttentionRow → OwnerAttentionRow}
    (hkey : attentionThreadKey i (f a) = attentionThreadKey i a) :
    Touched t (t.modify i f) (· = attentionThreadKey i a) := by
  have hchange := Changes.modify ha f
  constructor
  · intro j b hb
    by_cases hj : j = i
    · subst hj
      obtain rfl := Option.some.inj (ha.symm.trans hb)
      exact ⟨f a,hchange.after,hkey,Or.inr ⟨hopen,rfl⟩⟩
    · exact ⟨b,by rw [hchange.others j hj,hb],rfl,Or.inl rfl⟩
  · intro j b hb hn
    have hsome := hchange.isSome j
    rw [hb,hn] at hsome
    cases hsome
  · intro j k b c hb hnb hc hnc _
    have hat : ∀ {j : ℕ} {b : OwnerAttentionRow}, (t.modify i f)[j]? = some b → t[j]? ≠ some b →
        j = i := by
      intro j b hb hne
      by_contra hj
      rw [hchange.others j hj] at hb
      exact hne hb
    rw [hat hb hnb,hat hc hnc]

end Touched

end Notifications
end Atlas
