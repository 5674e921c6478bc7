import Atlas.Notifications.Moves

/-! The notifications that mirror the attention rows of the owner, over every run of the store of
actions with the flush hook. -/
namespace Atlas
namespace Notifications

open Actions RowTable

mutual

theorem sameJson_refl : ∀ a : Json, Runtime.sameJson a a = true
  | .null => rfl
  | .bool _ => by simp [Runtime.sameJson]
  | .num _ => by simp [Runtime.sameJson]
  | .str _ => by simp [Runtime.sameJson]
  | .arr items => by
    simp only [Runtime.sameJson]
    exact sameItems_refl items
  | .obj fields => by
    simp only [Runtime.sameJson]
    exact sameFields_refl fields

theorem sameItems_refl : ∀ l : List Json, Runtime.sameItems l l = true
  | [] => rfl
  | a :: l => by
    simp only [Runtime.sameItems,Bool.and_eq_true]
    exact ⟨sameJson_refl a,sameItems_refl l⟩

theorem sameFields_refl : ∀ l : List (String × Json), Runtime.sameFields l l = true
  | [] => rfl
  | (k,a) :: l => by
    simp only [Runtime.sameFields,Bool.and_eq_true,beq_self_eq_true,true_and]
    exact ⟨sameJson_refl a,sameFields_refl l⟩

end

/-- An unresolved attention row that is mirrored. -/
def Live (t : List OwnerAttentionRow) (i : ℕ) (row : OwnerAttentionRow) : Prop :=
  t[i]? = some row ∧ row.resolved = false ∧ (attentionThreadKey i row).mirrored = true

theorem Distinct.live {t : List OwnerAttentionRow} (h : Distinct t) {i j : ℕ}
    {a b : OwnerAttentionRow} (ha : Live t i a) (hb : t[j]? = some b) (hopen : b.resolved = false)
    (hkey : attentionThreadKey i a = attentionThreadKey j b) : i = j :=
  h i j a b ha.1 hb ha.2.1 hopen ha.2.2 hkey

theorem Distinct.of_live {t : List OwnerAttentionRow} (h : ∀ (i j : ℕ) (a b : OwnerAttentionRow),
    Live t i a → Live t j b → attentionThreadKey i a = attentionThreadKey j b → i = j) :
    Distinct t :=
  fun i j a b ha hb ha' hb' hm hkey => h i j a b ⟨ha,ha',hm⟩ ⟨hb,hb',hkey ▸ hm⟩ hkey

theorem mirroredState_isSome {s : AttentionState} :
    (mirroredState s).isSome = true ↔ s ≠ .managedTaskStalled := by
  cases s <;> decide

/-- The rows about actions have none of the states that are not mirrored. -/
theorem mirrored_iff {n i : ℕ} {t : List OwnerAttentionRow} (h : Grounded n t)
    {row : OwnerAttentionRow} (hrow : t[i]? = some row) :
    (attentionThreadKey i row).mirrored = true ↔ row.state ≠ .managedTaskStalled := by
  cases hid : row.actionId with
  | some id =>
    have hstate := (h row (List.mem_of_getElem? hrow) id hid).2
    have hkey : attentionThreadKey i row = .action id := attentionThreadKey_action.mpr hid
    rw [hkey]
    rcases hstate with he | he <;> simp [he,ThreadKey.mirrored]
  | none =>
    simp only [attentionThreadKey,hid]
    cases row.state <;> simp [ThreadKey.mirrored]

section

variable [ActionRuntime] {before after : List OwnerAttentionRow} {i : ℕ} {row : OwnerAttentionRow}
  {act : HookAct}

theorem mem_hookActs : act ∈ hookActs before after ↔
    ∃ i row, after[i]? = some row ∧ hookAct before (row,i) = some act := by
  have hmem : act ∈ hookActs before after ↔
      ∃ entry ∈ after.zipIdx, hookAct before entry = some act := by
    rw [← List.mem_filterMap,hookActs,← List.filterMap_append]
    apply List.Perm.mem_iff
    apply List.Perm.filterMap
    exact List.perm_append_comm.trans (List.Perm.of_eq (List.take_append_drop _ _))
  rw [hmem]
  constructor
  · rintro ⟨⟨row,i⟩,hentry,hact⟩
    exact ⟨i,row,List.mk_mem_zipIdx_iff_getElem?.mp hentry,hact⟩
  · rintro ⟨i,row,hrow,hact⟩
    exact ⟨(row,i),List.mk_mem_zipIdx_iff_getElem?.mpr hrow,hact⟩

/-- What the hook announces of a row. -/
theorem mirrorAttention_some (h : mirrorAttention i row = some act) :
    row.resolved = false ∧ row.state ≠ .managedTaskStalled ∧
      ∃ event, act = .announce event (attentionThreadKey i row).text ∧ act.Sound := by
  simp only [mirrorAttention] at h
  split at h
  · cases h
  · next hopen =>
    obtain ⟨event,hevent,rfl⟩ := Option.map_eq_some_iff.mp h
    obtain ⟨⟨severity,kind⟩,hstate,rfl⟩ := Option.map_eq_some_iff.mp hevent
    refine ⟨by simpa using hopen,mirroredState_isSome.mp (by rw [hstate]; rfl),_,rfl,rfl,?_⟩
    have hnot : severity ≠ .resolved := by
      intro he
      subst he
      revert hstate
      cases row.state <;> simp [mirroredState]
    exact hnot

theorem mirrorAttention_of_open (hopen : row.resolved = false)
    (hstate : row.state ≠ .managedTaskStalled) :
    ∃ event, mirrorAttention i row = some (.announce event (attentionThreadKey i row).text) := by
  obtain ⟨x,hx⟩ := Option.isSome_iff_exists.mp (mirroredState_isSome.mpr hstate)
  simp [mirrorAttention,hopen,attentionEvent,hx]

/-- What the hook does about a row that the transaction added or changed. -/
theorem hookAct_some (h : hookAct before (row,i) = some act) :
    before[i]? ≠ some row ∧ act.key = (attentionThreadKey i row).text ∧ act.Sound ∧
      ((∃ event key, act = .announce event key) ∧ row.resolved = false ∧
          row.state ≠ .managedTaskStalled ∨
        (∃ key, act = .close key) ∧ row.resolved = true) := by
  have hannounced : mirrorAttention i row = some act → act.key = (attentionThreadKey i row).text ∧
      act.Sound ∧ ((∃ event key, act = .announce event key) ∧ row.resolved = false ∧
          row.state ≠ .managedTaskStalled ∨
        (∃ key, act = .close key) ∧ row.resolved = true) := by
    intro hm
    obtain ⟨hopen,hstate,event,rfl,hsound⟩ := mirrorAttention_some hm
    exact ⟨rfl,hsound,Or.inl ⟨⟨event,_,rfl⟩,hopen,hstate⟩⟩
  simp only [hookAct] at h
  split at h
  · next hnone =>
    refine ⟨fun he => ?_,hannounced h⟩
    rw [hnone] at he
    cases he
  · next old hold =>
    split at h
    · next hres =>
      obtain rfl := Option.some.inj h
      simp only [Bool.and_eq_true,bne_iff_ne] at hres
      refine ⟨fun he => ?_,rfl,trivial,Or.inr ⟨⟨_,rfl⟩,hres.2⟩⟩
      obtain rfl := Option.some.inj (hold.symm.trans he)
      exact hres.1 rfl
    · split at h
      · next hrestated =>
        refine ⟨fun he => ?_,hannounced h⟩
        obtain rfl := Option.some.inj (hold.symm.trans he)
        simp [restated,sameFields_refl] at hrestated
      · cases h

/-- The acts of a flush are each on a thread of its own. -/
theorem hookActs_nodup {T : ThreadKey → Prop} (h : Touched before after T) :
    ((hookActs before after).map HookAct.key).Nodup := by
  have hentries : (after.zipIdx.drop before.length ++ after.zipIdx.take before.length).Nodup := by
    rw [List.perm_append_comm.nodup_iff,List.take_append_drop]
    refine List.Nodup.of_map (·.2) ?_
    rw [List.zipIdx_map_snd]
    exact List.nodup_range'
  rw [hookActs,← List.filterMap_append,List.Nodup,List.pairwise_map,List.pairwise_filterMap]
  refine List.Pairwise.imp_of_mem ?_ hentries
  have hat : ∀ {a : OwnerAttentionRow} {i : ℕ},
      (a,i) ∈ after.zipIdx.drop before.length ++ after.zipIdx.take before.length →
      after[i]? = some a := by
    intro a i hentry
    rw [List.perm_append_comm.mem_iff,List.take_append_drop] at hentry
    exact List.mk_mem_zipIdx_iff_getElem?.mp hentry
  rintro ⟨a,i⟩ ⟨b,j⟩ ha hb hne x hx y hy hkey
  obtain ⟨hna,hax,_⟩ := hookAct_some hx
  obtain ⟨hnb,hby,_⟩ := hookAct_some hy
  rw [hax,hby] at hkey
  have hij : i = j := h.alone (hat ha) hna (hat hb) hnb (text_injective hkey)
  have hab := (hat ha).symm.trans (hij ▸ hat hb)
  exact hne (Prod.ext (Option.some.inj hab) hij)

/-- What a flush leaves of the threads it acts on and of the others. -/
theorem flushHook_ok {repeatMinutes : ℕ} {now : Instant} {T : ThreadKey → Prop}
    {stored rows : List NotificationRow} (ht : Touched before after T)
    (h : flushHook repeatMinutes now before after stored = .ok rows) :
    (∀ k, k ∉ (hookActs before after).map HookAct.key → SameOpen k stored rows) ∧
      ∀ act ∈ hookActs before after, act.Done rows := by
  refine performActs_ok _ (hookActs_nodup ht) (fun act hact => ?_) (fun act _ p => rfl) h
  obtain ⟨i,row,_,hrow⟩ := mem_hookActs.mp hact
  exact (hookAct_some hrow).2.2.1

/-- A row that is resolved closes its thread. -/
theorem acts_of_resolved {old : OwnerAttentionRow} (hrow : after[i]? = some row)
    (hold : before[i]? = some old) (hopen : old.resolved = false) (hres : row.resolved = true) :
    (attentionThreadKey i row).text ∈ (hookActs before after).map HookAct.key := by
  have hact : hookAct before (row,i) = some (.close (attentionThreadKey i row).text) := by
    simp [hookAct,hold,hopen,hres]
  exact List.mem_map.mpr ⟨_,mem_hookActs.mpr ⟨i,row,hrow,hact⟩,rfl⟩

/-- An unresolved row that is announced, unless the transaction left what is announced of it. -/
theorem acts_of_open (hrow : after[i]? = some row) (hopen : row.resolved = false)
    (hstate : row.state ≠ .managedTaskStalled)
    (hrestated : ∀ old, before[i]? = some old → restated old row = true) :
    (attentionThreadKey i row).text ∈ (hookActs before after).map HookAct.key := by
  obtain ⟨event,hevent⟩ := mirrorAttention_of_open (i := i) hopen hstate
  have hact : hookAct before (row,i) =
      some (.announce event (attentionThreadKey i row).text) := by
    cases hi : before[i]? with
    | none => simp [hookAct,hi,hevent]
    | some old => simp [hookAct,hi,hevent,hopen,hrestated old hi]
  exact List.mem_map.mpr ⟨_,mem_hookActs.mpr ⟨i,row,hrow,hact⟩,rfl⟩

/-- A thread that a flush acts on is the thread of a row that was touched. -/
theorem acted {k : String} (h : k ∈ (hookActs before after).map HookAct.key) :
    ∃ i row act, after[i]? = some row ∧ before[i]? ≠ some row ∧ act ∈ hookActs before after ∧
      k = (attentionThreadKey i row).text ∧
      ((∃ event key, act = .announce event key) ∧ row.resolved = false ∧
          row.state ≠ .managedTaskStalled ∨
        (∃ key, act = .close key) ∧ row.resolved = true) := by
  obtain ⟨act,hact,rfl⟩ := List.mem_map.mp h
  obtain ⟨i,row,hrow,hsome⟩ := mem_hookActs.mp hact
  obtain ⟨hne,hkey,_,hwhat⟩ := hookAct_some hsome
  exact ⟨i,row,act,hrow,hne,hact,hkey,hwhat⟩

end

namespace Mirror

/-- The open notifications are those of the live attention rows. -/
structure Aware (m : Mirror) : Prop where
  tended : m.ledger.Tended
  distinct : Distinct m.ledger.attention
  grounds : ∀ (key : String) (p : ℕ), openAt m.notifications key p = true →
    ∃ i row, Live m.ledger.attention i row ∧ key = (attentionThreadKey i row).text
  shown : ∀ (i : ℕ) (row : OwnerAttentionRow), Live m.ledger.attention i row →
    ∃ p, openAt m.notifications (attentionThreadKey i row).text p = true

variable {m m' : Mirror} {s : Ledger}

theorem aware_start : Aware {} where
  tended := ⟨fun id a ha => (by simp at ha),fun r hr => (by cases hr),fun a ha => (by cases ha)⟩
  distinct := fun i j a b ha => by simp at ha
  grounds := fun key p hp => by simp [openAt] at hp
  shown := fun i row hrow => by simp [Live] at hrow

/-- An update that leaves the live rows as they are. -/
theorem Aware.bulk (h : m.Aware) (ht : s.Tended)
    (hlive : ∀ i row, Live s.attention i row ↔ Live m.ledger.attention i row) :
    Aware {m with ledger := s} where
  tended := ht
  distinct := Distinct.of_live fun i j a b ha hb hkey => by
    have hb := (hlive j b).mp hb
    exact h.distinct.live ((hlive i a).mp ha) hb.1 hb.2.1 hkey
  grounds := fun key p hp => by
    obtain ⟨i,row,hrow,hkey⟩ := h.grounds key p hp
    exact ⟨i,row,(hlive i row).mpr hrow,hkey⟩
  shown := fun i row hrow => h.shown i row ((hlive i row).mp hrow)

/-- The resolution in bulk of rows none of which is live. -/
theorem live_resolveWhere {s : Ledger} {q : OwnerAttentionRow → Bool} {now : Instant}
    (hq : ∀ i row, Live s.attention i row → q row = false) (i : ℕ) (row : OwnerAttentionRow) :
    Live (s.resolveWhere q now).attention i row ↔ Live s.attention i row := by
  have hat : (s.resolveWhere q now).attention[i]? = (s.attention[i]?).map fun r =>
      if !r.resolved && q r then r.resolve now else r := by
    simp [Ledger.resolveWhere]
  constructor
  · rintro ⟨hrow,hopen,hm⟩
    rw [hat] at hrow
    obtain ⟨r,hr,he⟩ := Option.map_eq_some_iff.mp hrow
    split at he
    · rw [← he] at hopen
      cases hopen
    · subst he
      exact ⟨hr,hopen,hm⟩
  · intro hrow
    have hnot := hq i row hrow
    obtain ⟨hrow,hopen,hm⟩ := hrow
    refine ⟨?_,hopen,hm⟩
    rw [hat,hrow,Option.map_some,hnot,Bool.and_false]
    rfl

/-- A live row that a flush does not meet. -/
theorem unmet [ActionRuntime] {before after : List OwnerAttentionRow} {T : ThreadKey → Prop}
    (ht : Touched before after T) (hd : Distinct before) (hd' : Distinct after) {i : ℕ}
    {row : OwnerAttentionRow} (hbefore : Live before i row) (hafter : after[i]? = some row) :
    (attentionThreadKey i row).text ∉ (hookActs before after).map HookAct.key := by
  intro hk
  obtain ⟨j,b,act,hb,hnb,hact,hkey,hwhat⟩ := acted hk
  have hkey := text_injective hkey
  have hne : i ≠ j := by
    rintro rfl
    exact hnb ((Option.some.inj (hafter.symm.trans hb)) ▸ hbefore.1)
  cases hj : before[j]? with
  | none =>
    have hnew := (ht.new hb hj).1
    exact hne (hd'.live ⟨hafter,hbefore.2⟩ hb hnew hkey)
  | some old =>
    obtain ⟨b',hb',hsame,hchanged⟩ := ht.old hj
    obtain rfl := Option.some.inj (hb.symm.trans hb')
    rcases hchanged with rfl | ⟨hopen,_⟩
    · exact hnb hj
    · exact hne (hd.live hbefore hj hopen (hkey.trans hsame))

/-- A flush after a transaction on some threads. -/
theorem Aware.flush [ActionRuntime] (h : m.Aware) {repeatMinutes : ℕ} {now : Instant}
    {rows : List NotificationRow} {T : ThreadKey → Prop} (hs : s.Tended)
    (hd : Distinct s.attention) (ht : Touched m.ledger.attention s.attention T)
    (hflush : flushHook repeatMinutes now m.ledger.attention s.attention m.notifications =
      .ok rows) : Aware ⟨s,rows⟩ := by
  obtain ⟨hothers,hdone⟩ := flushHook_ok ht hflush
  -- a thread the flush acts on is left as the act says
  have hacted : ∀ k, k ∈ (hookActs m.ledger.attention s.attention).map HookAct.key →
      (∃ i row, Live s.attention i row ∧ k = (attentionThreadKey i row).text ∧
        ∃ p, openAt rows k p = true) ∨
      ∃ i row, s.attention[i]? = some row ∧ m.ledger.attention[i]? ≠ some row ∧
        row.resolved = true ∧ k = (attentionThreadKey i row).text ∧
        ∀ p, openAt rows k p = false := by
    intro k hk
    obtain ⟨act,hact,rfl⟩ := List.mem_map.mp hk
    obtain ⟨i,row,hrow,hsome⟩ := mem_hookActs.mp hact
    obtain ⟨hne,hkey,_,hwhat⟩ := hookAct_some hsome
    have hleft := hdone act hact
    rcases hwhat with ⟨⟨event,key,rfl⟩,hopen,hstate⟩ | ⟨⟨key,rfl⟩,hres⟩
    · exact Or.inl ⟨i,row,⟨hrow,hopen,(mirrored_iff hs.grounded hrow).mpr hstate⟩,hkey,hleft⟩
    · exact Or.inr ⟨i,row,hrow,hne,hres,hkey,hleft⟩
  refine ⟨hs,hd,fun key p hp => ?_,fun i row hrow => ?_⟩
  · by_cases hk : key ∈ (hookActs m.ledger.attention s.attention).map HookAct.key
    · rcases hacted key hk with ⟨i,row,hrow,hkey,_⟩ | ⟨_,_,_,_,_,_,hclosed⟩
      · exact ⟨i,row,hrow,hkey⟩
      · rw [hclosed p] at hp
        cases hp
    · rw [hothers key hk p] at hp
      obtain ⟨i,row,hrow,rfl⟩ := h.grounds key p hp
      obtain ⟨row',hrow',hsame,hchanged⟩ := ht.old hrow.1
      refine ⟨i,row',⟨hrow',?_,by rw [hsame]; exact hrow.2.2⟩,by rw [hsame]⟩
      by_contra hres
      rw [Bool.not_eq_false] at hres
      have hclose := acts_of_resolved hrow' hrow.1 hrow.2.1 hres
      rw [hsame] at hclose
      exact hk hclose
  · by_cases hk : (attentionThreadKey i row).text ∈
        (hookActs m.ledger.attention s.attention).map HookAct.key
    · rcases hacted _ hk with ⟨_,_,_,_,hopen⟩ | ⟨j,b,hb,hnb,hres,hkey,_⟩
      · exact hopen
      · by_cases hbefore : m.ledger.attention[i]? = some row
        · exact absurd hk (unmet ht h.distinct hd ⟨hbefore,hrow.2⟩ hrow.1)
        · obtain rfl := ht.alone hrow.1 hbefore hb hnb (text_injective hkey)
          obtain rfl := Option.some.inj (hrow.1.symm.trans hb)
          rw [hrow.2.1] at hres
          cases hres
    · have hstate := (mirrored_iff hs.grounded hrow.1).mp hrow.2.2
      by_cases hrestated : ∀ old, m.ledger.attention[i]? = some old → restated old row = true
      · exact absurd (acts_of_open hrow.1 hrow.2.1 hstate hrestated) hk
      · simp only [not_forall] at hrestated
        obtain ⟨old,hold,_⟩ := hrestated
        obtain ⟨row',hrow',hsame,hchanged⟩ := ht.old hold
        obtain rfl := Option.some.inj (hrow.1.symm.trans hrow')
        have hopen : old.resolved = false := by
          rcases hchanged with rfl | ⟨hopen,_⟩
          · exact hrow.2.1
          · exact hopen
        obtain ⟨p,hp⟩ := h.shown i old ⟨hold,hopen,hsame ▸ hrow.2.2⟩
        rw [← hsame] at hp
        exact ⟨p,(hothers _ hk p).trans hp⟩

/-- Nothing is open on the thread of a row that is never mirrored. -/
theorem Aware.quiet (h : m.Aware) {i : ℕ} {row : OwnerAttentionRow}
    (hrow : (attentionThreadKey i row).mirrored = false) (p : ℕ) :
    openAt m.notifications (attentionThreadKey i row).text p = false := by
  rw [Bool.eq_false_iff]
  intro hp
  obtain ⟨j,b,hb,hkey⟩ := h.grounds _ p hp
  rw [text_injective hkey,hb.2.2] at hrow
  cases hrow

section

variable [ActionRuntime] {repeatMinutes : ℕ}

/-- An operation that is not in bulk, with its flush. -/
theorem apply_ok {op : Op} {now : Instant} (h : m.apply repeatMinutes op now = .ok m') :
    m.ledger.apply op now = .ok m'.ledger ∧
      (inBulk op = true ∧ m'.notifications = m.notifications ∨
        inBulk op = false ∧ flushHook repeatMinutes now m.ledger.attention m'.ledger.attention
          m.notifications = .ok m'.notifications) := by
  obtain ⟨s,hs,h⟩ := accepted h
  split at h
  · next hbulk =>
    obtain rfl := Except.ok.inj h
    exact ⟨hs,Or.inl ⟨hbulk,rfl⟩⟩
  · next hbulk =>
    obtain ⟨rows,hrows,h⟩ := accepted h
    obtain rfl := Except.ok.inj h
    exact ⟨hs,Or.inr ⟨by simpa using hbulk,hrows⟩⟩

theorem aware_apply (h : m.Aware) {op : Op} {now : Instant} (hok : m.Individually (op,now))
    (hc : m.apply repeatMinutes op now = .ok m') : m'.Aware := by
  obtain ⟨hs,⟨hbulk,hnotifications⟩ | ⟨hbulk,hflush⟩⟩ := apply_ok hc
  · have hm : m' = {m with ledger := m'.ledger} := by rw [← hnotifications]
    have htended := Ledger.apply_tended h.tended hs
    rw [hm]
    refine h.bulk htended ?_
    cases op <;> try cases hbulk
    · rw [← Except.ok.inj hs]
      refine live_resolveWhere fun i row hrow => ?_
      by_contra hq
      simp only [Bool.not_eq_false,Bool.and_eq_true,Option.isNone_iff_eq_none,Bool.or_eq_true,
        beq_iff_eq] at hq
      have hres := hok row (List.mem_of_getElem? hrow.1) hq.1 hq.2
      rw [hrow.2.1] at hres
      cases hres
    · rw [← Except.ok.inj hs]
      refine live_resolveWhere fun i row hrow => ?_
      by_contra hq
      simp only [Bool.not_eq_false,Bool.and_eq_true,beq_iff_eq] at hq
      have hres := hok row (List.mem_of_getElem? hrow.1) hq.1 hq.2
      rw [hrow.2.1] at hres
      cases hres
    · rw [← Except.ok.inj hs]
      refine live_resolveWhere fun i row hrow => ?_
      by_contra hq
      simp only [Bool.not_eq_false,Bool.and_eq_true,beq_iff_eq] at hq
      exact (mirrored_iff h.tended.grounded hrow.1).mp hrow.2.2 hq.2
  · obtain ⟨T,hmoves⟩ := apply_moves h.tended hbulk hs
    obtain ⟨hd,ht⟩ := hmoves h.distinct
    exact h.flush (Ledger.apply_tended h.tended hs) hd ht hflush

theorem aware_step (h : m.Aware) (e : Op × Instant) (hok : m.Individually e) :
    (m.step repeatMinutes e).Aware := by
  simp only [step]
  split
  · next hc => exact aware_apply h hok hc
  · exact h

/-- An unresolved row that an operation leaves as it is keeps its notifications. -/
theorem aware_keeps (h : m.Aware) (e : Op × Instant) {i : ℕ} {row : OwnerAttentionRow}
    (hrow : m.ledger.attention[i]? = some row) (hopen : row.resolved = false)
    (hafter : (m.step repeatMinutes e).ledger.attention[i]? = some row) :
    SameOpen (attentionThreadKey i row).text m.notifications
      (m.step repeatMinutes e).notifications := by
  simp only [step] at hafter ⊢
  split at hafter
  · next m' hc =>
    obtain ⟨hs,⟨_,hnotifications⟩ | ⟨hbulk,hflush⟩⟩ := apply_ok hc
    · rw [hnotifications]
      exact fun p => rfl
    · obtain ⟨T,hmoves⟩ := apply_moves h.tended hbulk hs
      obtain ⟨hd,ht⟩ := hmoves h.distinct
      have hnext := h.flush (Ledger.apply_tended h.tended hs) hd ht hflush
      cases hm : (attentionThreadKey i row).mirrored with
      | true => exact (flushHook_ok ht hflush).1 _ (unmet ht h.distinct hd ⟨hrow,hopen,hm⟩ hafter)
      | false => exact fun p => (hnext.quiet hm p).trans (h.quiet hm p).symm
  · exact fun p => rfl

end

end Mirror

section

variable [ActionRuntime] {repeatMinutes : ℕ} {m : Mirror}

/-- Where no update in bulk meets an unresolved notice, a notification is open on the thread of a
resolved attention row only if another unresolved row shares the thread, a row that is left alone
keeps its open notifications, and every unresolved row that is mirrored has one. -/
theorem awareness_mirror
    (h : Trace.Reach (Mirror.step repeatMinutes) Mirror.Individually (· = {}) m) :
    (∀ (i p : ℕ) (row : OwnerAttentionRow), m.ledger.attention[i]? = some row →
      row.resolved = true → openAt m.notifications (attentionThreadKey i row).text p = true →
      ∃ j other, j ≠ i ∧ m.ledger.attention[j]? = some other ∧ other.resolved = false ∧
        attentionThreadKey j other = attentionThreadKey i row) ∧
    (∀ (i : ℕ) (row : OwnerAttentionRow) (e : Op × Instant),
      m.ledger.attention[i]? = some row → row.resolved = false →
      (m.step repeatMinutes e).ledger.attention[i]? = some row →
      SameOpen (attentionThreadKey i row).text m.notifications
        (m.step repeatMinutes e).notifications) ∧
    ∀ (i : ℕ) (row : OwnerAttentionRow), m.ledger.attention[i]? = some row →
      row.resolved = false → row.state ≠ .managedTaskStalled →
      ∃ p, openAt m.notifications (attentionThreadKey i row).text p = true := by
  have haware : m.Aware := by
    refine h.invariant (fun m hm => ?_) fun m e hm he => Mirror.aware_step hm e he
    subst hm
    exact Mirror.aware_start
  refine ⟨fun i p row hrow hres hp => ?_,fun i row e hrow hopen hafter => ?_,
    fun i row hrow hopen hstate => ?_⟩
  · obtain ⟨j,other,hother,hkey⟩ := haware.grounds _ p hp
    refine ⟨j,other,?_,hother.1,hother.2.1,(text_injective hkey).symm⟩
    rintro rfl
    obtain rfl := Option.some.inj (hrow.symm.trans hother.1)
    rw [hother.2.1] at hres
    cases hres
  · exact Mirror.aware_keeps haware e hrow hopen hafter
  · exact haware.shown i row ⟨hrow,hopen,(mirrored_iff haware.tended.grounded hrow).mpr hstate⟩

/-- A run that is interrupted and a notice of it that the owner dismisses by itself. -/
def dismissedAlone : List (Op × Instant) := [
  (.createRun none "plan" .foreground,0),
  (.interruptRun 0 "stopped",1),
  (.dismissInterruption 0,2)]

omit [ActionRuntime] in
theorem awareness_mirror_dismissed : letI := plainActions
    ∃ row, (dismissedAlone.foldl (Mirror.step 60) {}).ledger.attention[0]? = some row ∧
      row.resolved = true ∧ ∀ p, openAt (dismissedAlone.foldl (Mirror.step 60) {}).notifications
        (attentionThreadKey 0 row).text p = false := by
  let := plainActions
  have hall : Trace.Allowed (Mirror.step 60) Mirror.Individually {} dismissedAlone :=
    ⟨trivial,trivial,trivial,trivial⟩
  have hinit : Trace.Reach (Mirror.step 60) Mirror.Individually (· = {}) {} := .start rfl
  have hend : ∀ m : Mirror, Trace.Reach (Mirror.step 60) Mirror.Individually (· = {}) m →
      (m.ledger.attention[0]?).isSome = true → m.ledger.attention.all (·.resolved) = true →
      ∃ row, m.ledger.attention[0]? = some row ∧ row.resolved = true ∧
        ∀ p, openAt m.notifications (attentionThreadKey 0 row).text p = false := by
    intro m hm hsome hresolved
    rw [List.all_eq_true] at hresolved
    obtain ⟨row,hrow⟩ := Option.isSome_iff_exists.mp hsome
    have hres := hresolved row (List.mem_of_getElem? hrow)
    refine ⟨row,hrow,hres,fun p => ?_⟩
    rw [Bool.eq_false_iff]
    intro hp
    obtain ⟨j,other,_,hother,hopen,_⟩ := (awareness_mirror hm).1 0 p row hrow hres hp
    rw [hresolved other (List.mem_of_getElem? hother)] at hopen
    cases hopen
  exact hend _ (hinit.run hall) (by decide) (by decide)

/-- The same notice dismissed with all the others. -/
def dismissedInBulk : List (Op × Instant) := [
  (.createRun none "plan" .foreground,0),
  (.interruptRun 0 "stopped",1),
  (.dismissInformationalNotices,2)]

omit [ActionRuntime] in
/-- Its notification stays open, and no attention row on its thread is unresolved. -/
theorem dismissed_notice_stays_open : letI := plainActions
    ∃ m : Mirror, Trace.Reach (Mirror.step 60) (fun _ _ => True) (· = {}) m ∧
      (m.ledger.attention[0]?).any (fun row => row.resolved &&
        openAt m.notifications (attentionThreadKey 0 row).text 0) = true ∧
      m.ledger.attention.all (·.resolved) = true := by
  let := plainActions
  have hinit : Trace.Reach (Mirror.step 60) (fun _ _ => True) (· = {}) {} := .start rfl
  exact ⟨_,hinit.steps dismissedInBulk,by decide,by decide⟩

end

end Notifications
end Atlas
