import Atlas.Notifications.Hook
import Atlas.Actions.Attention

/-! What each operation that is not in bulk does to the attention rows, seen by their threads. -/
namespace Atlas
namespace Notifications

open Actions RowTable

/-- Whether notifications are opened on a thread at all. -/
def ThreadKey.mirrored : ThreadKey → Bool
  | .run _ .managedTaskStalled => false
  | _ => true

theorem attentionThreadKey_action {i id : ℕ} {a : OwnerAttentionRow} :
    attentionThreadKey i a = .action id ↔ a.actionId = some id := by
  cases hid : a.actionId with
  | none =>
    simp only [attentionThreadKey,hid]
    split <;> simp
  | some k => simp [attentionThreadKey,hid]

theorem attentionThreadKey_attention {i k : ℕ} {a : OwnerAttentionRow}
    (h : attentionThreadKey i a = .attention k) : i = k ∧ a.state = .stagedChange := by
  simp only [attentionThreadKey] at h
  split at h
  · cases h
  · split at h
    · next hstate => exact ⟨ThreadKey.attention.inj h,hstate⟩
    · cases h

theorem attentionThreadKey_run {i : ℕ} {runId : Option ℕ} {state : AttentionState}
    {a : OwnerAttentionRow} (h : attentionThreadKey i a = .run runId state) :
    a.actionId = none ∧ a.runId = runId ∧ a.state = state := by
  simp only [attentionThreadKey] at h
  split at h
  · cases h
  · next hid =>
    split at h
    · cases h
    · obtain ⟨hrun,hstate⟩ := ThreadKey.run.inj h
      exact ⟨hid,hrun,hstate⟩

/-- No two unresolved rows share a thread on which notifications are opened. -/
def Distinct (t : List OwnerAttentionRow) : Prop :=
  ∀ (i j : ℕ) (a b : OwnerAttentionRow), t[i]? = some a → t[j]? = some b → a.resolved = false →
    b.resolved = false → (attentionThreadKey i a).mirrored = true →
    attentionThreadKey i a = attentionThreadKey j b → i = j

theorem Distinct.add {t : List OwnerAttentionRow} (h : Distinct t) {row : OwnerAttentionRow}
    (hfresh : (attentionThreadKey t.length row).mirrored = true → ∀ (j : ℕ) (b : OwnerAttentionRow),
      t[j]? = some b → b.resolved = false →
      attentionThreadKey j b ≠ attentionThreadKey t.length row) : Distinct (t ++ [row]) := by
  intro i j a b ha hb hopen hopen' hmirrored hkey
  rw [getElem?_insert] at ha hb
  by_cases hi : i = t.length
  · rw [if_pos hi] at ha
    obtain rfl := Option.some.inj ha
    by_cases hj : j = t.length
    · rw [hi,hj]
    · rw [if_neg hj] at hb
      subst hi
      exact absurd hkey.symm (hfresh hmirrored j b hb hopen')
  · rw [if_neg hi] at ha
    by_cases hj : j = t.length
    · rw [if_pos hj] at hb
      obtain rfl := Option.some.inj hb
      subst hj
      exact absurd hkey (hfresh (hkey ▸ hmirrored) i a ha hopen)
    · rw [if_neg hj] at hb
      exact h i j a b ha hb hopen hopen' hmirrored hkey

theorem Distinct.change {t : List OwnerAttentionRow} (h : Distinct t) {i : ℕ}
    {a : OwnerAttentionRow} (ha : t[i]? = some a) (hopen : a.resolved = false)
    {f : OwnerAttentionRow → OwnerAttentionRow}
    (hkey : attentionThreadKey i (f a) = attentionThreadKey i a) : Distinct (t.modify i f) := by
  have hold : ∀ {j : ℕ} {b : OwnerAttentionRow}, (t.modify i f)[j]? = some b →
      b.resolved = false → ∃ c, t[j]? = some c ∧ c.resolved = false ∧
        attentionThreadKey j b = attentionThreadKey j c := by
    intro j b hb hb'
    rcases (Changes.modify ha f).cases hb with ⟨rfl,rfl⟩ | ⟨_,hb⟩
    · exact ⟨a,ha,hopen,hkey⟩
    · exact ⟨b,hb,hb',rfl⟩
  intro j k b c hb hc hb' hc' hmirrored hjk
  obtain ⟨x,hx,hx',hbx⟩ := hold hb hb'
  obtain ⟨y,hy,hy',hcy⟩ := hold hc hc'
  rw [hbx] at hmirrored hjk
  rw [hcy] at hjk
  exact h j k x y hx hy hx' hy' hmirrored hjk

/-- A transaction that touches the rows of some threads and keeps unresolved rows apart. -/
def Moves (t t' : List OwnerAttentionRow) (T : ThreadKey → Prop) : Prop :=
  Distinct t → Distinct t' ∧ Touched t t' T

namespace Moves

variable {t t' t'' : List OwnerAttentionRow} {T T' : ThreadKey → Prop}

theorem refl (t : List OwnerAttentionRow) (T : ThreadKey → Prop) : Moves t t T :=
  fun h => ⟨h,Touched.refl t T⟩

theorem same (h : t' = t) (T : ThreadKey → Prop) : Moves t t' T := by
  rw [h]
  exact refl t T

theorem mono (h : Moves t t' T) (hT : ∀ k, T k → T' k) : Moves t t' T' :=
  fun hd => ⟨(h hd).1,(h hd).2.mono hT⟩

theorem trans (h : Moves t t' T) (h' : Moves t' t'' T') (hd : ∀ k, T k → ¬T' k) :
    Moves t t'' fun k => T k ∨ T' k := by
  intro hdistinct
  obtain ⟨hnext,htouched⟩ := h hdistinct
  obtain ⟨hlast,htouched'⟩ := h' hnext
  exact ⟨hlast,htouched.trans htouched' hd⟩

theorem add {row : OwnerAttentionRow} (hrow : row.resolved = false)
    (hfresh : (attentionThreadKey t.length row).mirrored = true → ∀ (j : ℕ) (b : OwnerAttentionRow),
      t[j]? = some b → b.resolved = false →
      attentionThreadKey j b ≠ attentionThreadKey t.length row) :
    Moves t (t ++ [row]) (· = attentionThreadKey t.length row) :=
  fun h => ⟨h.add hfresh,Touched.add t hrow⟩

theorem change {i : ℕ} {a : OwnerAttentionRow} (ha : t[i]? = some a) (hopen : a.resolved = false)
    {f : OwnerAttentionRow → OwnerAttentionRow}
    (hkey : attentionThreadKey i (f a) = attentionThreadKey i a) :
    Moves t (t.modify i f) (· = attentionThreadKey i a) :=
  fun h => ⟨h.change ha hopen hkey,Touched.change ha hopen hkey⟩

end Moves

section

variable {s s' u : Ledger} {id runId : ℕ} {now : Instant}

/-- The row that asks about an action is resolved or restated. -/
theorem moves_openAttention {i : ℕ} (hopen : s.openAttention id = [i])
    {f : OwnerAttentionRow → OwnerAttentionRow} (hf : ∀ r, (f r).actionId = r.actionId) :
    Moves s.attention (s.attention.modify i f) (· = .action id) := by
  obtain ⟨r,hr,hid,hunresolved⟩ := Ledger.mem_openAttention hopen
  have hkey : attentionThreadKey i r = .action id := attentionThreadKey_action.mpr hid
  have hkey' : attentionThreadKey i (f r) = .action id :=
    attentionThreadKey_action.mpr ((hf r).trans hid)
  have hmoves := Moves.change (f := f) hr hunresolved (hkey'.trans hkey.symm)
  rw [hkey] at hmoves
  exact hmoves

/-- A row that asks about an action that no unresolved row asks about. -/
theorem moves_ask (hopen : s.openAttention id = []) {row : OwnerAttentionRow}
    (hid : row.actionId = some id) (hrow : row.resolved = false) :
    Moves s.attention (s.attention ++ [row]) (· = .action id) := by
  have hkey : attentionThreadKey s.attention.length row = .action id :=
    attentionThreadKey_action.mpr hid
  have hmoves := Moves.add (t := s.attention) hrow fun _ j b hb hb' he => by
    rw [hkey,attentionThreadKey_action] at he
    have hj : j ∈ s.openAttention id := mem_ids.mpr ⟨b,hb,by simp [he,hb']⟩
    rw [hopen] at hj
    cases hj
  rw [hkey] at hmoves
  exact hmoves

theorem moves_closed {f : ActionRow → ActionRow}
    (h : Ledger.Closed (s.setAction id f) s' id runId now) :
    Moves s.attention s'.attention (· = .action id) := by
  rcases h.attention with ⟨_,he⟩ | ⟨i,hopen,he⟩
  · exact Moves.same he _
  · rw [he]
    exact moves_openAttention (s := s) hopen fun r => rfl

theorem moves_marked {f : ActionRow → ActionRow}
    (h : Ledger.Marked (s.setAction id f) s' id runId) :
    Moves s.attention s'.attention (· = .action id) := by
  rcases h.attention with ⟨hopen,row,hid,_,hrow,he⟩ | ⟨i,g,hopen,he,hg⟩
  · rw [he]
    exact moves_ask (s := s) hopen hid hrow
  · rw [he]
    exact moves_openAttention (s := s) hopen fun r => (hg r).1

theorem moves_doubted (h : Ledger.Doubted s s' id) :
    Moves s.attention s'.attention (· = .action id) := by
  obtain ⟨_,_,_,hmarked⟩ := h
  exact moves_marked hmarked

theorem moves_cancel (h : s.cancel id now = .ok s') :
    Moves s.attention s'.attention (· = .action id) := by
  obtain ⟨_,_,_,hclosed⟩ := Ledger.cancel_ok h
  exact moves_closed hclosed

theorem moves_complete {status : ActionStatus} {result : Dict} {externalId : Option String}
    (h : s.complete id status result externalId now = .ok s') :
    Moves s.attention s'.attention (· = .action id) := by
  obtain ⟨_,_,_,⟨_,hmarked⟩ | ⟨_,hclosed⟩⟩ := Ledger.complete_ok h
  · exact moves_marked hmarked
  · exact moves_closed hclosed

theorem moves_abandoned {reason : String} (l : List ℕ) : ∀ {s s' : Ledger}, l.Nodup →
    l.foldlM (Ledger.abandonAction reason) s = .ok s' →
    Moves s.attention s'.attention fun k => ∃ id ∈ l, k = .action id := by
  induction l with
  | nil =>
    intro s s' _ h
    obtain rfl := Except.ok.inj h
    exact Moves.refl _ _
  | cons id l ih =>
    intro s s' hnodup h
    rw [List.nodup_cons] at hnodup
    rw [List.foldlM_cons] at h
    obtain ⟨t,ht,h⟩ := accepted h
    have hfirst : Moves s.attention t.attention (· = .action id) := by
      rcases Ledger.abandonAction_ok ht with rfl | hd
      · exact Moves.refl _ _
      · exact moves_doubted hd
    refine (hfirst.trans (ih hnodup.2 h) ?_).mono ?_
    · rintro k rfl ⟨j,hj,he⟩
      obtain rfl := ThreadKey.action.inj he
      exact hnodup.1 hj
    · rintro k (rfl | ⟨j,hj,rfl⟩)
      · exact ⟨id,List.mem_cons_self,rfl⟩
      · exact ⟨j,List.mem_cons_of_mem _ hj,rfl⟩

theorem moves_noteInterruption {reason : String}
    (h : s.noteInterruption runId reason = .ok s') :
    Moves s.attention s'.attention (· = .run (some runId) .interrupted) := by
  simp only [Ledger.noteInterruption] at h
  split at h
  · cases h
  · obtain rfl := Except.ok.inj h
    exact Moves.refl _ _
  · next hnone =>
    obtain rfl := Except.ok.inj h
    have hempty := List.eq_nil_iff_forall_not_mem.mp (scalarOneOrNone_none hnone)
    refine Moves.add rfl fun _ j b hb hb' he => hempty j (mem_ids.mpr ⟨b,hb,?_⟩)
    obtain ⟨hid,hrun,hstate⟩ := attentionThreadKey_run he
    simp [hid,hrun,hstate,hb']

theorem moves_noteStagedChange (s : Ledger) (runId : ℕ) (result : CapabilityCallResult) :
    Moves s.attention (s.noteStagedChange runId result).attention
      (· = .attention s.attention.length) := by
  simp only [Ledger.noteStagedChange]
  split
  · refine Moves.add rfl fun _ j b hb _ he => ?_
    obtain ⟨rfl,_⟩ := attentionThreadKey_attention he
    rw [List.getElem?_eq_none le_rfl] at hb
    cases hb
  · exact Moves.refl _ _

theorem moves_stallAttention (s : Ledger) (transcriptId runId : ℕ) (title : String)
    (detail : Dict) : Moves s.attention (s.stallAttention transcriptId runId title detail).attention
      (· = .run (some runId) .managedTaskStalled) := by
  simp only [Ledger.stallAttention]
  split
  · exact Moves.refl _ _
  · exact Moves.add rfl fun hmirrored => by cases hmirrored

theorem moves_dismissInterruption (h : s.dismissInterruption id now = .ok s') :
    ∃ T, Moves s.attention s'.attention T := by
  simp only [Ledger.dismissInterruption] at h
  split at h
  · cases h
  · next row hrow =>
    split at h
    · cases h
    · split at h
      · obtain rfl := Except.ok.inj h
        exact ⟨_,Moves.refl _ fun _ => False⟩
      · next hopen =>
        obtain rfl := Except.ok.inj h
        have hunresolved : row.resolved = false := by simpa using hopen
        exact ⟨_,Moves.change hrow hunresolved rfl⟩

variable [ActionRuntime]

theorem moves_interruptRun {reason : String} (h : s.interruptRun runId reason now = .ok s') :
    ∃ T, Moves s.attention s'.attention T := by
  rcases Ledger.interruptRun_ok h with ⟨rfl,_⟩ | ⟨run,t,v,_,_,rfl,hfold,hs⟩
  · exact ⟨_,Moves.refl _ fun _ => False⟩
  · have habandoned := moves_abandoned _ (nodup_ids _ _) hfold
    rcases hs with rfl | hs
    · rw [Ledger.recomputeRun_attention]
      exact ⟨_,habandoned⟩
    · have hnote := moves_noteInterruption hs
      rw [Ledger.recomputeRun_attention] at hnote
      exact ⟨_,habandoned.trans hnote fun k ⟨_,_,hk⟩ hk' => by rw [hk] at hk'; cases hk'⟩

theorem moves_prepareProposal {operation title capabilityId : String} {arguments : Dict}
    (ht : s.Tended)
    (h : s.prepareProposal runId operation arguments title capabilityId now = .ok (s',id)) :
    Moves s.attention s'.attention (· = .action s.actions.length) := by
  obtain ⟨_,_,rfl,_,rfl⟩ := Ledger.prepareProposal_ok h
  rw [Ledger.recomputeRun_attention]
  refine moves_ask (s := s) ?_ rfl rfl
  rw [Ledger.openAttention,List.eq_nil_iff_forall_not_mem]
  intro i hi
  obtain ⟨r,hr,hp⟩ := mem_ids.mp hi
  simp only [Bool.and_eq_true,beq_iff_eq] at hp
  exact Nat.lt_irrefl _ (ht.grounded r (List.mem_of_getElem? hr) _ hp.1).1

/-- Every operation that is not in bulk touches the rows of some threads, one row each. -/
theorem apply_moves {op : Op} (ht : s.Tended) (hbulk : inBulk op = false)
    (hc : s.apply op now = .ok s') : ∃ T, Moves s.attention s'.attention T := by
  have hsame : s'.attention = s.attention → ∃ T, Moves s.attention s'.attention T :=
    fun h => ⟨_,Moves.same h fun _ => False⟩
  cases op with
  | openTranscript row =>
    obtain rfl := Except.ok.inj hc
    exact hsame rfl
  | document transcriptId state =>
    obtain rfl := Except.ok.inj hc
    exact hsame rfl
  | createRun transcriptId intent kind =>
    obtain ⟨⟨t,i⟩,ht',rfl⟩ := map_accepted hc
    obtain ⟨_,rfl,_⟩ := Ledger.createRun_ok ht'
    exact hsame rfl
  | queueRun transcriptId intent scheduleId scheduledFor snapshot =>
    obtain ⟨⟨t,i⟩,ht',rfl⟩ := map_accepted hc
    obtain ⟨row,_,_,_,_,_,_,_,_,_,rfl,_⟩ := Ledger.queueRun_ok ht'
    exact hsame rfl
  | startRun runId =>
    obtain rfl := Except.ok.inj hc
    exact hsame rfl
  | heartbeat runId =>
    obtain rfl := Except.ok.inj hc
    exact hsame rfl
  | finishRun runId succeeded =>
    rcases Ledger.finishRun_ok hc with rfl | ⟨run,_,_,_,rfl⟩
    · exact hsame rfl
    · exact hsame (by rw [Ledger.recomputeRun_attention]; rfl)
  | interruptRun runId reason => exact moves_interruptRun hc
  | expireRun runId cutoff =>
    obtain rfl := Except.ok.inj hc
    exact hsame rfl
  | prepareProposal runId operation arguments title capabilityId =>
    obtain ⟨⟨t,i⟩,ht',rfl⟩ := map_accepted hc
    exact ⟨_,moves_prepareProposal ht ht'⟩
  | beginExecution actionId reviewed =>
    obtain ⟨⟨t,proposal⟩,ht',rfl⟩ := map_accepted hc
    obtain ⟨a,_,_,_,_,rfl⟩ := Ledger.beginExecution_ok ht'
    exact hsame (by rw [Ledger.recomputeRun_attention]; rfl)
  | beginAutomaticExecution runId operation arguments summary capabilityId =>
    obtain ⟨⟨t,i⟩,ht',rfl⟩ := map_accepted hc
    obtain ⟨_,_,_,rfl⟩ := Ledger.beginAutomaticExecution_ok ht'
    exact hsame rfl
  | recordExecution runId operation arguments status summary output =>
    obtain ⟨⟨t,i⟩,ht',rfl⟩ := map_accepted hc
    obtain ⟨_,_,rfl⟩ := Ledger.recordExecution_ok ht'
    exact hsame rfl
  | cancel actionId => exact ⟨_,moves_cancel hc⟩
  | supersede actionId =>
    obtain ⟨t,hcancel,rfl⟩ := Ledger.supersede_ok hc
    have hmoves := moves_cancel hcancel
    exact ⟨_,hmoves⟩
  | complete actionId status result externalId => exact ⟨_,moves_complete hc⟩
  | finishAction runId actionId result evidenceId =>
    rcases Ledger.finishAction_ok hc with ⟨a,_,_,rfl⟩ | ⟨t,hcomplete,rfl⟩
    · exact hsame rfl
    · refine ⟨_,(moves_complete hcomplete).trans (moves_noteStagedChange t runId result) ?_⟩
      rintro k rfl he
      cases he
  | reconcileStaleExecution actionId staleBefore =>
    rcases Ledger.reconcileStaleExecution_ok hc with rfl | hd
    · exact hsame rfl
    · exact ⟨_,moves_doubted hd⟩
  | acknowledgeUncertain actionId =>
    obtain ⟨a,i,_,_,hopen,rfl⟩ := Ledger.acknowledgeUncertain_ok hc
    exact ⟨_,moves_openAttention (f := (·.resolve now)) hopen fun r => rfl⟩
  | dismissInterruption attentionId => exact moves_dismissInterruption hc
  | dismissInformationalNotices => cases hbulk
  | ownerMessage transcriptId => cases hbulk
  | stallAttention transcriptId runId title detail =>
    obtain rfl := Except.ok.inj hc
    exact ⟨_,moves_stallAttention s transcriptId runId title detail⟩
  | resolveStallAttention transcriptId => cases hbulk

end

end Notifications
end Atlas
