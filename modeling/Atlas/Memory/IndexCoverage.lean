import Atlas.Memory.Indexing
import Atlas.Memory.IntakeSteps
import Atlas.Memory.Sweeps

/-! The index of the transcripts covers them: the chunks of a transcript follow each other without
overlap, hold the texts of their turns as they are now, and leave no text behind the cursor out,
whatever is said, forgotten and deleted between the passes. -/
namespace Atlas
namespace Memory

open RowTable
open Actions (ActionRuntime)

/-- A turn whose number lies in the range of a chunk. -/
def IndexChunkRow.Spans (c : IndexChunkRow) (t : TurnRow) : Prop :=
  t.transcriptId = c.transcriptId ∧ c.startSequence ≤ t.sequence ∧ t.sequence ≤ c.endSequence

variable [ActionRuntime]

/-- The numbers and texts of the turns in the range of a chunk. -/
structure Tables.Tells (s : Tables) (c : IndexChunkRow) (l : List (ℕ × String)) : Prop where
  ordered : l.Pairwise fun a b => a.1 < b.1
  mem : ∀ p, p ∈ l ↔ p.2 ≠ "" ∧
    ∃ (i : ℕ) (t : TurnRow), s.turns[i]? = some t ∧ c.Spans t ∧ p = (t.sequence,turnText t)
  first : l.head?.map (·.1) = some c.startSequence
  last : l.getLast?.map (·.1) = some c.endSequence
  content : c.content = "\n\n".intercalate (l.map (·.2))

/-- The index of the transcripts, while the texts of some turns are being taken away. -/
structure Tables.Indexed (s : Tables) (bound : ℕ) (D : ℕ → Prop) : Prop where
  numbered : s.Numbered
  behind : ∀ transcriptId, s.lastIndexed transcriptId ≤ s.lastSequence transcriptId
  ordered : ∀ transcriptId, (s.chunks.filter (·.transcriptId == transcriptId)).Pairwise
    fun a b => a.endSequence < b.startSequence
  within : ∀ c ∈ s.chunks, c.endSequence ≤ s.lastIndexed c.transcriptId
  told : ∀ c ∈ s.chunks,
    (∀ (i : ℕ) (t : TurnRow), s.turns[i]? = some t → c.Spans t → ¬D i) → ∃ l, s.Tells c l
  proper : ∀ c ∈ s.chunks, c.startSequence ≤ c.endSequence
  fits : ∀ c ∈ s.chunks, c.startSequence = c.endSequence ∨ c.content.length ≤ bound
  covered : ∀ (i : ℕ) (t : TurnRow), s.turns[i]? = some t → turnText t ≠ "" →
    t.sequence ≤ s.lastIndexed t.transcriptId → ¬D i → ∃ c ∈ s.chunks, c.Spans t

/-- Nothing of the index was written, and no text but those of some turns. -/
structure Undisturbed (D : ℕ → Prop) (s s' : Tables) : Prop where
  grown : Extends s s'
  chunks : s'.chunks = s.chunks
  states : s'.indexStates = s.indexStates
  texts : ∀ (i : ℕ) (t t' : TurnRow), s.turns[i]? = some t → s'.turns[i]? = some t' → ¬D i →
    turnText t' = turnText t

namespace Undisturbed

variable {D D' : ℕ → Prop} {bound : ℕ} {s s' s'' : Tables}

theorem trans (h : Undisturbed D s s') (h' : Undisturbed D' s' s'') :
    Undisturbed (fun i => D i ∨ D' i) s s'' where
  grown := h.grown.trans h'.grown
  chunks := h'.chunks.trans h.chunks
  states := h'.states.trans h.states
  texts i t t'' ht ht'' hD := by
    obtain ⟨t',ht',_⟩ := h.grown.turns i t ht
    exact (h'.texts i t' t'' ht' ht'' fun hd => hD (Or.inr hd)).trans
      (h.texts i t t' ht ht' fun hd => hD (Or.inl hd))

theorem mono (h : Undisturbed D s s') (hD : ∀ i, D i → D' i) : Undisturbed D' s s' :=
  ⟨h.grown,h.chunks,h.states,fun i t t' ht ht' hd => h.texts i t t' ht ht' fun h => hd (hD i h)⟩

theorem of_eq (h : s'.chronicle = s.chronicle) : Undisturbed D s s' := by
  have hext := Extends.of_eq h
  simp only [Tables.chronicle,Prod.mk.injEq] at h
  refine ⟨hext,h.2.2.1,h.2.2.2.1,fun i t t' ht ht' _ => ?_⟩
  rw [h.2.1,ht] at ht'
  rw [Option.some.inj ht']

theorem lastIndexed (h : Undisturbed D s s') (transcriptId : ℕ) :
    s'.lastIndexed transcriptId = s.lastIndexed transcriptId := by
  rw [Tables.lastIndexed,Tables.lastIndexed,h.states]

/-- The turns in the range of a chunk are those that were there before. -/
theorem spans (h : Undisturbed D' s s') (hs : s.Indexed bound D) {c : IndexChunkRow} (hc : c ∈ s.chunks)
    {i : ℕ} {t' : TurnRow} (ht' : s'.turns[i]? = some t') (hspans : c.Spans t') :
    ∃ t, s.turns[i]? = some t ∧ t.Kept t' ∧ c.Spans t := by
  rcases h.grown.turn ht' with ⟨t,ht,hk⟩ | hnew
  · refine ⟨t,ht,hk,?_⟩
    rw [IndexChunkRow.Spans,← hk.transcriptId,← hk.sequence]
    exact hspans
  · have hle := hspans.2.2.trans (hs.within c hc)
    have hseq := hs.behind c.transcriptId
    rw [hspans.1] at hnew
    omega

theorem indexed (h : Undisturbed D' s s') (hs : s.Indexed bound D) :
    s'.Indexed bound fun i => D i ∨ D' i where
  numbered := h.grown.numbered hs.numbered
  behind transcriptId := by
    rw [h.lastIndexed]
    exact (hs.behind transcriptId).trans (h.grown.sequences transcriptId)
  ordered := by
    rw [h.chunks]
    exact hs.ordered
  within c hc := by
    rw [h.chunks] at hc
    rw [h.lastIndexed]
    exact hs.within c hc
  proper c hc := by
    rw [h.chunks] at hc
    exact hs.proper c hc
  fits c hc := by
    rw [h.chunks] at hc
    exact hs.fits c hc
  told c hc hclean := by
    rw [h.chunks] at hc
    have hkept : ∀ (i : ℕ) (t : TurnRow), s.turns[i]? = some t → c.Spans t →
        ∃ t', s'.turns[i]? = some t' ∧ t.Kept t' ∧ c.Spans t' ∧ ¬D i ∧ turnText t' = turnText t := by
      intro i t ht hspans
      obtain ⟨t',ht',hk⟩ := h.grown.turns i t ht
      have hspans' : c.Spans t' := by
        rw [IndexChunkRow.Spans,hk.transcriptId,hk.sequence]
        exact hspans
      have hd := hclean i t' ht' hspans'
      exact ⟨t',ht',hk,hspans',fun hD => hd (Or.inl hD),
        h.texts i t t' ht ht' fun hD => hd (Or.inr hD)⟩
    obtain ⟨l,hl⟩ := hs.told c hc fun i t ht hspans => by
      obtain ⟨_,_,_,_,hd,_⟩ := hkept i t ht hspans
      exact hd
    refine ⟨l,hl.ordered,fun p => ?_,hl.first,hl.last,hl.content⟩
    rw [hl.mem]
    refine and_congr_right fun _ => ?_
    constructor
    · rintro ⟨i,t,ht,hspans,rfl⟩
      obtain ⟨t',ht',hk,hspans',_,htext⟩ := hkept i t ht hspans
      exact ⟨i,t',ht',hspans',by rw [hk.sequence,htext]⟩
    · rintro ⟨i,t',ht',hspans',rfl⟩
      obtain ⟨t,ht,_,hspans⟩ := h.spans hs hc ht' hspans'
      obtain ⟨u,hu,hk,_,_,htext⟩ := hkept i t ht hspans
      cases Option.some.inj (ht'.symm.trans hu)
      exact ⟨i,t,ht,hspans,by rw [hk.sequence,htext]⟩
  covered i t' ht' htext hle hd := by
    rw [h.lastIndexed] at hle
    rcases h.grown.turn ht' with ⟨t,ht,hk⟩ | hnew
    · rw [hk.transcriptId,hk.sequence] at hle
      rw [h.texts i t t' ht ht' fun hD => hd (Or.inr hD)] at htext
      obtain ⟨c,hc,hspans⟩ := hs.covered i t ht htext hle fun hD => hd (Or.inl hD)
      refine ⟨c,by rw [h.chunks]; exact hc,?_⟩
      rw [IndexChunkRow.Spans,hk.transcriptId,hk.sequence]
      exact hspans
    · have hseq := hs.behind t'.transcriptId
      omega

end Undisturbed

theorem Tables.Indexed.mono {s : Tables} {bound : ℕ} {D D' : ℕ → Prop} (h : s.Indexed bound D)
    (hD : ∀ (i : ℕ) (t : TurnRow), s.turns[i]? = some t → D i → D' i) : s.Indexed bound D' :=
  ⟨h.numbered,h.behind,h.ordered,h.within,
    fun c hc hclean => h.told c hc fun i t ht hs hd => hclean i t ht hs (hD i t ht hd),h.proper,h.fits,
    fun i t ht hx hle hd => h.covered i t ht hx hle fun h => hd (hD i t ht h)⟩

omit [ActionRuntime] in
/-- Two members of an ordered list are the same or stand in one order. -/
theorem pairwise_cases {α : Type*} {R : α → α → Prop} {l : List α} (h : l.Pairwise R) {a b : α}
    (ha : a ∈ l) (hb : b ∈ l) : a = b ∨ R a b ∨ R b a := by
  induction h with
  | nil => cases ha
  | cons hx _ ih =>
    rcases List.mem_cons.mp ha with rfl | ha'
    · rcases List.mem_cons.mp hb with rfl | hb'
      · exact Or.inl rfl
      · exact Or.inr (Or.inl (hx b hb'))
    · rcases List.mem_cons.mp hb with rfl | hb'
      · exact Or.inr (Or.inr (hx a ha'))
      · exact ih ha' hb'

namespace Tables

variable {s s' : Tables} {bound : ℕ} {D : ℕ → Prop} {transcriptId : ℕ}

/-- The index of a transcript is cut back to a place where no chunk is broken. -/
theorem Indexed.cut (hs : s.Indexed bound D) (transcriptId r : ℕ) (hext : Extends s s') (hturns : s'.turns = s.turns)
    (hchunks : s'.chunks = s.chunks.filter fun c =>
      !(c.transcriptId == transcriptId && decide (r ≤ c.endSequence)))
    (hother : ∀ t, t ≠ transcriptId → s'.lastIndexed t = s.lastIndexed t)
    (hlast : s'.lastIndexed transcriptId = min (s.lastIndexed transcriptId) (r - 1))
    (hcut : ∀ c ∈ s.chunks, c.transcriptId = transcriptId → r ≤ c.endSequence →
      r ≤ c.startSequence)
    (hD : ∀ (i : ℕ) (t : TurnRow), s.turns[i]? = some t → D i → t.transcriptId = transcriptId →
      r ≤ t.sequence) :
    s'.Indexed bound fun i => D i ∧ ∀ t, s.turns[i]? = some t → t.transcriptId ≠ transcriptId := by
  have hmem : ∀ c, c ∈ s'.chunks ↔ c ∈ s.chunks ∧
      (c.transcriptId = transcriptId → c.endSequence < r) := by
    intro c
    rw [hchunks,List.mem_filter]
    refine and_congr_right fun _ => ?_
    by_cases hc : c.transcriptId = transcriptId <;> simp [hc]
  have hle : ∀ t, s'.lastIndexed t ≤ s.lastIndexed t := by
    intro t
    by_cases ht : t = transcriptId
    · rw [ht,hlast]
      exact Nat.min_le_left _ _
    · exact (hother t ht).le
  refine ⟨hext.numbered hs.numbered,fun t => ?_,fun t => ?_,fun c hc => ?_,fun c hc hclean => ?_,
    fun c hc => hs.proper c ((hmem c).mp hc).1,fun c hc => hs.fits c ((hmem c).mp hc).1,fun i t ht htext hseq hd => ?_⟩
  · exact (hle t).trans ((hs.behind t).trans (hext.sequences t))
  · rw [hchunks]
    exact (hs.ordered t).sublist (List.filter_sublist.filter _)
  · obtain ⟨hc,hend⟩ := (hmem c).mp hc
    by_cases ht : c.transcriptId = transcriptId
    · have := hend ht
      have hw := hs.within c hc
      rw [ht] at hw ⊢
      rw [hlast]
      omega
    · rw [hother _ ht]
      exact hs.within c hc
  · obtain ⟨hc,hend⟩ := (hmem c).mp hc
    obtain ⟨l,hl⟩ := hs.told c hc fun i t ht hspans hd => by
      refine hclean i t (by rw [hturns]; exact ht) hspans ⟨hd,fun u hu hut => ?_⟩
      cases Option.some.inj (ht.symm.trans hu)
      have h₁ := hD i t ht hd hut
      have h₂ := hend (hspans.1.symm.trans hut)
      have h₃ := hspans.2.2
      omega
    exact ⟨l,hl.ordered,by rw [hturns]; exact hl.mem,hl.first,hl.last,hl.content⟩
  · rw [hturns] at ht
    have hpos := hs.numbered.positive i t ht
    have hcurrent : t.transcriptId = transcriptId → t.sequence ≤ r - 1 := by
      intro he
      rw [he,hlast] at hseq
      exact hseq.trans (Nat.min_le_right _ _)
    have hclean : ¬D i := by
      intro hd'
      refine hd ⟨hd',fun u hu hut => ?_⟩
      cases Option.some.inj (ht.symm.trans hu)
      have h₁ := hD i t ht hd' hut
      have h₂ := hcurrent hut
      omega
    obtain ⟨c,hc,hspans⟩ := hs.covered i t ht htext (hseq.trans (hle _)) hclean
    refine ⟨c,(hmem c).mpr ⟨hc,fun he => ?_⟩,hspans⟩
    by_contra hge
    have h₁ := hcut c hc he (Nat.le_of_not_lt hge)
    have h₂ := hcurrent (hspans.1.trans he)
    have h₃ := hspans.2.1
    omega

/-- The index of a transcript is carried on. -/
theorem Indexed.advance (hs : s.Indexed bound fun _ => False) (hext : Extends s s')
    (hturns : s'.turns = s.turns) {new : List IndexChunkRow} (hchunks : s'.chunks = s.chunks ++ new)
    (hother : ∀ t, t ≠ transcriptId → s'.lastIndexed t = s.lastIndexed t)
    (hbehind : s'.lastIndexed transcriptId ≤ s.lastSequence transcriptId)
    (hle : s.lastIndexed transcriptId ≤ s'.lastIndexed transcriptId)
    (hnew : ∀ c ∈ new, c.transcriptId = transcriptId ∧
      s.lastIndexed transcriptId < c.startSequence ∧ c.startSequence ≤ c.endSequence ∧
      c.endSequence ≤ s'.lastIndexed transcriptId ∧
      (c.startSequence = c.endSequence ∨ c.content.length ≤ bound) ∧ ∃ l, s.Tells c l)
    (hordered : new.Pairwise fun a b => a.endSequence < b.startSequence)
    (hcovered : ∀ (i : ℕ) (t : TurnRow), s.turns[i]? = some t → t.transcriptId = transcriptId →
      turnText t ≠ "" → s.lastIndexed transcriptId < t.sequence →
      t.sequence ≤ s'.lastIndexed transcriptId → ∃ c ∈ new, c.Spans t) :
    s'.Indexed bound fun _ => False := by
  have hmono : ∀ t, s.lastIndexed t ≤ s'.lastIndexed t := by
    intro t
    by_cases ht : t = transcriptId
    · rw [ht]
      exact hle
    · exact (hother t ht).ge
  refine ⟨hext.numbered hs.numbered,fun t => ?_,fun t => ?_,fun c hc => ?_,fun c hc _ => ?_,
    fun c hc => ?_,fun c hc => ?_,fun i t ht htext hseq _ => ?_⟩
  · refine Nat.le_trans ?_ (hext.sequences t)
    by_cases ht : t = transcriptId
    · rw [ht]
      exact hbehind
    · rw [hother t ht]
      exact hs.behind t
  · rw [hchunks,List.filter_append,List.pairwise_append]
    refine ⟨hs.ordered t,hordered.sublist List.filter_sublist,fun a ha b hb => ?_⟩
    obtain ⟨ha,hat⟩ := List.mem_filter.mp ha
    obtain ⟨hb,hbt⟩ := List.mem_filter.mp hb
    obtain ⟨hbτ,hlt,_⟩ := hnew b hb
    have hwithin := hs.within a ha
    rw [show a.transcriptId = transcriptId by
      rw [← hbτ,eq_of_beq hbt]
      exact eq_of_beq hat] at hwithin
    omega
  · rw [hchunks] at hc
    rcases List.mem_append.mp hc with hc | hc
    · exact (hs.within c hc).trans (hmono _)
    · obtain ⟨hτ,_,_,hend,_⟩ := hnew c hc
      rw [hτ]
      exact hend
  · rw [hchunks] at hc
    have htells : ∃ l, s.Tells c l := by
      rcases List.mem_append.mp hc with hc | hc
      · exact hs.told c hc fun _ _ _ _ h => h
      · exact (hnew c hc).2.2.2.2.2
    obtain ⟨l,hl⟩ := htells
    exact ⟨l,hl.ordered,by rw [hturns]; exact hl.mem,hl.first,hl.last,hl.content⟩
  · rw [hchunks] at hc
    rcases List.mem_append.mp hc with hc | hc
    · exact hs.proper c hc
    · exact (hnew c hc).2.2.1
  · rw [hchunks] at hc
    rcases List.mem_append.mp hc with hc | hc
    · exact hs.fits c hc
    · exact (hnew c hc).2.2.2.2.1
  · rw [hturns] at ht
    rw [hchunks]
    by_cases hτ : t.transcriptId = transcriptId
    · by_cases hold : t.sequence ≤ s.lastIndexed t.transcriptId
      · obtain ⟨c,hc,hspans⟩ := hs.covered i t ht htext hold id
        exact ⟨c,List.mem_append_left _ hc,hspans⟩
      · rw [hτ] at hold hseq
        obtain ⟨c,hc,hspans⟩ := hcovered i t ht hτ htext (Nat.lt_of_not_le hold) hseq
        exact ⟨c,List.mem_append_right _ hc,hspans⟩
    · rw [hother _ hτ] at hseq
      obtain ⟨c,hc,hspans⟩ := hs.covered i t ht htext hseq id
      exact ⟨c,List.mem_append_left _ hc,hspans⟩

omit [ActionRuntime] in
/-- The least number of a list is one of them. -/
theorem least_some {l : List ℕ} {n : ℕ} (h : least l = some n) : n ∈ l ∧ ∀ m ∈ l, n ≤ m := by
  cases l with
  | nil => cases h
  | cons a l =>
    obtain rfl := Option.some.inj h
    induction l generalizing a with
    | nil => simp
    | cons b l ih =>
      obtain ⟨h₁,h₂⟩ := ih (min a b) rfl
      simp only [List.foldl_cons]
      refine ⟨?_,fun m hm => ?_⟩
      · rcases List.mem_cons.mp h₁ with he | hmem
        · rcases Nat.le_total a b with hab | hab
          · rw [he,Nat.min_eq_left hab]
            simp
          · rw [he,Nat.min_eq_right hab]
            simp
        · exact List.mem_cons_of_mem _ (List.mem_cons_of_mem _ hmem)
      · have hle := h₂ (min a b) List.mem_cons_self
        rcases List.mem_cons.mp hm with rfl | hm
        · exact hle.trans (Nat.min_le_left _ _)
        · rcases List.mem_cons.mp hm with rfl | hm
          · exact hle.trans (Nat.min_le_right _ _)
          · exact h₂ m (List.mem_cons_of_mem _ hm)

omit [ActionRuntime] in
theorem least_none {l : List ℕ} (h : least l = none) : l = [] := by
  cases l with
  | nil => rfl
  | cons a l => cases h

omit [ActionRuntime] in
theorem lastIndexed_map (s : Tables) {f : IndexStateRow → IndexStateRow}
    (hf : ∀ r, (f r).transcriptId = r.transcriptId) (t : ℕ) :
    ({s with indexStates := s.indexStates.map f}).lastIndexed t =
      ((s.indexStates.find? fun r => r.transcriptId == t).map
        fun r => (f r).lastIndexedSequence).getD 0 := by
  have hsame : (fun r : IndexStateRow => r.transcriptId == t) ∘ f =
      fun r => r.transcriptId == t := by
    funext r
    rw [Function.comp,hf]
  rw [lastIndexed,List.find?_map,hsame,Option.map_map]
  rfl

/-- Where the rebuild of a transcript begins, no chunk is broken. -/
theorem Indexed.rebuild (hs : s.Indexed bound D) {sequence r : ℕ}
    (hr : r = ((least ((s.chunks.filter fun c =>
      c.transcriptId == transcriptId && decide (sequence ≤ c.endSequence)).map
        (·.startSequence))).map fun start => min sequence start).getD sequence) :
    r ≤ sequence ∧ ∀ c ∈ s.chunks, c.transcriptId = transcriptId → r ≤ c.endSequence →
      r ≤ c.startSequence := by
  cases hl : least ((s.chunks.filter fun c =>
      c.transcriptId == transcriptId && decide (sequence ≤ c.endSequence)).map
        (·.startSequence)) with
  | none =>
    have hnil := least_none hl
    rw [List.map_eq_nil_iff,List.filter_eq_nil_iff] at hnil
    rw [hl] at hr
    obtain rfl : r = sequence := hr
    refine ⟨le_rfl,fun c hc ht hend => ?_⟩
    exact absurd (by simp [ht,hend]) (hnil c hc)
  | some start =>
    rw [hl] at hr
    obtain rfl : r = min sequence start := hr
    obtain ⟨hmem,hleast⟩ := least_some hl
    obtain ⟨c₀,hc₀,rfl⟩ := List.mem_map.mp hmem
    obtain ⟨hc₀,h₀⟩ := List.mem_filter.mp hc₀
    simp only [Bool.and_eq_true,beq_iff_eq,decide_eq_true_eq] at h₀
    refine ⟨Nat.min_le_left _ _,fun c hc ht hend => ?_⟩
    by_cases hreach : sequence ≤ c.endSequence
    · have hin : c ∈ s.chunks.filter fun c =>
          c.transcriptId == transcriptId && decide (sequence ≤ c.endSequence) :=
        List.mem_filter.mpr ⟨hc,by simp [ht,hreach]⟩
      have := hleast _ (List.mem_map_of_mem hin)
      omega
    · have hb : ∀ x ∈ s.chunks, x.transcriptId = transcriptId →
          x ∈ s.chunks.filter (·.transcriptId == transcriptId) := fun x hx hxt =>
        List.mem_filter.mpr ⟨hx,by simpa using hxt⟩
      rcases pairwise_cases (hs.ordered transcriptId) (hb c hc ht) (hb c₀ hc₀ h₀.1) with
        rfl | hlt | hlt
      · omega
      · omega
      · have := hs.proper c hc
        omega

theorem Indexed.invalidateTranscript (hs : s.Indexed bound D) (now : Time) {sequence : ℕ}
    (hD : ∀ (i : ℕ) (t : TurnRow), s.turns[i]? = some t → D i → t.transcriptId = transcriptId →
      sequence ≤ t.sequence) :
    (s.invalidateTranscript now transcriptId sequence).Indexed bound fun i =>
      D i ∧ ∀ t, s.turns[i]? = some t → t.transcriptId ≠ transcriptId := by
  have hext := s.invalidateTranscript_extends now transcriptId sequence
  obtain ⟨r,hr⟩ : ∃ r, r = ((least ((s.chunks.filter fun c =>
      c.transcriptId == transcriptId && decide (sequence ≤ c.endSequence)).map
        (·.startSequence))).map fun start => min sequence start).getD sequence := ⟨_,rfl⟩
  obtain ⟨hle,hcut⟩ := hs.rebuild hr
  have hlast : ∀ t, (s.invalidateTranscript now transcriptId sequence).lastIndexed t =
      ((s.indexStates.find? fun row => row.transcriptId == t).map fun row =>
        if row.transcriptId = transcriptId then min row.lastIndexedSequence (r - 1)
        else row.lastIndexedSequence).getD 0 := by
    intro t
    rw [hr]
    refine (s.lastIndexed_map (f := fun row => if row.transcriptId = transcriptId then
      {row with lastIndexedSequence := min row.lastIndexedSequence (_ - 1)} else row)
      (fun row => ?_) t).trans ?_
    · split <;> rfl
    · congr 1
      congr 1
      funext row
      split <;> rfl
  have hfound : ∀ (t : ℕ) (row : IndexStateRow),
      (s.indexStates.find? fun row => row.transcriptId == t) = some row → row.transcriptId = t :=
    fun t row h => by simpa using List.find?_some h
  apply hs.cut transcriptId r hext rfl
  · rw [hr]
    rfl
  · intro t ht
    rw [hlast,Tables.lastIndexed]
    cases hf : s.indexStates.find? fun row => row.transcriptId == t with
    | none => rfl
    | some row => simp [hfound t row hf,ht]
  · rw [hlast,Tables.lastIndexed]
    cases hf : s.indexStates.find? fun row => row.transcriptId == transcriptId with
    | none => simp
    | some row => simp [hfound _ row hf]
  · exact hcut
  · exact fun i t ht hd hτ => hle.trans (hD i t ht hd hτ)

/-- The transcripts of some rows, cut back one after another. -/
def invalidateEach (now : Time) (rows : List TurnRow) (s : Tables) (transcripts : List ℕ) :
    Tables :=
  transcripts.foldl (fun s transcriptId =>
    match least ((rows.filter fun t => t.transcriptId == transcriptId).map (·.sequence)) with
    | none => s
    | some sequence => s.invalidateTranscript now transcriptId sequence) s

omit [ActionRuntime] in
theorem invalidateEach_turns (now : Time) (rows : List TurnRow) (s : Tables)
    (transcripts : List ℕ) : (invalidateEach now rows s transcripts).turns = s.turns :=
  Trace.foldl_invariant (I := fun u : Tables => u.turns = s.turns) transcripts
    (fun u _ _ hu => by split <;> exact hu) rfl

theorem Indexed.invalidateEach (hs : s.Indexed bound D) (now : Time) (rows : List TurnRow)
    (hrows : ∀ (i : ℕ) (t : TurnRow), s.turns[i]? = some t → D i → t ∈ rows)
    (transcripts : List ℕ) : (invalidateEach now rows s transcripts).Indexed bound fun i =>
      D i ∧ ∀ t, s.turns[i]? = some t → t.transcriptId ∉ transcripts := by
  induction transcripts generalizing s D with
  | nil => exact hs.mono fun i t _ hd => ⟨hd,by simp⟩
  | cons τ transcripts ih =>
    rw [Tables.invalidateEach,List.foldl_cons]
    cases hl : least ((rows.filter fun t => t.transcriptId == τ).map (·.sequence)) with
    | none =>
      have hnil := least_none hl
      rw [List.map_eq_nil_iff,List.filter_eq_nil_iff] at hnil
      refine (ih hs hrows).mono fun i t ht hd => ⟨hd.1,fun u hu => ?_⟩
      rw [invalidateEach_turns,hu] at ht
      rw [List.mem_cons,not_or]
      exact ⟨fun he => hnil u (hrows i u hu hd.1) (by simpa using he),hd.2 u hu⟩
    | some sequence =>
      have hcut := @Indexed.invalidateTranscript _ s bound D τ hs now sequence
        fun i t ht hd hτ => (least_some hl).2 _ (List.mem_map_of_mem
          (List.mem_filter.mpr ⟨hrows i t ht hd,by simpa using hτ⟩))
      refine (ih hcut fun i t ht hd => hrows i t ht hd.1).mono fun i t ht hd => ⟨hd.1.1,?_⟩
      intro u hu
      rw [List.mem_cons,not_or]
      exact ⟨hd.1.2 u hu,hd.2 u hu⟩

/-- Where the texts of turns were taken away, the transcripts lose all that was made of them. -/
theorem Indexed.invalidateTranscriptDerivatives (hs : s.Indexed bound D) (now : Time)
    {turnIds : List ℕ} (hD : ∀ (i : ℕ) (t : TurnRow), s.turns[i]? = some t → D i → i ∈ turnIds) :
    (s.invalidateTranscriptDerivatives turnIds now).Indexed bound fun _ => False := by
  unfold Tables.invalidateTranscriptDerivatives
  split
  · next hnil =>
    refine hs.mono fun i t ht hd => ?_
    have hmem := hD i t ht hd
    rw [List.isEmpty_iff.mp hnil] at hmem
    cases hmem
  · have hrows : ∀ (i : ℕ) (t : TurnRow), s.turns[i]? = some t → D i →
        t ∈ turnIds.filterMap fun id => s.turns[id]? := fun i t ht hd =>
      List.mem_filterMap.mpr ⟨i,hD i t ht hd,ht⟩
    have heach := hs.invalidateEach now _ hrows (firstOccurrences
      ((turnIds.filterMap fun id => s.turns[id]?).map (·.transcriptId)))
    have hquiet : ∀ u : Tables, Undisturbed (fun _ => False) u u.invalidateContinuityCapsules :=
      fun u => Undisturbed.of_eq rfl
    refine ((hquiet _).indexed heach).mono fun i t ht hd => ?_
    rcases hd with ⟨hd,hout⟩ | hd
    · rw [show (Tables.invalidateContinuityCapsules _).turns = _ from
        invalidateEach_turns now _ s _] at ht
      apply hout t ht
      rw [mem_firstOccurrences]
      exact List.mem_map_of_mem (hrows i t ht hd)
    · exact hd

end Tables

end Memory
end Atlas
