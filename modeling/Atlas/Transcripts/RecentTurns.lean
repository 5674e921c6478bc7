import Atlas.Memory.Rows
import Atlas.Lib.Newest

/-! The turns that a chat is opened with: those of the last exchanges, within a limit. -/
namespace Atlas
namespace Transcripts

open Memory Newest

/-- Turns, no two of which have one number in one transcript. -/
structure Turns where
  rows : List TurnRow
  unique : (rows.map fun t => (t.transcriptId,t.sequence)).Nodup

namespace Turns

/-- The turns of a transcript. -/
def ofTranscript (turns : Turns) (transcriptId : ℕ) : List TurnRow :=
  turns.rows.filter fun t => t.transcriptId == transcriptId

theorem sequence_nodup (turns : Turns) (transcriptId : ℕ) :
    ((turns.ofTranscript transcriptId).map (·.sequence)).Nodup := by
  have hpairs : ((turns.ofTranscript transcriptId).map fun t =>
      (t.transcriptId,t.sequence)).Nodup := turns.unique.sublist (List.filter_sublist.map _)
  refine List.Nodup.map_on (fun x hx y hy hxy => ?_) (List.Nodup.of_map _ hpairs)
  refine List.inj_on_of_nodup_map hpairs hx hy ?_
  have hat : ∀ t ∈ turns.ofTranscript transcriptId, t.transcriptId = transcriptId :=
    fun t ht => by simpa using (List.mem_filter.mp ht).2
  rw [hat x hx,hat y hy,hxy]

/-- The number of rows that a limit of a caller allows. -/
def rowLimit (limit : ℤ) : ℕ := (max 1 (min limit 500)).toNat

/-- Whether a number lies between bounds that may be missing. -/
def within (beforeSequence afterSequence : Option ℤ) (t : TurnRow) : Bool :=
  beforeSequence.all (fun b => (t.sequence : ℤ) < b) &&
    afterSequence.all fun a => a < (t.sequence : ℤ)

/-- `TranscriptRepository.list_turns`. -/
def listTurns (turns : Turns) (transcriptId : ℕ) (limit : ℤ)
    (beforeSequence afterSequence : Option ℤ) : List TurnRow :=
  latest (·.sequence) (rowLimit limit)
    ((turns.ofTranscript transcriptId).filter (within beforeSequence afterSequence))

/-- The owner's turns of a transcript. -/
def ownerTurns (turns : Turns) (transcriptId : ℕ) : List TurnRow :=
  (turns.ofTranscript transcriptId).filter fun t => t.actor = .owner

/-- The numbers of the last turns of the owner, the last one first. -/
def ownerSequences (turns : Turns) (transcriptId : ℕ) (exchanges : ℤ) : List ℕ :=
  (latestFirst (·.sequence) (max 1 (min exchanges 50)).toNat (turns.ownerTurns transcriptId)).map
    (·.sequence)

/-- `items[start:]`. -/
def sliceFrom {α : Type*} (items : List α) (start : ℤ) : List α :=
  items.drop (if start < 0 then (items.length + start).toNat else start.toNat)

/-- The number that the turns of the last exchanges lie above. -/
def windowStart (ownerSequences : List ℕ) : Option ℤ :=
  ownerSequences.min?.map fun first : ℕ => (first : ℤ) - 1

/-- `TranscriptRepository.list_recent_turns`. -/
def listRecentTurns (turns : Turns) (transcriptId : ℕ) (exchanges limit : ℤ) : List TurnRow :=
  let ownerSequences := turns.ownerSequences transcriptId exchanges
  let recent := turns.listTurns transcriptId limit none (windowStart ownerSequences)
  match ownerSequences.head? with
  | none => recent
  | some last =>
      if recent.any fun t => t.sequence == last then recent
      else turns.listTurns transcriptId 1 (some (last + 1)) none ++ sliceFrom recent (-(limit - 1))

/-- The turns that the limit of exchanges selects. -/
def selected (turns : Turns) (transcriptId : ℕ) (exchanges : ℤ) : List TurnRow :=
  (turns.ofTranscript transcriptId).filter
    (within none (windowStart (turns.ownerSequences transcriptId exchanges)))

/-- The last turn of the owner among some turns. -/
def LatestOwner (turns : List TurnRow) (t : TurnRow) : Prop :=
  t ∈ turns ∧ t.actor = .owner ∧ ∀ u ∈ turns, u.actor = .owner → u.sequence ≤ t.sequence

/-- What a caller relies on. -/
structure Recent (turns : Turns) (transcriptId : ℕ) (exchanges limit : ℤ)
    (listed : List TurnRow) : Prop where
  ascending : listed.Pairwise (·.sequence < ·.sequence)
  bounded : (listed.length : ℤ) ≤ limit
  selected : ∀ t ∈ listed, t ∈ turns.selected transcriptId exchanges
  owner : ∀ t, LatestOwner (turns.selected transcriptId exchanges) t → t ∈ listed
  newest : ∀ t ∈ turns.selected transcriptId exchanges, t ∉ listed → ∀ u ∈ listed,
    ¬LatestOwner (turns.selected transcriptId exchanges) u → t.sequence < u.sequence

section

variable {turns : Turns} {transcriptId : ℕ} {exchanges limit : ℤ} {t u o : TurnRow} {last : ℕ}

theorem mem_ownerTurns : t ∈ turns.ownerTurns transcriptId ↔
    t ∈ turns.ofTranscript transcriptId ∧ t.actor = .owner := by
  simp [ownerTurns]

theorem eq_of_sequence (ht : t ∈ turns.ofTranscript transcriptId)
    (hu : u ∈ turns.ofTranscript transcriptId) (h : t.sequence = u.sequence) : t = u :=
  List.inj_on_of_nodup_map (turns.sequence_nodup transcriptId) ht hu h

theorem of_selected (h : t ∈ turns.selected transcriptId exchanges) :
    t ∈ turns.ofTranscript transcriptId := List.mem_of_mem_filter h

theorem selected_nodup (turns : Turns) (transcriptId : ℕ) (exchanges : ℤ) :
    ((turns.selected transcriptId exchanges).map (·.sequence)).Nodup :=
  (turns.sequence_nodup transcriptId).sublist (List.filter_sublist.map _)

/-- What is newer than a selected turn is selected. -/
theorem selected_up (ht : t ∈ turns.selected transcriptId exchanges)
    (hu : u ∈ turns.ofTranscript transcriptId) (h : t.sequence ≤ u.sequence) :
    u ∈ turns.selected transcriptId exchanges := by
  have hin := (List.mem_filter.mp ht).2
  refine List.mem_filter.mpr ⟨hu,?_⟩
  cases hstart : windowStart (turns.ownerSequences transcriptId exchanges) with
  | none => rfl
  | some start =>
    rw [hstart] at hin
    simp only [within,Option.all_none,Option.all_some,Bool.true_and,decide_eq_true_eq] at hin ⊢
    omega

/-- The last turn of the owner is selected, and read alone by the query for it. -/
theorem latest_owner (h : (turns.ownerSequences transcriptId exchanges).head? = some last) :
    ∃ o, LatestOwner (turns.selected transcriptId exchanges) o ∧ o.sequence = last ∧
      turns.listTurns transcriptId 1 (some (last + 1)) none = [o] := by
  rw [ownerSequences,List.head?_map,Option.map_eq_some_iff] at h
  obtain ⟨o,ho,rfl⟩ := h
  have hmem := mem_ownerTurns.mp (mem_of_mem_latestFirst (List.mem_of_head? ho))
  have hmax : ∀ u ∈ turns.ofTranscript transcriptId, u.actor = .owner → u.sequence ≤ o.sequence :=
    fun u hu hactor => le_of_head_latestFirst ho (mem_ownerTurns.mpr ⟨hu,hactor⟩)
  have hselected : o ∈ turns.selected transcriptId exchanges := by
    refine List.mem_filter.mpr ⟨hmem.1,?_⟩
    cases hfirst : (turns.ownerSequences transcriptId exchanges).min? with
    | none =>
      rw [windowStart,hfirst]
      rfl
    | some first =>
      have hle : first ≤ o.sequence := (List.min?_eq_some_iff.mp hfirst).2 o.sequence
        (List.mem_map_of_mem (List.mem_of_head? ho))
      rw [windowStart,hfirst]
      simp only [within,Option.map_some,Option.all_none,Option.all_some,Bool.true_and,
        decide_eq_true_eq]
      omega
  refine ⟨o,⟨hselected,hmem.2,fun u hu => hmax u (of_selected hu)⟩,rfl,?_⟩
  refine newest_one ?_ (List.mem_filter.mpr ⟨hmem.1,?_⟩) fun u hu => ?_
  · exact (turns.sequence_nodup transcriptId).sublist (List.filter_sublist.map _)
  · simp only [within,Option.all_none,Option.all_some,Bool.and_true,decide_eq_true_eq]
    omega
  · have hu := (List.mem_filter.mp hu).2
    simp only [within,Option.all_none,Option.all_some,Bool.and_true,decide_eq_true_eq] at hu
    omega

theorem ownerTurns_of_none
    (h : (turns.ownerSequences transcriptId exchanges).head? = none) :
    turns.ownerTurns transcriptId = [] := by
  rw [List.head?_eq_none_iff,ownerSequences,List.map_eq_nil_iff] at h
  exact latestFirst_eq_nil (by omega) h

theorem LatestOwner.unique {l : List TurnRow} (hl : (l.map (·.sequence)).Nodup)
    (h : LatestOwner l t) (h' : LatestOwner l u) : t = u :=
  List.inj_on_of_nodup_map hl h.1 h'.1
    (Nat.le_antisymm (h'.2.2 t h.1 h.2.1) (h.2.2 u h'.1 h'.2.1))

/-- Whether the newest turn of a transcript is one of the owner. -/
def EndsWithOwner (turns : Turns) (transcriptId : ℕ) : Prop :=
  ∀ t ∈ turns.ofTranscript transcriptId,
    (∀ u ∈ turns.ofTranscript transcriptId, u.sequence ≤ t.sequence) → t.actor = .owner

theorem rowLimit_le (h : 1 ≤ limit) : (rowLimit limit : ℤ) ≤ limit := by
  rw [rowLimit]
  omega

/-- The newest turns of the window, where they hold the last turn of the owner. -/
theorem recent_newest (h : 1 ≤ limit)
    (howner : ∀ t, LatestOwner (turns.selected transcriptId exchanges) t →
      t ∈ latest (·.sequence) (rowLimit limit) (turns.selected transcriptId exchanges)) :
    Recent turns transcriptId exchanges limit
      (latest (·.sequence) (rowLimit limit) (turns.selected transcriptId exchanges)) where
  ascending := newest_ordered (selected_nodup turns transcriptId exchanges)
  bounded := by
    have hle := rowLimit_le h
    rw [length_newest]
    omega
  selected := fun t ht => mem_of_mem_newest ht
  owner := howner
  newest := fun t ht hout u hu _ =>
    lt_of_not_mem_newest (selected_nodup turns transcriptId exchanges) ht hout hu

/-- The last turn of the owner, and after it as many of the newest turns as a limit above one
leaves. -/
theorem recent_joined (h : 2 ≤ limit) (ho : LatestOwner (turns.selected transcriptId exchanges) o)
    (hout : o ∉ latest (·.sequence) (rowLimit limit) (turns.selected transcriptId exchanges)) :
    Recent turns transcriptId exchanges limit (o :: sliceFrom
      (latest (·.sequence) (rowLimit limit) (turns.selected transcriptId exchanges))
      (-(limit - 1))) := by
  have hnodup := selected_nodup turns transcriptId exchanges
  have hslice : ∀ items : List TurnRow, sliceFrom items (-(limit - 1)) =
      items.drop (items.length - (limit - 1).toNat) := by
    intro items
    rw [sliceFrom,if_pos (by omega)]
    congr 1
    omega
  generalize hr : latest (·.sequence) (rowLimit limit) (turns.selected transcriptId exchanges) =
    recent at hout ⊢
  have hordered : recent.Pairwise (·.sequence < ·.sequence) := hr ▸ newest_ordered hnodup
  have hmem : ∀ t ∈ recent, t ∈ turns.selected transcriptId exchanges :=
    fun t ht => mem_of_mem_newest (hr ▸ ht)
  have habove : ∀ t ∈ turns.selected transcriptId exchanges, t ∉ recent → ∀ u ∈ recent,
      t.sequence < u.sequence := by
    intro t ht htout u hu
    rw [← hr] at htout hu
    exact lt_of_not_mem_newest hnodup ht htout hu
  rw [hslice]
  have hsub := List.drop_sublist (recent.length - (limit - 1).toNat) recent
  constructor
  case ascending =>
    exact List.pairwise_cons.mpr ⟨fun u hu => habove o ho.1 hout u (hsub.subset hu),
      hordered.sublist hsub⟩
  case bounded =>
    rw [List.length_cons,List.length_drop]
    omega
  case selected =>
    intro t ht
    rcases List.mem_cons.mp ht with rfl | ht
    · exact ho.1
    · exact hmem t (hsub.subset ht)
  case owner =>
    intro t ht
    rw [LatestOwner.unique hnodup ht ho]
    exact List.mem_cons_self
  case newest =>
    intro t ht htout u hu hnot
    rw [List.mem_cons,not_or] at htout
    rcases List.mem_cons.mp hu with rfl | hu
    · exact absurd ho hnot
    · by_cases hin : t ∈ recent
      · rw [← List.take_append_drop (recent.length - (limit - 1).toNat) recent,
          List.mem_append] at hin
        rw [← List.take_append_drop (recent.length - (limit - 1).toNat) recent,
          List.pairwise_append] at hordered
        exact hordered.2.2 t (hin.resolve_right htout.2) u hu
      · exact habove t ht hin u (hsub.subset hu)

/-- One turn of the window holds the owner's last one where the transcript ends with it. -/
theorem mem_newest_one (ho : LatestOwner (turns.selected transcriptId exchanges) o) :
    o ∈ latest (·.sequence) 1 (turns.selected transcriptId exchanges) ↔
      turns.EndsWithOwner transcriptId := by
  obtain ⟨y,hy,hone,hmax⟩ := @newest_one_max _ (·.sequence) _ _ ho.1
  rw [hone,List.mem_singleton]
  constructor
  · rintro rfl t ht hlast
    have hup := selected_up ho.1 ht (hlast o (of_selected ho.1))
    have heq := Nat.le_antisymm (hmax t hup) (hlast o (of_selected ho.1))
    rw [eq_of_sequence ht (of_selected ho.1) heq]
    exact ho.2.1
  · intro hends
    have hlast : ∀ u ∈ turns.ofTranscript transcriptId, u.sequence ≤ y.sequence := by
      intro u hu
      by_contra hgt
      exact hgt (hmax u (selected_up hy hu (by omega)))
    have hactor := hends y (of_selected hy) hlast
    exact LatestOwner.unique (selected_nodup turns transcriptId exchanges) ho
      ⟨hy,hactor,fun u hu _ => hmax u hu⟩

/-- The last turns are those of the last exchanges within the limit if and only if the limit is
above one, the transcript has no turn of the owner, or it ends with one. -/
theorem recent_turns_iff (turns : Turns) (transcriptId : ℕ) (exchanges : ℤ) {limit : ℤ}
    (h : 1 ≤ limit) :
    Recent turns transcriptId exchanges limit
      (turns.listRecentTurns transcriptId exchanges limit) ↔
    (2 ≤ limit ∨ turns.ownerTurns transcriptId = [] ∨ turns.EndsWithOwner transcriptId) := by
  have hnodup := selected_nodup turns transcriptId exchanges
  have hrecent : turns.listTurns transcriptId limit none
      (windowStart (turns.ownerSequences transcriptId exchanges)) =
      latest (·.sequence) (rowLimit limit) (turns.selected transcriptId exchanges) := rfl
  simp only [listRecentTurns,hrecent]
  cases hhead : (turns.ownerSequences transcriptId exchanges).head? with
  | none =>
    have hnil := ownerTurns_of_none hhead
    refine ⟨fun _ => .inr (.inl hnil),fun _ => recent_newest h fun t ht => ?_⟩
    have hin := mem_ownerTurns.mpr ⟨of_selected ht.1,ht.2.1⟩
    rw [hnil] at hin
    cases hin
  | some last =>
    obtain ⟨o,ho,rfl,hone⟩ := latest_owner hhead
    have hmem := of_selected ho.1
    have hfound : ((latest (·.sequence) (rowLimit limit)
        (turns.selected transcriptId exchanges)).any fun t => t.sequence == o.sequence) = true ↔
        o ∈ latest (·.sequence) (rowLimit limit) (turns.selected transcriptId exchanges) := by
      rw [List.any_eq_true]
      constructor
      · rintro ⟨t,ht,heq⟩
        rw [eq_of_sequence hmem (of_selected (mem_of_mem_newest ht)) (eq_of_beq heq).symm]
        exact ht
      · exact fun hin => ⟨o,hin,beq_self_eq_true _⟩
    by_cases hin : o ∈ latest (·.sequence) (rowLimit limit) (turns.selected transcriptId exchanges)
    · simp only [if_pos (hfound.mpr hin)]
      have hholds := recent_newest h fun t ht => by
        rw [LatestOwner.unique hnodup ht ho]
        exact hin
      refine ⟨fun _ => ?_,fun _ => hholds⟩
      by_cases htwo : 2 ≤ limit
      · exact .inl htwo
      · obtain rfl : limit = 1 := by omega
        exact .inr (.inr ((mem_newest_one ho).mp hin))
    · simp only [if_neg (fun hany => hin (hfound.mp hany)),hone,List.singleton_append]
      by_cases htwo : 2 ≤ limit
      · exact ⟨fun _ => .inl htwo,fun _ => recent_joined htwo ho hin⟩
      · obtain rfl : limit = 1 := by omega
        obtain ⟨y,_,hy,_⟩ := @newest_one_max _ (·.sequence) _ _ ho.1
        refine ⟨fun hholds => ?_,fun hcond => ?_⟩
        · have hbounded := hholds.bounded
          have hrow : rowLimit 1 = 1 := rfl
          rw [hrow,hy] at hbounded
          exact absurd hbounded (by simp [sliceFrom])
        · rcases hcond with hle | hnil | hends
          · omega
          · have hturn := mem_ownerTurns.mpr ⟨hmem,ho.2.1⟩
            rw [hnil] at hturn
            cases hturn
          · exact absurd ((mem_newest_one ho).mpr hends) hin

end

/-- A chat that ends with a turn of a tool. -/
def toolEnded : Turns where
  rows := [
    {transcriptId := 0, actor := .owner, sequence := 1, blocks := []},
    {transcriptId := 0, actor := .tool, sequence := 2, blocks := []}]
  unique := by decide

theorem recent_turns_two : Recent toolEnded 0 20 2 (toolEnded.listRecentTurns 0 20 2) :=
  (recent_turns_iff toolEnded 0 20 (by decide)).mpr (.inl (by decide))

/-- With room for one turn two are listed. -/
theorem recent_turns_over : (toolEnded.listRecentTurns 0 20 1).length = 2 ∧
    ¬Recent toolEnded 0 20 1 (toolEnded.listRecentTurns 0 20 1) := by
  have hlength : (toolEnded.listRecentTurns 0 20 1).length = 2 := by decide
  refine ⟨hlength,fun h => ?_⟩
  have hbounded := h.bounded
  rw [hlength] at hbounded
  exact absurd hbounded (by decide)

end Turns

end Transcripts
end Atlas
