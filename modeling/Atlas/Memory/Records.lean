import Mathlib.Logic.Relation
import Atlas.Lib.Pointers
import Atlas.Memory.Durable

/-! Durable memories as a table of records: the row writes that operations are made of, and
what each of them keeps of content identity, row shape and supersession. -/
namespace Atlas
namespace Memory

open RowTable

def correctionGuardKind : String := "owner_correction_guard"

namespace DurableMemoryRow

/-- Content, its fingerprint and the kind of the record are as before. -/
structure SamePayload (m m' : DurableMemoryRow) : Prop where
  kind : m'.recordKind = m.recordKind
  content : m'.content = m.content
  fingerprint : m'.fingerprint = m.fingerprint
  embedded : m'.embedded = true → m.embedded = true

/-- Nothing of a row changes that its lifecycle depends on. -/
structure Touched (m m' : DurableMemoryRow) : Prop extends SamePayload m m' where
  status : m'.status = m.status
  suppresses : m'.suppressesRecall = m.suppressesRecall
  superseded : m'.supersededById = m.supersededById
  deletedAt : m'.deletedAt = m.deletedAt
  deletion : m'.deletionOperationId = m.deletionOperationId

/-- A row whose payload is gone for good. -/
structure Erased (m : DurableMemoryRow) : Prop where
  status : m.status = .deleted
  content : m.content = none
  fingerprint : m.fingerprint = none
  embedded : m.embedded = false
  deletedAt : m.deletedAt ≠ none
  deletion : m.deletionOperationId ≠ none

theorem Touched.refl (m : DurableMemoryRow) : Touched m m :=
  ⟨⟨rfl,rfl,rfl,id⟩,rfl,rfl,rfl,rfl,rfl⟩

end DurableMemoryRow

open DurableMemoryRow

/-- No active row but the given one has the fingerprint. -/
def Unclaimed (t : List DurableMemoryRow) (i : ℕ) (fingerprint : Option String) : Prop :=
  ∀ (j : ℕ) (r : DurableMemoryRow), t[j]? = some r → r.status = .active →
    r.fingerprint = fingerprint → j = i

/-- A row that no other row was superseded by yet can become the target of a pointer. -/
def Unsuperseded (t : List DurableMemoryRow) (j : ℕ) : Prop :=
  ∃ r : DurableMemoryRow, t[j]? = some r ∧ r.supersededById = none

section

variable [PyRuntime]

/-- What one write of a row may do. -/
inductive RowShift (t : List DurableMemoryRow) (i : ℕ) (m m' : DurableMemoryRow) : Prop
  | retire : m.status = .active → m'.status = .retired → SamePayload m m' →
      m'.suppressesRecall = true → m'.supersededById = m.supersededById → RowShift t i m m'
  | restore : m.status = .retired → m'.status = .active → SamePayload m m' →
      m'.suppressesRecall = false → m'.supersededById = m.supersededById →
      Unclaimed t i m.fingerprint → RowShift t i m m'
  | reword (content : String) : m'.status = m.status → m'.recordKind = m.recordKind →
      m.content ≠ none → m'.content = some content →
      m'.fingerprint = some (memoryFingerprint content) →
      m'.suppressesRecall = m.suppressesRecall → m'.supersededById = m.supersededById →
      Unclaimed t i (some (memoryFingerprint content)) → RowShift t i m m'
  | supersede (j : ℕ) : m.status = .active → m'.status = .superseded → SamePayload m m' →
      m'.suppressesRecall = true → m'.supersededById = some j → j ≠ i → Unsuperseded t j →
      RowShift t i m m'
  | point (j : ℕ) : m.recordKind = correctionGuardKind → m.status ≠ .active →
      m'.status = m.status → SamePayload m m' → m'.suppressesRecall = m.suppressesRecall →
      m'.deletedAt = m.deletedAt → m'.deletionOperationId = m.deletionOperationId →
      m'.supersededById = some j → j ≠ i → Unsuperseded t j → RowShift t i m m'

/-- A row as it is added to the table. -/
inductive Inserted (t : List DurableMemoryRow) (m : DurableMemoryRow) : Prop
  | created (content : String) : m.status = .active → m.content = some content →
      m.fingerprint = some (memoryFingerprint content) → m.suppressesRecall = false →
      m.supersededById = none → m.recordKind ≠ correctionGuardKind →
      Unclaimed t t.length (some (memoryFingerprint content)) → Inserted t m
  | lifecycle (content : String) : m.status = .superseded ∨ m.status = .retired →
      m.content = some content → m.fingerprint = some (memoryFingerprint content) →
      m.suppressesRecall = true → m.supersededById = none →
      (m.recordKind = correctionGuardKind → m.status = .superseded) → Inserted t m
  | historical (content : String) (target : ℕ) : m.status = .superseded →
      m.content = some content → m.fingerprint = some (memoryFingerprint content) →
      m.suppressesRecall = true → m.supersededById = some target → target < t.length →
      Inserted t m
  | tombstone : Erased m → m.supersededById = none → m.recordKind ≠ correctionGuardKind →
      Inserted t m

/-- One row write, or one statement that touches rows and, where it may, erases them. -/
inductive RowWrite (erases : Prop) (t t' : List DurableMemoryRow) : Prop
  | write (i : ℕ) (m m' : DurableMemoryRow) : Changes t t' i m m' → RowShift t i m m' →
      RowWrite erases t t'
  | insert (m : DurableMemoryRow) : t' = t ++ [m] → Inserted t m → RowWrite erases t t'
  | sweep : t'.length = t.length → (∀ (i : ℕ) (m m' : DurableMemoryRow), t[i]? = some m →
      t'[i]? = some m' → Touched m m' ∨ erases ∧ (Erased m' ∧ m'.recordKind = m.recordKind ∧
        m'.supersededById = m.supersededById)) → RowWrite erases t t'

/-- One row write, or one statement that touches or erases rows. -/
abbrev RecordChange : List DurableMemoryRow → List DurableMemoryRow → Prop := RowWrite True

end

/-- At most one active row has a fingerprint. -/
def UniqueActive (t : List DurableMemoryRow) : Prop :=
  ∀ (i j : ℕ) (m m' : DurableMemoryRow), t[i]? = some m → t[j]? = some m' →
    m.status = .active → m'.status = .active → m.fingerprint = m'.fingerprint → i = j

/-- Retired rows stay out of recall. -/
def Suppressed (t : List DurableMemoryRow) : Prop :=
  ∀ (i : ℕ) (m : DurableMemoryRow), t[i]? = some m → m.status = .retired →
    m.suppressesRecall = true

/-- The columns of a row agree with its status. -/
structure Shaped [PyRuntime] (t : List DurableMemoryRow) : Prop where
  recalled : ∀ (i : ℕ) (m : DurableMemoryRow), t[i]? = some m → m.status = .active →
    m.suppressesRecall = false
  erased : ∀ (i : ℕ) (m : DurableMemoryRow), t[i]? = some m → m.status = .deleted → Erased m
  payload : ∀ (i : ℕ) (m : DurableMemoryRow), t[i]? = some m → m.status ≠ .deleted →
    ∃ content, m.content = some content ∧ m.fingerprint = some (memoryFingerprint content)

/-- The pointer of a row, if there is such a row. -/
def supersededBy (t : List DurableMemoryRow) (i : ℕ) : Option (Option ℕ) :=
  (t[i]?).map (·.supersededById)

/-- Pointers lead to rows without one, and only ended rows and guards have pointers. -/
structure Forest (t : List DurableMemoryRow) : Prop where
  rooted : ∀ i, i < t.length → Pointers.Rooted (supersededBy t) i
  guards : ∀ (i : ℕ) (m : DurableMemoryRow), t[i]? = some m → m.recordKind = correctionGuardKind →
    m.status = .superseded ∨ m.status = .deleted
  ended : ∀ (i : ℕ) (m : DurableMemoryRow), t[i]? = some m → m.supersededById ≠ none →
    m.status = .superseded ∨ m.status = .deleted

/-- Where a row of the changed table comes from. -/
theorem sweep_source {t t' : List DurableMemoryRow} (hl : t'.length = t.length) {i : ℕ}
    {m' : DurableMemoryRow} (hm : t'[i]? = some m') : ∃ m, t[i]? = some m := by
  have hi : i < t.length := hl ▸ (List.getElem?_eq_some_iff.mp hm).1
  exact ⟨t[i],List.getElem?_eq_getElem hi⟩

section

variable [PyRuntime] {t t' : List DurableMemoryRow}

theorem UniqueActive.change (h : UniqueActive t) (hc : RecordChange t t') : UniqueActive t' := by
  -- a row that is active afterwards was active before, or its fingerprint was unclaimed
  cases hc with
  | write i m m' hw hs =>
    have hnew : m'.status = .active → ∀ (j : ℕ) (x : DurableMemoryRow), t[j]? = some x →
        x.status = .active → m'.fingerprint = x.fingerprint → i = j := by
      intro ha j x hx hxa hfx
      cases hs with
      | retire _ hr => rw [hr] at ha; cases ha
      | restore _ _ hp _ _ hu => exact (hu j x hx hxa (hfx.symm.trans hp.fingerprint)).symm
      | reword content hst _ _ _ hf _ _ hu => exact (hu j x hx hxa (hfx.symm.trans hf)).symm
      | supersede k _ hr => rw [hr] at ha; cases ha
      | point k _ hna hst => exact absurd (hst ▸ ha) hna
    intro a b x y hx hy hxa hya hf
    rcases hw.cases hx with ⟨rfl,rfl⟩ | ⟨hax,hx⟩
    · rcases hw.cases hy with ⟨rfl,rfl⟩ | ⟨_,hy⟩
      · rfl
      · exact hnew hxa b y hy hya hf
    · rcases hw.cases hy with ⟨rfl,rfl⟩ | ⟨_,hy⟩
      · exact (hnew hya a x hx hxa hf.symm).symm
      · exact h a b x y hx hy hxa hya hf
  | insert m ht hi =>
    subst ht
    have hnew : m.status = .active → ∀ (j : ℕ) (x : DurableMemoryRow), t[j]? = some x →
        x.status = .active → m.fingerprint ≠ x.fingerprint := by
      intro ha j x hx hxa hfx
      cases hi with
      | created content _ _ hf _ _ _ hu =>
        have := hu j x hx hxa (hfx.symm.trans hf)
        rw [this,List.getElem?_eq_none le_rfl] at hx
        cases hx
      | lifecycle content hs => rcases hs with hs | hs <;> (rw [hs] at ha; cases ha)
      | historical content target hs => rw [hs] at ha; cases ha
      | tombstone he => rw [he.status] at ha; cases ha
    intro a b x y hx hy hxa hya hf
    rw [getElem?_insert] at hx hy
    split at hx <;> split at hy
    · omega
    · cases hx
      exact absurd hf (hnew hxa b y hy hya)
    · cases hy
      exact absurd hf.symm (hnew hya a x hx hxa)
    · exact h a b x y hx hy hxa hya hf
  | sweep hl hr =>
    have hback : ∀ {j : ℕ} {x : DurableMemoryRow}, t'[j]? = some x → x.status = .active →
        ∃ y, t[j]? = some y ∧ y.status = .active ∧ y.fingerprint = x.fingerprint := by
      intro j x hx hxa
      obtain ⟨y,hy⟩ := sweep_source hl hx
      rcases hr j y x hy hx with ht | ⟨_,he,_⟩
      · exact ⟨y,hy,ht.status ▸ hxa,ht.fingerprint.symm⟩
      · rw [he.status] at hxa
        cases hxa
    intro a b x y hx hy hxa hya hf
    obtain ⟨x₀,hx₀,hxa₀,hxf⟩ := hback hx hxa
    obtain ⟨y₀,hy₀,hya₀,hyf⟩ := hback hy hya
    exact h a b x₀ y₀ hx₀ hy₀ hxa₀ hya₀ (hxf.trans (hf.trans hyf.symm))

theorem Suppressed.change (h : Suppressed t) (hc : RecordChange t t') : Suppressed t' := by
  intro j x hx hr
  cases hc with
  | write i m m' hw hs =>
    rcases hw.cases hx with ⟨rfl,rfl⟩ | ⟨_,hx⟩
    · cases hs with
      | retire _ _ _ hsup => exact hsup
      | restore _ ha => rw [ha] at hr; cases hr
      | reword content hst _ _ _ _ hsup => exact hsup.trans (h _ m hw.before (hst ▸ hr))
      | supersede k _ ha => rw [ha] at hr; cases hr
      | point k _ _ hst _ hsup => exact hsup.trans (h _ m hw.before (hst ▸ hr))
    · exact h j x hx hr
  | insert m ht hi =>
    subst ht
    rw [getElem?_insert] at hx
    split at hx
    · cases hx
      cases hi with
      | created content ha => rw [ha] at hr; cases hr
      | lifecycle content _ _ _ hsup => exact hsup
      | historical content target _ _ _ hsup => exact hsup
      | tombstone he => rw [he.status] at hr; cases hr
    · exact h j x hx hr
  | sweep hl hrows =>
    obtain ⟨y,hy⟩ := sweep_source hl hx
    rcases hrows j y x hy hx with ht | ⟨_,he,_⟩
    · exact ht.suppresses.trans (h j y hy (ht.status ▸ hr))
    · rw [he.status] at hr
      cases hr

theorem RowShift.recalled {i : ℕ} {m m' : DurableMemoryRow} (hs : RowShift t i m m')
    (h : m.status = .active → m.suppressesRecall = false) (ha : m'.status = .active) :
    m'.suppressesRecall = false := by
  cases hs with
  | retire _ hr => rw [hr] at ha; cases ha
  | restore _ _ _ hsup => exact hsup
  | reword content hst _ _ _ _ hsup => exact hsup.trans (h (hst ▸ ha))
  | supersede k _ hr => rw [hr] at ha; cases ha
  | point k _ hna hst => exact absurd (hst ▸ ha) hna

theorem RowShift.erased {i : ℕ} {m m' : DurableMemoryRow} (hs : RowShift t i m m')
    (h : m.status = .deleted → Erased m) (hd : m'.status = .deleted) : Erased m' := by
  cases hs with
  | retire _ hr => rw [hr] at hd; cases hd
  | restore _ hr => rw [hr] at hd; cases hd
  | reword content hst _ hc => exact absurd (h (hst ▸ hd)).content hc
  | supersede k _ hr => rw [hr] at hd; cases hd
  | point k _ _ hst hp _ hat hop =>
    have he := h (hst ▸ hd)
    exact ⟨hd,hp.content.trans he.content,hp.fingerprint.trans he.fingerprint,by
      have := hp.embedded
      rw [he.embedded] at this
      simpa using this,hat ▸ he.deletedAt,hop ▸ he.deletion⟩

theorem RowShift.payload {i : ℕ} {m m' : DurableMemoryRow} (hs : RowShift t i m m')
    (h : m.status ≠ .deleted → ∃ content, m.content = some content ∧
      m.fingerprint = some (memoryFingerprint content)) (hd : m'.status ≠ .deleted) :
    ∃ content, m'.content = some content ∧ m'.fingerprint = some (memoryFingerprint content) := by
  have hkept : m.status ≠ .deleted → DurableMemoryRow.SamePayload m m' → ∃ content,
      m'.content = some content ∧ m'.fingerprint = some (memoryFingerprint content) := by
    intro hm hp
    obtain ⟨content,hc,hf⟩ := h hm
    exact ⟨content,hp.content.trans hc,hp.fingerprint.trans hf⟩
  cases hs with
  | retire ha _ hp => exact hkept (by rw [ha]; nofun) hp
  | restore hr _ hp => exact hkept (by rw [hr]; nofun) hp
  | reword content _ _ _ hc hf => exact ⟨content,hc,hf⟩
  | supersede k ha _ hp => exact hkept (by rw [ha]; nofun) hp
  | point k _ _ hst hp => exact hkept (hst ▸ hd) hp

theorem Shaped.change (h : Shaped t) (hc : RecordChange t t') : Shaped t' := by
  cases hc with
  | write i m m' hw hs =>
    constructor
    · intro j x hx
      rcases hw.cases hx with ⟨rfl,rfl⟩ | ⟨_,hx⟩
      · exact hs.recalled (h.recalled _ m hw.before)
      · exact h.recalled j x hx
    · intro j x hx
      rcases hw.cases hx with ⟨rfl,rfl⟩ | ⟨_,hx⟩
      · exact hs.erased (h.erased _ m hw.before)
      · exact h.erased j x hx
    · intro j x hx
      rcases hw.cases hx with ⟨rfl,rfl⟩ | ⟨_,hx⟩
      · exact hs.payload (h.payload _ m hw.before)
      · exact h.payload j x hx
  | insert m ht hi =>
    subst ht
    constructor
    · intro j x hx ha
      rw [getElem?_insert] at hx
      split at hx
      · cases hx
        cases hi with
        | created content _ _ _ hsup => exact hsup
        | lifecycle content hs => rcases hs with hs | hs <;> (rw [hs] at ha; cases ha)
        | historical content target hs => rw [hs] at ha; cases ha
        | tombstone he => rw [he.status] at ha; cases ha
      · exact h.recalled j x hx ha
    · intro j x hx hd
      rw [getElem?_insert] at hx
      split at hx
      · cases hx
        cases hi with
        | created content hs => rw [hs] at hd; cases hd
        | lifecycle content hs => rcases hs with hs | hs <;> (rw [hs] at hd; cases hd)
        | historical content target hs => rw [hs] at hd; cases hd
        | tombstone he => exact he
      · exact h.erased j x hx hd
    · intro j x hx hd
      rw [getElem?_insert] at hx
      split at hx
      · cases hx
        cases hi with
        | created content _ hcontent hf => exact ⟨content,hcontent,hf⟩
        | lifecycle content _ hcontent hf => exact ⟨content,hcontent,hf⟩
        | historical content target _ hcontent hf => exact ⟨content,hcontent,hf⟩
        | tombstone he => exact absurd he.status hd
      · exact h.payload j x hx hd
  | sweep hl hrows =>
    constructor
    · intro j x hx ha
      obtain ⟨y,hy⟩ := sweep_source hl hx
      rcases hrows j y x hy hx with ht | ⟨_,he,_⟩
      · exact ht.suppresses.trans (h.recalled j y hy (ht.status ▸ ha))
      · rw [he.status] at ha
        cases ha
    · intro j x hx hd
      obtain ⟨y,hy⟩ := sweep_source hl hx
      rcases hrows j y x hy hx with ht | ⟨_,he,_⟩
      · have he := h.erased j y hy (ht.status ▸ hd)
        exact ⟨hd,ht.content.trans he.content,ht.fingerprint.trans he.fingerprint,by
          have := ht.embedded
          rw [he.embedded] at this
          simpa using this,ht.deletedAt ▸ he.deletedAt,ht.deletion ▸ he.deletion⟩
      · exact he
    · intro j x hx hd
      obtain ⟨y,hy⟩ := sweep_source hl hx
      rcases hrows j y x hy hx with ht | ⟨_,he,_⟩
      · obtain ⟨content,hcontent,hf⟩ := h.payload j y hy (ht.status ▸ hd)
        exact ⟨content,ht.content.trans hcontent,ht.fingerprint.trans hf⟩
      · exact absurd he.status hd

omit [PyRuntime] in
theorem supersededBy_eq {i : ℕ} {m : DurableMemoryRow} (h : t[i]? = some m) :
    supersededBy t i = some m.supersededById := by
  rw [supersededBy,h]
  rfl

omit [PyRuntime] in
theorem Unsuperseded.root {j : ℕ} (h : Unsuperseded t j) : supersededBy t j = some none := by
  obtain ⟨r,hr,hn⟩ := h
  rw [supersededBy_eq hr,hn]

/-- The pointer of the written row is as before, or set to a row without one. -/
theorem RowShift.pointer {i : ℕ} {m m' : DurableMemoryRow} (hs : RowShift t i m m') :
    m'.supersededById = m.supersededById ∨
      ∃ j, m'.supersededById = some j ∧ j ≠ i ∧ Unsuperseded t j := by
  cases hs with
  | retire _ _ _ _ hp => exact Or.inl hp
  | restore _ _ _ _ hp => exact Or.inl hp
  | reword content _ _ _ _ _ _ hp => exact Or.inl hp
  | supersede j _ _ _ _ hp hne hu => exact Or.inr ⟨j,hp,hne,hu⟩
  | point j _ _ _ _ _ _ _ hp hne hu => exact Or.inr ⟨j,hp,hne,hu⟩

omit [PyRuntime] in
/-- Every row stays rooted when no pointer changes. -/
theorem rooted_of_same (h : ∀ i, i < t.length → Pointers.Rooted (supersededBy t) i)
    (hl : t'.length = t.length) (hp : ∀ i, supersededBy t' i = supersededBy t i) :
    ∀ i, i < t'.length → Pointers.Rooted (supersededBy t') i :=
  fun i hi => (h i (hl ▸ hi)).extend fun a _ => hp a

theorem Forest.change (h : Forest t) (hc : RecordChange t t') : Forest t' := by
  cases hc with
  | write i m m' hw hs =>
    refine ⟨?_,?_,?_⟩
    · rcases hs.pointer with hp | ⟨j,hp,hne,hu⟩
      · refine rooted_of_same h.rooted (hw.length) fun a => ?_
        by_cases ha : a = i
        · subst ha
          rw [supersededBy_eq hw.after,supersededBy_eq hw.before,hp]
        · rw [supersededBy,supersededBy,hw.others a ha]
      · have hj : supersededBy t' j = some none := by
          rw [supersededBy,hw.others j hne]
          exact hu.root
        have hi : supersededBy t' i = some (some j) := by
          rw [supersededBy_eq hw.after,hp]
        refine fun a ha => (h.rooted a (hw.length ▸ ha)).redirect (fun b hb => ?_) hi hj
        rw [supersededBy,supersededBy,hw.others b hb]
    · intro j x hx hk
      rcases hw.cases hx with ⟨rfl,rfl⟩ | ⟨_,hx⟩
      · cases hs with
        | retire ha _ hp =>
          have := h.guards _ m hw.before (hp.kind ▸ hk)
          rw [ha] at this
          simp at this
        | restore ha _ hp =>
          have := h.guards _ m hw.before (hp.kind ▸ hk)
          rw [ha] at this
          simp at this
        | reword content hst hkind => exact hst ▸ h.guards _ m hw.before (hkind ▸ hk)
        | supersede k _ hr => exact Or.inl hr
        | point k _ _ hst hp => exact hst ▸ h.guards _ m hw.before (hp.kind ▸ hk)
      · exact h.guards j x hx hk
    · intro j x hx hn
      rcases hw.cases hx with ⟨rfl,rfl⟩ | ⟨_,hx⟩
      · cases hs with
        | retire ha _ _ _ hp =>
          have := h.ended _ m hw.before (hp ▸ hn)
          rw [ha] at this
          simp at this
        | restore ha _ _ _ hp =>
          have := h.ended _ m hw.before (hp ▸ hn)
          rw [ha] at this
          simp at this
        | reword content hst _ _ _ _ _ hp => exact hst ▸ h.ended _ m hw.before (hp ▸ hn)
        | supersede k _ hr => exact Or.inl hr
        | point k hk _ hst => exact hst ▸ h.guards _ m hw.before hk
      · exact h.ended j x hx hn
  | insert m ht hi =>
    subst ht
    have hold : ∀ a, (supersededBy t a).isSome = true → supersededBy (t ++ [m]) a = supersededBy t a := by
      intro a ha
      rw [supersededBy,Option.isSome_map] at ha
      obtain ⟨r,hr⟩ := Option.isSome_iff_exists.mp ha
      rw [supersededBy_eq hr,supersededBy_eq (getElem?_insert_of_some hr)]
    have hnew : supersededBy (t ++ [m]) t.length = some m.supersededById :=
      supersededBy_eq List.getElem?_concat_length
    refine ⟨fun a ha => ?_,?_,?_⟩
    · rw [List.length_append,List.length_singleton] at ha
      rcases Nat.lt_succ_iff_lt_or_eq.mp ha with ha | rfl
      · exact (h.rooted a ha).extend hold
      · have hroot : m.supersededById = none → Pointers.Rooted (supersededBy (t ++ [m])) t.length :=
          fun hn => .root (hnew.trans (congrArg some hn))
        cases hi with
        | created content _ _ _ _ hp => exact hroot hp
        | lifecycle content _ _ _ _ hp => exact hroot hp
        | historical content target _ _ _ _ hp hlt =>
          exact .link (hnew.trans (congrArg some hp)) ((h.rooted target hlt).extend hold)
        | tombstone _ hp => exact hroot hp
    · intro j x hx hk
      rw [getElem?_insert] at hx
      split at hx
      · cases hx
        cases hi with
        | created content _ _ _ _ _ hkind => exact absurd hk hkind
        | lifecycle content _ _ _ _ _ hkind => exact Or.inl (hkind hk)
        | historical content target hs => exact Or.inl hs
        | tombstone he => exact Or.inr he.status
      · exact h.guards j x hx hk
    · intro j x hx hn
      rw [getElem?_insert] at hx
      split at hx
      · cases hx
        cases hi with
        | created content _ _ _ _ hp => exact absurd hp hn
        | lifecycle content _ _ _ _ hp => exact absurd hp hn
        | historical content target hs => exact Or.inl hs
        | tombstone he => exact Or.inr he.status
      · exact h.ended j x hx hn
  | sweep hl hrows =>
    refine ⟨rooted_of_same h.rooted hl fun a => ?_,?_,?_⟩
    · cases ha : t[a]? with
      | none =>
        rw [supersededBy,supersededBy,ha,List.getElem?_eq_none (by
          rw [hl]
          exact List.getElem?_eq_none_iff.mp ha)]
      | some m =>
        have hlt : a < t'.length := hl ▸ (List.getElem?_eq_some_iff.mp ha).1
        have ha' := List.getElem?_eq_getElem hlt
        rw [supersededBy_eq ha,supersededBy_eq ha']
        rcases hrows a m _ ha ha' with ht | ⟨_,_,_,hp⟩
        · exact congrArg some ht.superseded
        · exact congrArg some hp
    · intro j x hx hk
      obtain ⟨y,hy⟩ := sweep_source hl hx
      rcases hrows j y x hy hx with ht | ⟨_,he,_⟩
      · exact ht.status ▸ h.guards j y hy (ht.kind ▸ hk)
      · exact Or.inr he.status
    · intro j x hx hn
      obtain ⟨y,hy⟩ := sweep_source hl hx
      rcases hrows j y x hy hx with ht | ⟨_,he,_⟩
      · exact ht.status ▸ h.ended j y hy (ht.superseded ▸ hn)
      · exact Or.inr he.status

/-- Row writes, none of which erases a row unless it may. -/
abbrev RowWrites (erases : Prop) : List DurableMemoryRow → List DurableMemoryRow → Prop :=
  Relation.ReflTransGen (RowWrite erases)

/-- A run of row writes. -/
abbrev RecordRun : List DurableMemoryRow → List DurableMemoryRow → Prop :=
  Relation.ReflTransGen RecordChange

variable {erases : Prop}

theorem RowWrite.change (h : RowWrite erases t t') : RecordChange t t' := by
  cases h with
  | write i m m' hw hs => exact .write i m m' hw hs
  | insert m ht hi => exact .insert m ht hi
  | sweep hl hrows =>
    exact .sweep hl fun i m m' hm hm' => (hrows i m m' hm hm').imp_right fun h => ⟨trivial,h.2⟩

theorem RowWrites.run (h : RowWrites erases t t') : RecordRun t t' :=
  h.lift id fun _ _ => RowWrite.change

theorem RecordRun.invariant {I : List DurableMemoryRow → Prop}
    (hI : ∀ t t', I t → RecordChange t t' → I t') (h : RecordRun t t') (ht : I t) : I t' := by
  induction h with
  | refl => exact ht
  | tail _ hc ih => exact hI _ _ ih hc

/-- Changes of bookkeeping columns of one row. -/
theorem RowWrite.touch (i : ℕ) (f : DurableMemoryRow → DurableMemoryRow)
    (h : ∀ m, Touched m (f m)) : RowWrite erases t (t.modify i f) := by
  refine .sweep (List.length_modify ..) fun j m m' hm hm' => Or.inl ?_
  by_cases hj : i = j
  · subst hj
    rw [getElem?_modify_self,hm] at hm'
    cases hm'
    exact h m
  · rw [getElem?_modify_ne _ _ hj,hm] at hm'
    cases hm'
    exact .refl m

end

end Memory
end Atlas
