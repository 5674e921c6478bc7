import Mathlib.Data.List.Nodup
import Atlas.Transcripts.Repository

/-! At most one owner chat is open in what is committed and in what any transaction sees, and
exactly one once an operation has returned. -/
namespace Atlas
namespace Transcripts

open Memory Dialogue Shared

def Open (rows : Rows) (id : ℕ) : Prop := (rows id).any isOpen = true

def AtMostOne (rows : Rows) : Prop := ∀ a b, Open rows a → Open rows b → a = b

def ExactlyOne (rows : Rows) : Prop := ∃! id, Open rows id

theorem open_iff {rows : Rows} {id : ℕ} :
    Open rows id ↔ ∃ row, rows id = some row ∧ isOpen row = true := by
  cases h : rows id with
  | none => simp [Open,h]
  | some row => simp [Open,h]

theorem ExactlyOne.of_open {rows : Rows} {id : ℕ} (h : AtMostOne rows) (ho : Open rows id) :
    ExactlyOne rows := ⟨id,ho,fun b hb => h b id hb ho⟩

theorem ExactlyOne.atMostOne {rows : Rows} (h : ExactlyOne rows) : AtMostOne rows :=
  fun _ _ ha hb => h.unique ha hb

namespace Rows

variable {rows : Rows} {n : ℕ}

theorem mem_openIds {id : ℕ} : id ∈ rows.openIds n ↔ id < n ∧ Open rows id := by
  simp [openIds,Open,List.mem_filter]

/-- A single open chat is counted as one. -/
theorem length_openIds (h : ExactlyOne rows) (hfresh : ∀ id, n ≤ id → rows id = none) :
    (rows.openIds n).length = 1 := by
  rcases h with ⟨a,ha,hall⟩
  have hlt : a < n := by
    by_contra hge
    rw [Open,hfresh a (by omega)] at ha
    cases ha
  have hnodup : (rows.openIds n).Nodup := List.nodup_range.filter _
  have hrep : rows.openIds n = List.replicate (rows.openIds n).length a :=
    List.eq_replicate_of_mem fun b hb => hall b (mem_openIds.mp hb).2
  have hle : (rows.openIds n).length ≤ 1 := by
    rw [hrep] at hnodup
    exact List.nodup_replicate.mp hnodup
  have hpos := List.length_pos_of_mem (mem_openIds.mpr ⟨hlt,ha⟩)
  omega

variable {after : TranscriptRow → TranscriptRow → Bool} {p : TranscriptRow → Bool}

theorem newest_some {found : Transcript} (h : newest after p rows n = some found) :
    rows found.1 = some found.2 ∧ p found.2 = true := by
  induction n with
  | zero => cases h
  | succ n ih =>
    simp only [newest] at h
    split at h
    · exact ih h
    · next row hrow hnone =>
      cases h
      exact Option.filter_eq_some_iff.mp hrow
    · next row best hrow hbest =>
      split at h
      · cases h
        exact ih hbest
      · cases h
        exact Option.filter_eq_some_iff.mp hrow

theorem newest_none (h : newest after p rows n = none) {id : ℕ} (hid : id < n) :
    (rows id).filter p = none := by
  induction n with
  | zero => omega
  | succ n ih =>
    simp only [newest] at h
    split at h
    · next hnone =>
      rcases Nat.lt_succ_iff_lt_or_eq.mp hid with hlt | rfl
      · exact ih h hlt
      · exact hnone
    · cases h
    · split at h <;> cases h

end Rows

/-- Only the transaction with the advisory lock has written or locked a row. -/
structure Consistent (d : Database) : Prop where
  single : AtMostOne d.rows
  views : ∀ i, AtMostOne (d.view i)
  quiet : ∀ i, d.advisory ≠ some i → (d.pending i).writes = fun _ => none
  locks : ∀ id i, d.locked id = some i → d.advisory = some i
  fresh : ∀ id, d.issued ≤ id → d.rows id = none ∧ ∀ i, (d.pending i).writes id = none
  returns : ∀ n ∈ d.returns, n = 1
  commits : 0 < d.commits → ExactlyOne d.rows

/-- What the steps of one transaction leave to the others. -/
structure Apart (i : ℕ) (d d' : Database) : Prop where
  pending : ∀ j, j ≠ i → d'.pending j = d.pending j
  rows : ∀ j, j ≠ i → d.advisory = some j → d'.rows = d.rows ∧ d'.advisory = some j
  kept : ExactlyOne d.rows → ExactlyOne d'.rows

def contract : Contract Database Statement where
  inv := Consistent
  does := Apart
  may := fun _ _ _ => True

theorem Apart.refl (i : ℕ) (d : Database) : Apart i d d :=
  ⟨fun _ _ => rfl,fun _ _ ha => ⟨rfl,ha⟩,id⟩

section

variable {d d' : Database} {i : ℕ}

theorem Consistent.view_quiet (h : Consistent d) (ha : d.advisory ≠ some i) :
    d.view i = d.rows := by
  funext id
  simp only [Database.view,h.quiet i ha,Option.none_or]

theorem Consistent.view_fresh (h : Consistent d) {id : ℕ} (hid : d.issued ≤ id) :
    d.view i id = none := by
  simp only [Database.view,(h.fresh id hid).1,(h.fresh id hid).2 i,Option.or_none]

theorem Consistent.not_held (h : Consistent d) (ha : d.advisory = some i) (id : ℕ) :
    d.held i id = false := by
  cases hl : d.locked id with
  | none => simp [Database.held,hl]
  | some j =>
    have := h.locks id j hl
    rw [ha] at this
    cases this
    simp [Database.held,hl]

theorem view_write (id : ℕ) (row : TranscriptRow) :
    (d.write i id row).view i = Function.update (d.view i) id (some row) := by
  funext k
  by_cases hk : k = id
  · simp [Database.view,Database.write,Database.note,Database.lockRow,hk]
  · simp [Database.view,Database.write,Database.note,Database.lockRow,hk]

theorem view_note_others (p : Pending) {j : ℕ} (hj : j ≠ i) :
    (d.note i p).view j = d.view j := by
  funext id
  simp [Database.view,Database.note,hj]

theorem apart_note (p : Pending) : Apart i d (d.note i p) :=
  ⟨fun _ hj => Function.update_of_ne hj _ _,fun _ _ ha => ⟨rfl,ha⟩,id⟩

/-- The transaction with the lock writes rows: the other ones see what they saw. -/
theorem Consistent.writes (h : Consistent d) (ha : d.advisory = some i) {p : Pending}
    {locked : ℕ → Option ℕ} {issued : ℕ} (hissued : d.issued ≤ issued)
    (hfresh : ∀ id, issued ≤ id → p.writes id = none)
    (hlocked : ∀ id, locked id = some i ∨ locked id = d.locked id)
    (hone : AtMostOne fun id => (p.writes id).or (d.rows id)) :
    Consistent {d.note i p with locked := locked, issued := issued} := by
  refine ⟨h.single,fun j => ?_,fun j hj => ?_,fun id j hl => ?_,fun id hid => ⟨?_,fun j => ?_⟩,
    h.returns,h.commits⟩
  · by_cases hj : j = i
    · have hself : Database.view {d.note i p with locked := locked, issued := issued} i =
          fun id => (p.writes id).or (d.rows id) := by
        funext id
        simp [Database.view,Database.note]
      rw [hj,hself]
      exact hone
    · have hview : Database.view {d.note i p with locked := locked, issued := issued} j =
          d.view j := view_note_others (d := d) p hj
      rw [hview]
      exact h.views j
  · have hne : j ≠ i := by
      rintro rfl
      exact hj ha
    simp only [Database.note,Function.update_of_ne hne]
    exact h.quiet j hj
  · rcases hlocked id with hi | hold
    · simp only [hi,Option.some.injEq] at hl
      rw [← hl]
      exact ha
    · simp only [hold] at hl
      exact h.locks id j hl
  · exact (h.fresh id (hissued.trans hid)).1
  · by_cases hj : j = i
    · subst hj
      simpa [Database.note] using hfresh id hid
    · simp only [Database.note,Function.update_of_ne hj]
      exact (h.fresh id (hissued.trans hid)).2 j

theorem Apart.writes (p : Pending) (locked : ℕ → Option ℕ) (issued : ℕ) :
    Apart i d {d.note i p with locked := locked, issued := issued} :=
  ⟨fun _ hj => Function.update_of_ne hj _ _,fun _ _ hj => ⟨rfl,hj⟩,id⟩

end

/-- A transaction holds the lock, and knows something about what it sees. -/
def Holding (i : ℕ) (R : Rows → Prop) (d : Database) : Prop :=
  d.advisory = some i ∧ R (d.view i)

section

variable {d : Database} {i : ℕ} {R : Rows → Prop}

/-- What a transaction with the lock sees is changed by nobody else. -/
theorem holding_lasting (R : Rows → Prop) : shared.Lasting contract i (Holding i R) := by
  rintro d d' ⟨-,-,⟨⟨clock⟩,rfl⟩ | ⟨j,hj,hd⟩⟩ ⟨ha,hR⟩
  · exact ⟨ha,hR⟩
  · have hrows := hd.rows i hj.symm ha
    have hview : d'.view i = d.view i := by
      funext id
      simp only [Database.view,hd.pending i hj.symm,hrows.1]
    exact ⟨hrows.2,by rw [hview]; exact hR⟩

/-- The others may select another chat, but they leave exactly one open. -/
theorem exact_lasting : shared.Lasting contract i fun d => ExactlyOne (d.view i) := by
  rintro d d' ⟨hi,hi',⟨⟨clock⟩,rfl⟩ | ⟨j,hj,hd⟩⟩ hone
  · exact hone
  · by_cases ha : d.advisory = some i
    · exact (holding_lasting ExactlyOne d d' ⟨hi,hi',Or.inr ⟨j,hj,hd⟩⟩ ⟨ha,hone⟩).2
    · have hview : d'.view i = d'.rows := by
        funext id
        simp only [Database.view,hd.pending i hj.symm,hi.quiet i ha,Option.none_or]
      rw [hi.view_quiet ha] at hone
      rw [hview]
      exact hd.kept hone

variable {α : Type} {Post : Except Failure α → Database → Prop} {s : Database}

theorem advisoryLock_honours {k : Unit → Transaction α}
    (h : ∀ t, Holding i (fun _ => True) t → shared.Honours contract i Post (k ()) t) :
    shared.Honours contract i Post (.ask .advisoryLock k) s := by
  refine Honours.ask lasting_true trivial fun t _ hi _ r u hu => ?_
  simp only [shared,Database.answer] at hu
  split at hu
  · next j ha =>
    by_cases hj : j = i
    · rw [if_pos hj] at hu
      cases hu
      exact ⟨hi,.refl i t,h t ⟨by rw [ha,hj],trivial⟩⟩
    · rw [if_neg hj] at hu
      cases hu
  · next ha =>
    cases hu
    have hquiet : ∀ j, (t.pending j).writes = fun _ => none :=
      fun j => hi.quiet j (by rw [ha]; exact fun h => by cases h)
    refine ⟨⟨hi.single,hi.views,fun j _ => hquiet j,fun id j hl => ?_,hi.fresh,hi.returns,
      hi.commits⟩,⟨fun _ _ => rfl,fun j _ hj => ?_,id⟩,h _ ⟨rfl,trivial⟩⟩
    · have := hi.locks id j hl
      rw [ha] at this
      cases this
    · rw [ha] at hj
      cases hj

/-- A statement by which a transaction with the lock at most locks rows. -/
theorem look_honours {q : Statement} {k : q.Answer → Transaction α} (hs : Holding i R s)
    (hq : ∀ (t : Database) r u, t.answer i q = some (r,u) →
      u = t ∨ ∃ id, u = t.lockRow i id)
    (h : ∀ t, Consistent t → Holding i R t → ∀ r u, t.answer i q = some (r,u) →
      ∀ v, Holding i (· = t.view i) v → shared.Honours contract i Post (k r) v) :
    shared.Honours contract i Post (.ask q k) s := by
  refine Honours.ask (holding_lasting R) hs fun t ht hi _ r u hu => ?_
  have hk := h t hi ht r u hu u
  rcases hq t r u hu with rfl | ⟨id,rfl⟩
  · exact ⟨hi,.refl i _,hk ⟨ht.1,rfl⟩⟩
  · refine ⟨⟨hi.single,hi.views,hi.quiet,fun k j hl => ?_,hi.fresh,hi.returns,hi.commits⟩,
      ⟨fun _ _ => rfl,fun _ _ ha => ⟨rfl,ha⟩,fun h => h⟩,hk ⟨ht.1,rfl⟩⟩
    by_cases hkid : k = id
    · simp only [Database.lockRow,hkid,Function.update_self,Option.some.injEq] at hl
      rw [← hl]
      exact ht.1
    · simp only [Database.lockRow,Function.update_of_ne hkid] at hl
      exact hi.locks k j hl

/-- A statement by which a transaction with the lock changes what it sees. -/
theorem write_honours {q : Statement} {k : q.Answer → Transaction α} (hs : Holding i R s)
    (h : ∀ t, Consistent t → Holding i R t → ∀ r u, t.answer i q = some (r,u) →
      ∃ (p : Pending) (locked : ℕ → Option ℕ) (issued : ℕ),
        u = {t.note i p with locked := locked, issued := issued} ∧ t.issued ≤ issued ∧
        (∀ id, issued ≤ id → p.writes id = none) ∧
        (∀ id, locked id = some i ∨ locked id = t.locked id) ∧
        (AtMostOne fun id => (p.writes id).or (t.rows id)) ∧
        ∀ v : Database, Holding i (· = fun id => (p.writes id).or (t.rows id)) v →
          shared.Honours contract i Post (k r) v) :
    shared.Honours contract i Post (.ask q k) s := by
  refine Honours.ask (holding_lasting R) hs fun t ht hi _ r u hu => ?_
  rcases h t hi ht r u hu with ⟨p,locked,issued,rfl,hle,hfresh,hlocked,hone,hk⟩
  refine ⟨hi.writes ht.1 hle hfresh hlocked hone,.writes _ _ _,hk _ ⟨ht.1,?_⟩⟩
  funext id
  simp [Database.view,Database.note]

/-- A row is written by the transaction with the lock. -/
theorem writeRow_honours {q : Statement} {k : q.Answer → Transaction α} (hs : Holding i R s)
    (h : ∀ t, Consistent t → Holding i R t → ∀ r u, t.answer i q = some (r,u) →
      ∃ id row issued, u = {t.write i id row with issued := issued} ∧ t.issued ≤ issued ∧
        id < issued ∧ AtMostOne (Function.update (t.view i) id (some row)) ∧
        ∀ v, Holding i (· = Function.update (t.view i) id (some row)) v →
          shared.Honours contract i Post (k r) v) :
    shared.Honours contract i Post (.ask q k) s := by
  refine write_honours hs fun t hi ht r u hu => ?_
  rcases h t hi ht r u hu with ⟨id,row,issued,hwrite,hle,hid,hone,hk⟩
  have hview : (fun k => (Function.update (t.pending i).writes id (some row) k).or (t.rows k)) =
      Function.update (t.view i) id (some row) := by
    funext k
    by_cases hkid : k = id
    · simp [hkid]
    · simp [hkid,Database.view]
  refine ⟨_,_,issued,hwrite,hle,fun k hk => ?_,fun k => ?_,?_,?_⟩
  · have hne : k ≠ id := by omega
    exact (Function.update_of_ne hne _ _).trans ((hi.fresh k (hle.trans hk)).2 i)
  · by_cases hkid : k = id
    · left
      rw [hkid]
      exact Function.update_self ..
    · right
      exact Function.update_of_ne hkid _ _
  · rw [hview]
    exact hone
  · rw [hview]
    exact hk

theorem findActive_honours {k : Option Transcript → Transaction α} (hs : Holding i R s)
    (hsome : ∀ found t, ExactlyOne (t.view i) → shared.Honours contract i Post (k (some found)) t)
    (hnone : ∀ t, Holding i (fun v => ∀ id, ¬Open v id) t →
      shared.Honours contract i Post (k none) t) :
    shared.Honours contract i Post (.ask .findActive k) s := by
  refine look_honours hs (fun t r u hu => ?_) fun t hi _ r u hu v hv => ?_
  · cases hu
    exact Or.inl rfl
  · simp only [Database.answer,Option.some.injEq,Prod.mk.injEq] at hu
    rcases hu with ⟨rfl,-⟩
    cases hf : (t.view i).newest createdAfter isOpen t.issued with
    | some found =>
      have hrow := Rows.newest_some hf
      refine hsome found v ?_
      rw [hv.2]
      exact .of_open (hi.views i) (open_iff.mpr ⟨found.2,hrow⟩)
    | none =>
      refine hnone v ⟨hv.1,?_⟩
      rw [hv.2]
      intro id ho
      rcases open_iff.mp ho with ⟨row,hrow,hopen⟩
      have hid : id < t.issued := by
        by_contra hge
        rw [hi.view_fresh (by omega)] at hrow
        cases hrow
      have hfilter := Rows.newest_none hf hid
      rw [hrow,Option.filter_some,if_pos hopen] at hfilter
      cases hfilter

/-- An open chat that is seen without the lock is the only one. -/
theorem firstLook_honours {k : Option Transcript → Transaction α}
    (hsome : ∀ found t, ExactlyOne (t.view i) → shared.Honours contract i Post (k (some found)) t)
    (hnone : ∀ t, shared.Honours contract i Post (k none) t) :
    shared.Honours contract i Post (.ask .findActive k) s := by
  refine Honours.ask lasting_true trivial fun t _ hi _ r u hu => ?_
  simp only [shared,Database.answer,Option.some.injEq,Prod.mk.injEq] at hu
  rcases hu with ⟨rfl,rfl⟩
  refine ⟨hi,.refl i t,?_⟩
  cases hf : (t.view i).newest createdAfter isOpen t.issued with
  | some found =>
    have hrow := Rows.newest_some hf
    exact hsome found t (.of_open (hi.views i) (open_iff.mpr ⟨found.2,hrow⟩))
  | none => exact hnone t

theorem closeOthers_honours {k : Unit → Transaction α} (kept : Option ℕ) (hs : Holding i R s)
    (h : ∀ t, Holding i (fun v => (∀ id, Open v id → kept = some id) ∧
        ∀ id, kept = some id → ∃ v', R v' ∧ v id = v' id) t →
      shared.Honours contract i Post (k ()) t) :
    shared.Honours contract i Post (.ask (.closeOthers kept) k) s := by
  refine write_honours hs fun t hi ht r u hu => ?_
  simp only [Database.answer] at hu
  split at hu
  · cases hu
  · cases hu
    have hview : (fun id => (t.closedRow i kept id).or (t.rows id)) = fun id =>
        if t.closes i kept id then
          (t.view i id).map fun row => {row with closedAt := some (t.pending i).started}
        else t.view i id := by
      funext id
      by_cases hc : t.closes i kept id = true
      · have hopen : Open (t.view i) id := (Bool.and_eq_true_iff.mp hc).1
        rcases open_iff.mp hopen with ⟨row,hrow,-⟩
        simp [Database.closedRow,hc,hrow]
      · simp [Database.closedRow,hc,Database.view]
    have hkept : ∀ id, Open (fun id => (t.closedRow i kept id).or (t.rows id)) id →
        kept = some id := by
      intro id ho
      rw [hview] at ho
      by_contra hne
      by_cases hc : t.closes i kept id = true
      · simp [Open,hc,isOpen,Option.any_map] at ho
      · have hno : ¬(t.view i id).any isOpen = true := fun hopen =>
          hc (Bool.and_eq_true_iff.mpr ⟨hopen,by simpa using hne⟩)
        simp only [Open,hc,Bool.false_eq_true,if_false] at ho
        exact hno ho
    refine ⟨_,_,t.issued,rfl,le_refl _,fun id hid => ?_,fun id => ?_,fun a b ha hb => ?_,
      fun v hv => h v ⟨hv.1,?_⟩⟩
    · simp [Database.closedRow,hi.view_fresh hid,(hi.fresh id hid).2 i]
    · by_cases hc : t.closes i kept id = true
      · exact Or.inl (if_pos hc)
      · exact Or.inr (if_neg hc)
    · exact Option.some.inj ((hkept a ha).symm.trans (hkept b hb))
    · rw [hv.2]
      refine ⟨hkept,fun id hid => ⟨t.view i,ht.2,?_⟩⟩
      rw [hview]
      simp [Database.closes,hid]

/-- With no owner chat open, the unique index accepts one. -/
theorem insert_honours {row : TranscriptRow} {k : Option Transcript → Transaction α}
    (hrow : isOpen row = true) (hs : Holding i (fun v => ∀ id, ¬Open v id) s)
    (h : ∀ found t, ExactlyOne (t.view i) → shared.Honours contract i Post (k (some found)) t) :
    shared.Honours contract i Post (.ask (.insert row) k) s := by
  refine writeRow_honours hs fun t hi ht r u hu => ?_
  have hnil : (t.view i).openIds t.issued = [] :=
    List.eq_nil_iff_forall_not_mem.mpr fun id hid => ht.2 id (Rows.mem_openIds.mp hid).2
  have hopen : isOpen {row with
      createdAt := (t.pending i).started
      updatedAt := (t.pending i).started} = true := hrow
  have hexact : ∀ new, isOpen new = true →
      ExactlyOne (Function.update (t.view i) t.issued (some new)) := fun new hnew => by
    refine ⟨t.issued,by simp [Open,hnew],fun b hb => ?_⟩
    by_contra hne
    simp only [Open,Function.update_of_ne hne] at hb
    exact ht.2 b hb
  simp only [Database.answer,hnil,List.isEmpty_nil,Bool.not_true,Bool.and_false] at hu
  split at hu
  · cases hu
  · simp only [Bool.false_eq_true,if_false,Option.some.injEq,Prod.mk.injEq] at hu
    rcases hu with ⟨rfl,rfl⟩
    refine ⟨_,_,t.issued + 1,rfl,by omega,by omega,(hexact _ hopen).atMostOne,fun v hv => ?_⟩
    refine h _ v ?_
    rw [hv.2]
    exact hexact _ hopen

theorem selectForUpdate_honours {id : ℕ} {k : Option TranscriptRow → Transaction α}
    (hs : Holding i R s) (hnone : ∀ t, shared.Honours contract i Post (k none) t)
    (hsome : ∀ row t, Holding i (fun v => AtMostOne v ∧ v id = some row ∧ isOwner row = true) t →
      shared.Honours contract i Post (k (some row)) t) :
    shared.Honours contract i Post (.ask (.selectForUpdate id) k) s := by
  refine look_honours hs (fun t r u hu => ?_) fun t hi ht r u hu v hv => ?_
  · simp only [Database.answer] at hu
    split at hu
    · cases hu
    · split at hu
      · cases hu
        exact Or.inl rfl
      · cases hu
        exact Or.inr ⟨id,rfl⟩
  · simp only [Database.answer,hi.not_held ht.1,Bool.false_eq_true,if_false] at hu
    split at hu
    · cases hu
      exact hnone v
    · next row hrow =>
      cases hu
      have hfound := Option.filter_eq_some_iff.mp hrow
      refine hsome row v ⟨hv.1,?_⟩
      rw [hv.2]
      exact ⟨hi.views i,hfound⟩

/-- Once the open chat is a tombstone, none is open. -/
theorem tombstone_honours {id : ℕ} {now : Time} {row : TranscriptRow}
    {k : Unit → Transaction α}
    (hs : Holding i (fun v => AtMostOne v ∧ v id = some row ∧ isOwner row = true) s)
    (h : ∀ t, Holding i (fun v => row.closedAt = none → ∀ b, ¬Open v b) t →
      shared.Honours contract i Post (k ()) t) :
    shared.Honours contract i Post (.ask (.tombstone id now) k) s := by
  refine writeRow_honours hs fun t hi ht r u hu => ?_
  rcases ht with ⟨ha,hone,hrow,howner⟩
  have hid : id < t.issued := by
    by_contra hge
    rw [hi.view_fresh (by omega)] at hrow
    cases hrow
  have hclosed : ¬Open (Function.update (t.view i) id (some (tombstoned now row))) id := by
    simp [Open,isOpen,isOwner,tombstoned]
  have hother : ∀ b, Open (Function.update (t.view i) id (some (tombstoned now row))) b →
      b ≠ id ∧ Open (t.view i) b := by
    intro b hb
    have hne : b ≠ id := by
      rintro rfl
      exact hclosed hb
    simp only [Open,Function.update_of_ne hne] at hb
    exact ⟨hne,hb⟩
  simp only [Database.answer,hi.not_held ha,hrow,Bool.false_eq_true,if_false,Option.some.injEq,
    Prod.mk.injEq] at hu
  rcases hu with ⟨-,rfl⟩
  refine ⟨id,_,t.issued,rfl,le_refl _,hid,
    fun a b ha hb => hone a b (hother a ha).2 (hother b hb).2,fun v hv => h v ⟨hv.1,?_⟩⟩
  rw [hv.2]
  intro hnone b hb
  have hopen : Open (t.view i) id := open_iff.mpr ⟨row,hrow,by simp [isOpen,howner,hnone]⟩
  exact (hother b hb).1 (hone b id (hother b hb).2 hopen)

theorem eraseContent_honours {id : ℕ} {now : Time} {k : Unit → Transaction α}
    (hs : Holding i R s)
    (h : ∀ t, Holding i R t → shared.Honours contract i Post (k ()) t) :
    shared.Honours contract i Post (.ask (.eraseContent id now) k) s := by
  refine write_honours hs fun t hi ht r u hu => ?_
  cases hu
  refine ⟨_,_,_,rfl,le_refl _,fun id hid => (hi.fresh id hid).2 i,fun _ => Or.inr rfl,
    hi.views i,fun v hv => h v ⟨hv.1,?_⟩⟩
  rw [hv.2]
  exact ht.2

theorem newestForUpdate_honours {k : Option Transcript → Transaction α}
    (hs : Holding i (fun v => ∀ b, ¬Open v b) s)
    (hnone : ∀ t, Holding i (fun v => ∀ b, ¬Open v b) t →
      shared.Honours contract i Post (k none) t)
    (hsome : ∀ found t, Holding i (fun v => (∀ b, ¬Open v b) ∧
        v found.1 = some found.2 ∧ isOwner found.2 = true) t →
      shared.Honours contract i Post (k (some found)) t) :
    shared.Honours contract i Post (.ask .newestForUpdate k) s := by
  refine look_honours hs (fun t r u hu => ?_) fun t hi ht r u hu v hv => ?_
  · simp only [Database.answer] at hu
    split at hu
    · cases hu
      exact Or.inl rfl
    · next found hfound =>
      split at hu
      · cases hu
      · cases hu
        exact Or.inr ⟨found.1,rfl⟩
  · simp only [Database.answer,hi.not_held ht.1,Bool.false_eq_true,if_false] at hu
    split at hu
    · cases hu
      refine hnone v ⟨hv.1,?_⟩
      rw [hv.2]
      exact ht.2
    · next found hfound =>
      cases hu
      refine hsome found v ⟨hv.1,?_⟩
      rw [hv.2]
      exact ⟨ht.2,Rows.newest_some hfound⟩

/-- A closed owner chat can be set open when no other one is. -/
theorem reopenRow_honours {id : ℕ} {k : Option TranscriptRow → Transaction α}
    (hs : Holding i (fun v => (∀ b, Open v b → b = id) ∧
      ∃ row, v id = some row ∧ isOwner row = true) s)
    (h : ∀ row t, ExactlyOne (t.view i) → shared.Honours contract i Post (k (some row)) t) :
    shared.Honours contract i Post (.ask (.reopen id) k) s := by
  refine writeRow_honours hs fun t hi ht r u hu => ?_
  rcases ht with ⟨ha,honly,row,hrow,howner⟩
  have hid : id < t.issued := by
    by_contra hge
    rw [hi.view_fresh (by omega)] at hrow
    cases hrow
  have hnone : ((t.view i).openIds t.issued).any (· != id) = false := by
    rw [List.any_eq_false]
    intro b hb
    simp [honly b (Rows.mem_openIds.mp hb).2]
  have hexact : ExactlyOne
      (Function.update (t.view i) id (some {row with closedAt := none})) := by
    refine ⟨id,?_,fun b hb => ?_⟩
    · have howner' : isOwner {row with closedAt := none} = true := howner
      simp [Open,isOpen,howner']
    · by_contra hne
      simp only [Open,Function.update_of_ne hne] at hb
      exact hne (honly b hb)
  simp only [Database.answer,hi.not_held ha,hrow,hnone,Bool.and_false,Bool.false_eq_true,
    if_false] at hu
  split at hu
  · cases hu
  · simp only [Option.some.injEq,Prod.mk.injEq] at hu
    rcases hu with ⟨rfl,rfl⟩
    refine ⟨id,_,t.issued,rfl,le_refl _,hid,hexact.atMostOne,fun v hv => h _ v ?_⟩
    rw [hv.2]
    exact hexact

/-- An operation leaves exactly one owner chat open, or raises something else than the refusal of
the unique index. -/
def Selects (i : ℕ) : Except Failure Transcript → Database → Prop
  | .ok _, d => ExactlyOne (d.view i)
  | .error e, _ => e.kind ≠ .integrityError

theorem selected (transcript : Transcript) (hs : ExactlyOne (s.view i)) :
    shared.Honours contract i (Selects i) (.done (.ok transcript)) s :=
  Honours.done exact_lasting hs fun _ hu => hu

theorem chatNotFound_selects : shared.Honours contract i (Selects i) (Prog.raise chatNotFound) s :=
  Honours.done lasting_true trivial fun _ _ => by simp [Selects,chatNotFound,lookupError]

theorem create_selects (title : Option String) (hs : Holding i (fun v => ∀ id, ¬Open v id) s) :
    shared.Honours contract i (Selects i) (create "owner" title none) s := by
  have hguard : ¬("owner" = "memory_review" ∧
      (orNone (orEmpty none)).getD (if "owner" = "memory_review" then "dependency_protected"
        else "standard") ≠ "dependency_protected") := fun h => absurd h.1 (by decide)
  simp only [create,ask]
  rw [if_neg hguard]
  exact insert_honours rfl hs fun found t ht => selected found ht

theorem createIfNone_selects : shared.Honours contract i (Selects i) createIfNone s := by
  unfold createIfNone ask
  refine advisoryLock_honours fun t ht => ?_
  exact findActive_honours ht (fun found t ht => selected found ht) fun t ht =>
    create_selects none ht

theorem getOrCreateActive_selects :
    shared.Honours contract i (Selects i) getOrCreateActive s := by
  unfold getOrCreateActive ask
  exact firstLook_honours (fun found t ht => selected found ht) fun t => createIfNone_selects

theorem createOwnerChat_selects (title : Option String) :
    shared.Honours contract i (Selects i) (createOwnerChat title) s := by
  unfold createOwnerChat ask
  refine advisoryLock_honours fun t ht => ?_
  refine closeOthers_honours none ht fun t ht => ?_
  exact create_selects title ⟨ht.1,fun id ho => by cases ht.2.1 id ho⟩

theorem reopen_selects {id : ℕ} (hs : Holding i (fun v => (∀ b, Open v b → b = id) ∧
    ∃ row, v id = some row ∧ isOwner row = true) s) :
    shared.Honours contract i (Selects i) (reopen id) s := by
  unfold reopen ask
  exact reopenRow_honours hs fun row t ht => selected (id,row) ht

theorem activateOwnerChat_selects (chatId : ℕ) :
    shared.Honours contract i (Selects i) (activateOwnerChat chatId) s := by
  unfold activateOwnerChat ask
  refine advisoryLock_honours fun t ht => ?_
  refine selectForUpdate_honours ht (fun t => chatNotFound_selects) fun row t ht => ?_
  simp only [Prog.done_bind]
  cases hc : row.closedAt with
  | none =>
    simp only [Option.isSome_none,Bool.false_eq_true,if_false]
    have hopen : Open (t.view i) chatId :=
      open_iff.mpr ⟨row,ht.2.2.1,by simp [isOpen,ht.2.2.2,hc]⟩
    exact selected (chatId,row) (.of_open ht.2.1 hopen)
  | some closed =>
    simp only [Option.isSome_some,if_true]
    refine closeOthers_honours (some chatId) ht fun t ht => ?_
    refine reopen_selects ⟨ht.1,fun b hb => (Option.some.inj (ht.2.1 b hb)).symm,row,?_⟩
    rcases ht.2.2 chatId rfl with ⟨v,hv,heq⟩
    rw [heq]
    exact hv.2

theorem replaceActive_selects (wasActive : Bool)
    (hs : Holding i (fun v => wasActive = true → ∀ b, ¬Open v b) s) :
    shared.Honours contract i (Selects i) (replaceActive wasActive) s := by
  unfold replaceActive ask
  cases wasActive with
  | false => exact getOrCreateActive_selects
  | true =>
    refine newestForUpdate_honours ⟨hs.1,hs.2 rfl⟩ (fun t ht => create_selects none ht)
      fun found t ht => ?_
    exact reopen_selects ⟨ht.1,fun b hb => absurd hb (ht.2.1 b),found.2,ht.2.2⟩

theorem now_honours {k : Time → Transaction α} (hs : Holding i R s)
    (h : ∀ now t, Holding i R t → shared.Honours contract i Post (k now) t) :
    shared.Honours contract i Post (.ask .now k) s := by
  refine look_honours hs (fun t r u hu => ?_) fun t _ ht r u _ v hv => ?_
  · cases hu
    exact Or.inl rfl
  · refine h r v ⟨hv.1,?_⟩
    rw [hv.2]
    exact ht.2

theorem deleteOwnerChat_selects (chatId : ℕ) :
    shared.Honours contract i (Selects i) (deleteOwnerChat chatId) s := by
  unfold deleteOwnerChat ask
  refine advisoryLock_honours fun t ht => ?_
  refine selectForUpdate_honours ht (fun t => chatNotFound_selects) fun row t ht => ?_
  refine now_honours ht fun now t ht => ?_
  refine tombstone_honours ht fun t ht => ?_
  refine eraseContent_honours ht fun t ht => ?_
  exact replaceActive_selects _ ⟨ht.1,fun h => ht.2 (Option.isNone_iff_eq_none.mp h)⟩

theorem perform_selects (call : Call) :
    shared.Honours contract i (Selects i) (perform call) s := by
  cases call with
  | getOrCreateActive => exact getOrCreateActive_selects
  | createOwnerChat title => exact createOwnerChat_selects title
  | activateOwnerChat chatId => exact activateOwnerChat_selects chatId
  | deleteOwnerChat chatId => exact deleteOwnerChat_selects chatId

/-- Each return of an operation is one with exactly one owner chat open. -/
theorem returned_honours {k : Unit → Transaction α} (hs : ExactlyOne (s.view i))
    (h : ∀ t, ExactlyOne (t.view i) → shared.Honours contract i Post (k ()) t) :
    shared.Honours contract i Post (.ask .returned k) s := by
  refine Honours.ask exact_lasting hs fun t ht hi _ r u hu => ?_
  cases hu
  refine ⟨⟨hi.single,hi.views,hi.quiet,hi.locks,hi.fresh,fun n hn => ?_,hi.commits⟩,
    ⟨fun _ _ => rfl,fun _ _ ha => ⟨rfl,ha⟩,fun h => h⟩,h _ ht⟩
  rcases List.mem_append.mp hn with hn | hn
  · exact hi.returns n hn
  · rw [List.mem_singleton.mp hn]
    exact Rows.length_openIds ht fun id hid => hi.view_fresh hid

end

section

variable {d : Database} {i : ℕ}

theorem clear_pending (d : Database) (i j : ℕ) :
    (d.clear i).pending j = if j = i then {started := d.clock} else d.pending j := by
  by_cases hj : j = i
  · simp [Database.clear,Database.release,Database.note,hj]
  · simp [Database.clear,Database.release,Database.note,hj]

/-- The writes and the locks of a transaction are gone, and the others see what is committed or
what they have written. -/
theorem Consistent.ends (h : Consistent d) {d' : Database} {rows : Rows} (hrows : d'.rows = rows)
    (hpend : ∀ j, (d'.pending j).writes = if j = i then fun _ => none else (d.pending j).writes)
    (hadv : d'.advisory = if d.advisory = some i then none else d.advisory)
    (hlocked : ∀ id, d'.locked id = if d.locked id = some i then none else d.locked id)
    (hissued : d'.issued = d.issued) (hreturns : d'.returns = d.returns)
    (hsingle : AtMostOne rows) (hfresh : ∀ id, d.issued ≤ id → rows id = none)
    (hcommits : 0 < d'.commits → ExactlyOne rows)
    (hother : d.advisory ≠ some i → rows = d.rows) : Consistent d' := by
  have hwrites : ∀ j, d.advisory = some i → (d'.pending j).writes = fun _ => none := by
    intro j ha
    rw [hpend]
    by_cases hj : j = i
    · rw [if_pos hj]
    · rw [if_neg hj]
      exact h.quiet j (by rw [ha]; exact fun heq => hj (Option.some.inj heq).symm)
  refine ⟨by rw [hrows]; exact hsingle,fun j => ?_,fun j hj => ?_,fun id j hl => ?_,
    fun id hid => ⟨?_,fun j => ?_⟩,by rw [hreturns]; exact h.returns,
    fun hpos => by rw [hrows]; exact hcommits hpos⟩
  · by_cases ha : d.advisory = some i
    · have hview : d'.view j = rows := by
        funext id
        simp only [Database.view,hwrites j ha,Option.none_or,hrows]
      rw [hview]
      exact hsingle
    · by_cases hj : j = i
      · have hview : d'.view j = rows := by
          funext id
          simp only [Database.view,hpend,hj,if_true,Option.none_or,hrows]
        rw [hview]
        exact hsingle
      · have hview : d'.view j = d.view j := by
          funext id
          simp only [Database.view,hpend,hj,if_false,hrows,hother ha]
        rw [hview]
        exact h.views j
  · by_cases ha : d.advisory = some i
    · exact hwrites j ha
    · rw [hadv,if_neg ha] at hj
      rw [hpend,h.quiet j hj,ite_self]
  · rw [hlocked] at hl
    split at hl
    · cases hl
    · next hne =>
      have hadvj := h.locks id j hl
      rw [hadv,if_neg ?_,hadvj]
      rw [hadvj]
      rintro ⟨⟩
      exact hne hl
  · rw [hrows]
    rw [hissued] at hid
    exact hfresh id hid
  · rw [hissued] at hid
    rw [hpend]
    by_cases hj : j = i
    · rw [if_pos hj]
    · rw [if_neg hj]
      exact (h.fresh id hid).2 j

theorem clear_writes (j : ℕ) : ((d.clear i).pending j).writes =
    if j = i then fun _ => none else (d.pending j).writes := by
  rw [clear_pending]
  split <;> rfl

theorem Consistent.clear (h : Consistent d) : Consistent (d.clear i) :=
  h.ends rfl clear_writes rfl (fun _ => rfl) rfl rfl h.single (fun id hid => (h.fresh id hid).1)
    h.commits fun _ => rfl

theorem Apart.clear : Apart i d (d.clear i) := by
  refine ⟨fun j hj => ?_,fun j hj ha => ⟨rfl,?_⟩,id⟩
  · rw [clear_pending,if_neg hj]
  · have hne : ¬d.advisory = some i := by
      rw [ha]
      exact fun heq => hj (Option.some.inj heq)
    exact (if_neg hne).trans ha

theorem Consistent.commit (h : Consistent d) (hone : ExactlyOne (d.view i)) :
    Consistent (d.commit i) :=
  h.ends rfl clear_writes rfl (fun _ => rfl) rfl rfl hone.atMostOne (fun _ => h.view_fresh)
    (fun _ => hone) h.view_quiet

theorem Apart.commit (h : Consistent d) (hone : ExactlyOne (d.view i)) :
    Apart i d (d.commit i) := by
  have hclear : Apart i d (d.clear i) := .clear
  refine ⟨hclear.pending,fun j hj ha => ⟨?_,(hclear.rows j hj ha).2⟩,fun _ => hone⟩
  refine h.view_quiet ?_
  rw [ha]
  exact fun heq => hj (Option.some.inj heq)

/-- A transaction raises at most what the operations raise. -/
def Ends : Except Failure Unit → Database → Prop
  | .ok _, _ => True
  | .error e, _ => e.kind ≠ .integrityError

theorem transaction_ends (call : Call) (calls : List Call) (s : Database) :
    shared.Honours contract i Ends (transaction call calls) s := by
  induction calls generalizing call s with
  | nil =>
    refine (perform_selects call).bind (fun _ t ht => ?_) fun e t ht => ht
    refine returned_honours ht fun t ht => ?_
    refine Honours.ask exact_lasting ht fun t ht hi _ r u hu => ?_
    cases hu
    exact ⟨hi.commit ht,.commit hi ht,Honours.done lasting_true trivial fun _ _ => trivial⟩
  | cons next calls ih =>
    refine (perform_selects call).bind (fun _ t ht => ?_) fun e t ht => ht
    exact returned_honours ht fun t _ => ih next t

end

theorem ownerChats_lawful :
    Crowd.Lawful shared serve contract fun _ _ => Ends where
  stir d e h := by
    cases e
    exact ⟨h.single,h.views,h.quiet,h.locks,h.fresh,h.returns,h.commits⟩
  enter d i c h := ⟨h.clear,.clear,transaction_ends c.1 c.2 _⟩
  leave d i h := ⟨h.clear,.clear⟩

/-- The service before its first transaction, on transcripts with at most one open owner chat. -/
structure Started (m : OwnerChats) : Prop where
  threads : m.threads = []
  rows : AtMostOne m.host.rows
  fresh : ∀ id, m.host.issued ≤ id → m.host.rows id = none
  pending : ∀ i, (m.host.pending i).writes = fun _ => none
  locked : ∀ id, m.host.locked id = none
  returns : m.host.returns = []
  commits : m.host.commits = 0

theorem Started.consistent {m : OwnerChats} (h : Started m) : Consistent m.host := by
  refine ⟨h.rows,fun i => ?_,fun i _ => h.pending i,fun id i hl => ?_,
    fun id hid => ⟨h.fresh id hid,fun i => by rw [h.pending]⟩,fun n hn => ?_,fun hpos => ?_⟩
  · have hview : m.host.view i = m.host.rows := by
      funext id
      simp only [Database.view,h.pending,Option.none_or]
    rw [hview]
    exact h.rows
  · rw [h.locked] at hl
    cases hl
  · rw [h.returns] at hn
    cases hn
  · rw [h.commits] at hpos
    cases hpos

/-- Whatever transactions are interleaved, at most one owner chat is open in what is committed and
in what each of them sees, exactly one after each operation and from the first commit on, and the
unique index never refuses a write. -/
theorem one_selected_owner_chat (m : OwnerChats)
    (h : Trace.Reach step (fun _ _ => True) Started m) :
    AtMostOne m.host.rows ∧ (∀ i, AtMostOne (m.host.view i)) ∧
      (∀ n ∈ m.host.returns, n = 1) ∧ (0 < m.host.commits → ExactlyOne m.host.rows) ∧
      ∀ (i : ℕ) (c : Call × List Call) (e : Failure),
        m.threads[i]? = some (some (c,.done (.error e))) → e.kind ≠ .integrityError := by
  have hperm : Trace.Reach step (Crowd.Permits contract) Started m :=
    h.mono fun s a _ i _ c q k _ => trivial
  have hsound := Crowd.reach_sound ownerChats_lawful (fun m hm => ⟨hm.consistent,hm.threads⟩) hperm
  refine ⟨hsound.1.single,hsound.1.views,hsound.1.returns,hsound.1.commits,fun i c e he => ?_⟩
  exact hsound.over he

def noChats : OwnerChats := {host := {}}

theorem noChats_started : Started noChats :=
  ⟨rfl,(fun a b ha => by cases ha),fun _ _ => rfl,fun _ => rfl,fun _ => rfl,rfl,rfl⟩

/-- Two clients find no chat at the same time; later one of them creates a second chat and
deletes it again while the other one looks. -/
def interleavedRun : List (Move Database.Occasion (Call × List Call)) :=
  [Move.begin (Call.getOrCreateActive,[]),Move.begin (Call.getOrCreateActive,[]),Move.proceed 0,
    Move.proceed 1] ++
  List.replicate 5 (Move.proceed 0) ++ List.replicate 5 (Move.proceed 1) ++
  [Move.begin (Call.createOwnerChat none,[Call.deleteOwnerChat 1]),
    Move.begin (Call.getOrCreateActive,[])] ++
  List.replicate 8 (Move.proceed 2) ++ [Move.proceed 3] ++ List.replicate 6 (Move.proceed 2) ++
  List.replicate 2 (Move.proceed 3)

theorem one_selected_owner_chat_interleaved :
    let m := interleavedRun.foldl step noChats
    m.host.returns = [1,1,1,1,1] ∧ m.host.commits = 4 ∧ ExactlyOne m.host.rows := by
  have h := one_selected_owner_chat _
    ((Trace.Reach.start noChats_started).steps interleavedRun)
  have hcommits : (interleavedRun.foldl step noChats).host.commits = 4 := by decide +kernel
  exact ⟨by decide +kernel,hcommits,h.2.2.2.1 (by rw [hcommits]; decide)⟩

end Transcripts
end Atlas
