import Atlas.Control.Polkit
import Atlas.Lib.Base64
import Atlas.Lib.JsonRoundTrip
import Atlas.Maintenance.Backup

/-! A snapshot is whole or refused: what a crash of the backup leaves and what is changed later is
refused before a target is touched, and what is accepted gives back the state that was saved. -/
namespace Atlas
namespace Maintenance

open Base64 (fromUTF8_toUTF8)
open Memory (strip)
open JsonText (FloatText Value)

/-- The text of a path determines it. -/
theorem posix_inj {p q : Path} (hp : p ≠ [] ∧ ∀ name ∈ p, '/' ∉ name.toList)
    (hq : q ≠ [] ∧ ∀ name ∈ q, '/' ∉ name.toList) (h : posix p = posix q) : p = q := by
  have hsplit : ∀ r : Path, (r ≠ [] ∧ ∀ name ∈ r, '/' ∉ name.toList) →
      (posix r).toList.splitOn '/' = r.map String.toList := by
    intro r hr
    rw [posix,String.toList_intercalate,show "/".toList = ['/'] from rfl,List.splitOn_intercalate]
    · intro l hl
      obtain ⟨name,hname,rfl⟩ := List.mem_map.mp hl
      exact hr.2 name hname
    · simpa using hr.1
  have hmap : p.map String.toList = q.map String.toList := by rw [← hsplit p hp,← hsplit q hq,h]
  exact List.map_injective_iff.mpr (fun _ _ => String.toList_inj.mp) hmap

theorem strip_of_no_space {s : String} (h : ∀ c ∈ s.toList, isSpace c = false) : strip s = s := by
  have hdrop : ∀ l : List Char, (∀ c ∈ l, isSpace c = false) → l.dropWhile isSpace = l := by
    intro l hl
    cases l with
    | nil => rfl
    | cons c l => exact List.dropWhile_cons_of_neg (by simp [hl c List.mem_cons_self])
  rw [strip,hdrop _ h,hdrop _ (by simpa using h),List.reverse_reverse,String.ofList_toList]

namespace Tree

variable {t : Tree} {p : Path}

theorem entryAt_eq_some {e : Entry} : t.entryAt p = some e ↔ (p,e) ∈ t.entries := by
  rw [entryAt,Option.map_eq_some_iff]
  constructor
  · rintro ⟨x,hx,rfl⟩
    have hp : x.1 = p := by simpa using List.find?_some hx
    rw [← hp]
    exact List.mem_of_find?_eq_some hx
  · intro h
    cases hf : t.entries.find? fun e => e.1 = p with
    | none =>
      exact absurd (by simp) (List.find?_eq_none.mp hf _ h)
    | some x =>
      have hp : x.1 = p := by simpa using List.find?_some hf
      have hx := List.mem_of_find?_eq_some hf
      exact ⟨x,rfl,congrArg Prod.snd (List.inj_on_of_nodup_map t.nodup hx h hp)⟩

theorem file_eq_some {c : ByteArray} : t.file p = some c ↔ (p,.file c) ∈ t.entries := by
  rw [← entryAt_eq_some,file,Option.bind_eq_some_iff]
  constructor
  · rintro ⟨e,he,hc⟩
    cases e with
    | file c' =>
      obtain rfl := Option.some.inj hc
      exact he
    | _ => cases hc
  · exact fun h => ⟨_,h,rfl⟩

theorem named_of_mem {x : Path × Entry} (h : x ∈ t.entries) :
    x.1 ≠ [] ∧ ∀ name ∈ x.1, '/' ∉ name.toList :=
  t.named _ (List.mem_map_of_mem h)

theorem fileNamed_eq_some {name : String} {c : ByteArray} :
    t.fileNamed name = some c ↔ ∃ p, posix p = name ∧ (p,.file c) ∈ t.entries := by
  rw [fileNamed,Option.bind_eq_some_iff]
  constructor
  · rintro ⟨⟨p,e⟩,hx,hc⟩
    refine ⟨p,by simpa using List.find?_some hx,?_⟩
    have hmem := List.mem_of_find?_eq_some hx
    cases e with
    | file c' =>
      obtain rfl := Option.some.inj hc
      exact hmem
    | _ => cases hc
  · rintro ⟨p,rfl,h⟩
    cases hf : t.entries.find? fun e => posix e.1 = posix p with
    | none =>
      exact absurd (by simp) (List.find?_eq_none.mp hf _ h)
    | some x =>
      have hx := List.mem_of_find?_eq_some hf
      have hp : x.1 = p := posix_inj (named_of_mem hx) (named_of_mem h)
        (by simpa using List.find?_some hf)
      rw [List.inj_on_of_nodup_map t.nodup hx h hp]
      exact ⟨_,rfl,rfl⟩

/-- Trees of the same files have the same file under a name. -/
theorem fileNamed_congr {t' : Tree} (h : ∀ p c, (p,Entry.file c) ∈ t.entries ↔ (p,.file c) ∈ t'.entries)
    (name : String) : t.fileNamed name = t'.fileNamed name := by
  apply Option.ext
  intro c
  simp only [fileNamed_eq_some,h]

end Tree

/-- The tree of a directory, where one that does not exist has none. -/
def Root.contents (r : Root) : Tree := r.tree.getD .empty

namespace Run

variable {α β : Type}

theorem bind_ok {x : Run α} {f : α → Run β} {b : β} (h : (x.bind f).2 = .ok b) :
    ∃ a, x.2 = .ok a ∧ (f a).2 = .ok b ∧ (x.bind f).1 = x.1 ++ (f a).1 := by
  unfold bind at h ⊢
  cases hx : x.2 with
  | error e =>
    rw [hx] at h
    cases h
  | ok a =>
    rw [hx] at h
    exact ⟨a,rfl,h,rfl⟩

/-- What a program writes, its first part or its second part writes. -/
theorem mem_bind {x : Run α} {f : α → Run β} {step : Write} (h : step ∈ (x.bind f).1) :
    step ∈ x.1 ∨ ∃ a, x.2 = .ok a ∧ step ∈ (f a).1 := by
  unfold bind at h
  cases hx : x.2 with
  | error e =>
    rw [hx] at h
    exact Or.inl h
  | ok a =>
    rw [hx] at h
    exact (List.mem_append.mp h).imp_right fun h => ⟨a,rfl,h⟩

end Run

/-- The writes of the copy of a tree. -/
def copies (name : String) (t : Tree) : List Write :=
  .put [name] .directory :: t.entries.map fun e => .put (name :: e.1) e.2

theorem copied_eq_ok {t t' : Tree} (h : copied t = .ok t') :
    t' = t ∧ ∀ e ∈ t.entries, e.2.fault = none := by
  unfold copied at h
  split at h
  · cases h
  · next hf =>
    exact ⟨(Except.ok.inj h).symm,List.findSome?_eq_none_iff.mp hf⟩

theorem copied_of_no_fault {t : Tree} (h : ∀ e ∈ t.entries, e.2.fault = none) : copied t = .ok t := by
  rw [copied,List.findSome?_eq_none_iff.mpr h]

theorem copyTree_ok {name : String} {r : Root} {t : Tree} (h : (copyTree name r).2 = .ok t) :
    t = r.contents ∧ (copyTree name r).1 = copies name r.contents ∧
      ∀ e ∈ r.contents.entries, e.2.fault = none := by
  unfold copyTree at h ⊢
  dsimp only at h ⊢
  split at h
  · cases h
  · next hlink =>
    rw [if_neg hlink]
    cases ht : r.tree with
    | none =>
      rw [ht] at h
      have hc : r.contents = .empty := by rw [Root.contents,ht]; rfl
      rw [hc]
      exact ⟨(Except.ok.inj h).symm,rfl,by simp [Tree.empty]⟩
    | some u =>
      rw [ht] at h
      obtain ⟨rfl,hf⟩ := copied_eq_ok h
      have hc : r.contents = t := by rw [Root.contents,ht]; rfl
      rw [hc]
      refine ⟨rfl,?_,hf⟩
      dsimp only
      rw [copies,List.takeWhile_eq_self_iff.mpr fun e he => by simp [hf e he]]

/-- The copy of a tree writes below its name only. -/
theorem mem_copyTree {name : String} {r : Root} {step : Write} (h : step ∈ (copyTree name r).1) :
    ∃ rest e, step = .put (name :: rest) e := by
  unfold copyTree at h
  dsimp only at h
  split at h
  · exact ⟨[],_,List.mem_singleton.mp h⟩
  · split at h
    · exact ⟨[],_,List.mem_singleton.mp h⟩
    · rcases List.mem_cons.mp h with h | h
      · exact ⟨[],_,h⟩
      · obtain ⟨e,_,rfl⟩ := List.mem_map.mp h
        exact ⟨e.1,e.2,rfl⟩

section

variable {digest : ByteArray → String} {DB : Type} [Postgres DB] {destination : Path}
  {occupied : Bool} {w : World DB}

/-- The names at the top of a snapshot, but for the manifest and the marker. -/
def topNames : List String := ["database.dump","artifacts","project-checkpoints","owner-enrolled"]

theorem mem_snapshot {step : Write} (h : step ∈ (snapshot digest destination occupied w).1) :
    ∃ first ∈ topNames, ∃ rest e, step = .put (first :: rest) e := by
  unfold snapshot at h
  split at h
  · cases h
  split at h
  · cases h
  dsimp only at h
  rcases Run.mem_bind h with h | ⟨_,_,h⟩
  · exact ⟨"database.dump",by decide,[],_,List.mem_singleton.mp h⟩
  rcases Run.mem_bind h with h | ⟨_,_,h⟩
  · exact ⟨"artifacts",by decide,mem_copyTree h⟩
  rcases Run.mem_bind h with h | ⟨_,_,h⟩
  · exact ⟨"project-checkpoints",by decide,mem_copyTree h⟩
  · dsimp only at h
    split at h
    · exact ⟨"owner-enrolled",by decide,[],_,List.mem_singleton.mp h⟩
    · cases h

/-- The writes of the marker of the enrolment. -/
def markerCopy (m : Marker) : List Write :=
  match m.content with
  | some c => [.put ["owner-enrolled"] (.file c)]
  | none => []

/-- What the part of the backup before the manifest writes. -/
theorem snapshot_ok (h : (snapshot digest destination occupied w).2 = .ok ()) :
    (snapshot digest destination occupied w).1 =
      .put ["database.dump"] (.file (Postgres.dump w.database).1) ::
        (copies "artifacts" w.artifacts.contents ++
          (copies "project-checkpoints" w.projectCheckpoints.contents ++ markerCopy w.marker)) ∧
    (Postgres.dump w.database).2 = true ∧
    (∀ e ∈ w.artifacts.contents.entries, e.2.fault = none) ∧
    (∀ e ∈ w.projectCheckpoints.contents.entries, e.2.fault = none) ∧
    verifyArtifacts digest (Postgres.artifacts w.database) w.artifacts.contents = .ok () := by
  unfold snapshot at h ⊢
  split at h
  · cases h
  next hseparate =>
  split at h
  · cases h
  next hfree =>
  rw [if_neg hseparate,if_neg hfree]
  dsimp only at h ⊢
  obtain ⟨_,hdump,h,h₁⟩ := Run.bind_ok h
  obtain ⟨artifacts,ha,h,h₂⟩ := Run.bind_ok h
  obtain ⟨checkpoints,hc,h,h₃⟩ := Run.bind_ok h
  obtain ⟨rfl,hacopy,hafault⟩ := copyTree_ok ha
  obtain ⟨_,hccopy,hcfault⟩ := copyTree_ok hc
  refine ⟨?_,?_,hafault,hcfault,h⟩
  · rw [h₁,h₂,h₃,hacopy,hccopy]
    rfl
  · by_contra hfail
    rw [if_neg hfail] at hdump
    cases hdump

omit [Postgres DB] in
theorem mem_copies {name : String} {t : Tree} {p : Path} {e : Entry} :
    Journal.Step.put p e ∈ copies name t ↔
      (p = [name] ∧ e = .directory) ∨ ∃ q, p = name :: q ∧ (q,e) ∈ t.entries := by
  rw [copies,List.mem_cons,List.mem_map,Journal.Step.put.injEq]
  refine or_congr_right ?_
  constructor
  · rintro ⟨⟨q,e'⟩,hx,he⟩
    obtain ⟨rfl,rfl⟩ := Journal.Step.put.inj he
    exact ⟨q,rfl,hx⟩
  · rintro ⟨q,rfl,hx⟩
    exact ⟨_,hx,rfl⟩

theorem keys_copies (name : String) (t : Tree) :
    Journal.keys (copies name t) = [name] :: t.entries.map fun e => name :: e.1 := by
  simp [Journal.keys,copies,List.filterMap_map]

theorem nodup_keys_copies (name : String) (t : Tree) : (Journal.keys (copies name t)).Nodup := by
  rw [keys_copies,List.nodup_cons]
  constructor
  · intro h
    obtain ⟨e,he,hp⟩ := List.mem_map.mp h
    exact (Tree.named_of_mem he).1 (List.cons.inj hp).2
  · have hcons := t.nodup.map fun (p q : Path) (h : name :: p = name :: q) => (List.cons.inj h).2
    rwa [List.map_map] at hcons

theorem head_of_mem_keys {name : String} {t : Tree} {p : Path}
    (h : p ∈ Journal.keys (copies name t)) : p.head? = some name := by
  rw [keys_copies] at h
  rcases List.mem_cons.mp h with rfl | h
  · rfl
  · obtain ⟨e,_,rfl⟩ := List.mem_map.mp h
    rfl

theorem keys_append {κ ν : Type} (steps rest : List (Journal.Step κ ν)) :
    Journal.keys (steps ++ rest) = Journal.keys steps ++ Journal.keys rest :=
  List.filterMap_append

/-- No path of a snapshot is written twice. -/
theorem nodup_snapshot (h : (snapshot digest destination occupied w).2 = .ok ()) :
    (Journal.keys (snapshot digest destination occupied w).1).Nodup := by
  obtain ⟨hsteps,_⟩ := snapshot_ok h
  have hmarker : ∀ p ∈ Journal.keys (markerCopy w.marker), p.head? = some "owner-enrolled" := by
    intro p hp
    unfold markerCopy at hp
    split at hp
    · rw [List.mem_singleton.mp hp]
      rfl
    · cases hp
  have hnodup : (Journal.keys (markerCopy w.marker)).Nodup := by
    unfold markerCopy
    split <;> simp [Journal.keys]
  have hapart : ∀ {a b : String} {p q : Path}, p.head? = some a → q.head? = some b → a ≠ b → p ≠ q :=
    fun hp hq hab he => hab (Option.some.inj (by rw [← hp,← hq,he]))
  rw [hsteps,← List.singleton_append,keys_append,keys_append,keys_append]
  refine List.nodup_append.mpr ⟨by simp [Journal.keys],List.nodup_append.mpr
    ⟨nodup_keys_copies ..,List.nodup_append.mpr ⟨nodup_keys_copies ..,hnodup,?_⟩,?_⟩,?_⟩
  · exact fun p hp q hq => hapart (head_of_mem_keys hp) (hmarker q hq) (by decide)
  · intro p hp q hq
    rcases List.mem_append.mp hq with hq | hq
    · exact hapart (head_of_mem_keys hp) (head_of_mem_keys hq) (by decide)
    · exact hapart (head_of_mem_keys hp) (hmarker q hq) (by decide)
  · intro p hp q hq
    have hp : p.head? = some "database.dump" := by
      rw [List.mem_singleton.mp hp]
      rfl
    rcases List.mem_append.mp hq with hq | hq
    · exact hapart hp (head_of_mem_keys hq) (by decide)
    rcases List.mem_append.mp hq with hq | hq
    · exact hapart hp (head_of_mem_keys hq) (by decide)
    · exact hapart hp (hmarker q hq) (by decide)

/-- The paths of a snapshot have proper names. -/
theorem named_snapshot (h : (snapshot digest destination occupied w).2 = .ok ()) {p : Path} {e : Entry}
    (hp : .put p e ∈ (snapshot digest destination occupied w).1) :
    p ≠ [] ∧ ∀ name ∈ p, '/' ∉ name.toList := by
  obtain ⟨hsteps,_⟩ := snapshot_ok h
  have htop : ∀ name ∈ topNames, '/' ∉ name.toList := by decide
  have hone : ∀ name ∈ topNames, [name] ≠ [] ∧ ∀ n ∈ [name], '/' ∉ n.toList := fun name hn =>
    ⟨by simp,fun n h => List.mem_singleton.mp h ▸ htop name hn⟩
  have hcopies : ∀ name ∈ topNames, ∀ t : Tree, .put p e ∈ copies name t →
      p ≠ [] ∧ ∀ n ∈ p, '/' ∉ n.toList := by
    intro name hn t ht
    rcases mem_copies.mp ht with ⟨rfl,_⟩ | ⟨q,rfl,hq⟩
    · exact hone name hn
    · refine ⟨by simp,fun n hmem => ?_⟩
      rcases List.mem_cons.mp hmem with rfl | hmem
      · exact htop _ hn
      · exact (Tree.named_of_mem hq).2 n hmem
  rw [hsteps,List.mem_cons,List.mem_append,List.mem_append] at hp
  rcases hp with hp | hp | hp | hp
  · rw [(Journal.Step.put.inj hp).1]
    exact hone _ (by decide)
  · exact hcopies _ (by decide) _ hp
  · exact hcopies _ (by decide) _ hp
  · unfold markerCopy at hp
    split at hp
    · rw [(Journal.Step.put.inj (List.mem_singleton.mp hp)).1]
      exact hone _ (by decide)
    · cases hp

/-! The manifest. -/

omit [Postgres DB] in
theorem mem_listing {steps : List Write} {name d : String} :
    (name,d) ∈ listing digest steps ↔
      ∃ p c, .put p (.file c) ∈ steps ∧ name = posix p ∧ d = digest c := by
  rw [listing,List.mem_filterMap]
  constructor
  · rintro ⟨step,hstep,h⟩
    split at h
    · next p c =>
      obtain ⟨rfl,rfl⟩ := Prod.mk.inj (Option.some.inj h)
      exact ⟨p,c,hstep,rfl,rfl⟩
    · cases h
  · rintro ⟨p,c,hstep,rfl,rfl⟩
    exact ⟨_,hstep,rfl⟩

theorem listing_sublist (steps : List Write) :
    ((listing digest steps).map Prod.fst).Sublist ((Journal.keys steps).map posix) := by
  induction steps with
  | nil => exact List.Sublist.refl _
  | cons step steps ih =>
    cases step with
    | sync => exact ih
    | put p e =>
      cases e with
      | file c => exact ih.cons_cons _
      | _ => exact ih.cons _

theorem nodup_listing (h : (snapshot digest destination occupied w).2 = .ok ()) :
    ((listing digest (snapshot digest destination occupied w).1).map Prod.fst).Nodup := by
  refine (List.Nodup.map_on (fun p hp q hq he => ?_) (nodup_snapshot h)).sublist (listing_sublist _)
  obtain ⟨e,hp⟩ := Journal.writes_iff_mem_keys.mpr hp
  obtain ⟨e',hq⟩ := Journal.writes_iff_mem_keys.mpr hq
  exact posix_inj (named_snapshot h hp) (named_snapshot h hq) he

section

variable {F : Type} [FloatText F]

/-- The manifest is read as it was written. -/
theorem parse_manifestText {createdAt : String} {files : List (String × String)}
    (h : (files.map Prod.fst).Nodup) :
    (String.fromUTF8? (manifestText F createdAt files)).bind
      (fun text => JsonText.parse (F := F) text.toList) = some (manifest F createdAt files) := by
  have hplain : (manifest F createdAt files).Plain := by
    have hfields : JsonText.PlainFields (files.map fun f => (f.1,Value.str (F := F) f.2)) := by
      clear h
      induction files with
      | nil => trivial
      | cons f files ih => exact ⟨trivial,ih⟩
    refine ⟨by simp,trivial,trivial,⟨?_,hfields⟩,trivial,trivial⟩
    rwa [List.map_map]
  rw [manifestText,fromUTF8_toUTF8,Option.bind_some,String.toList_ofList]
  exact JsonText.parse_encode _ hplain

variable {createdAt : String}

/-- The text of the manifest of a state. -/
def manifestOf (F : Type) [FloatText F] (digest : ByteArray → String) (createdAt : String)
    (destination : Path) (occupied : Bool) (w : World DB) : ByteArray :=
  manifestText F createdAt (listing digest (snapshot digest destination occupied w).1)

theorem backup_ok {n : ℕ} (h : (backup F digest createdAt destination occupied w).2 = .ok n) :
    (snapshot digest destination occupied w).2 = .ok () ∧
    (backup F digest createdAt destination occupied w).1 =
      ((snapshot digest destination occupied w).1 ++ [Journal.Step.put ["manifest.json"]
        (Entry.file (manifestOf F digest createdAt destination occupied w))]) ++
      [Journal.Step.sync,.put ["COMPLETE"]
        (Entry.file (digest (manifestOf F digest createdAt destination occupied w)).toUTF8),
        .sync] := by
  obtain ⟨_,hbody,_,hsteps⟩ := Run.bind_ok h
  refine ⟨hbody,hsteps.trans ?_⟩
  rw [List.append_assoc]
  rfl

theorem backup_error {e : String}
    (h : (backup F digest createdAt destination occupied w).2 = .error e) :
    (backup F digest createdAt destination occupied w).1 =
      (snapshot digest destination occupied w).1 := by
  unfold backup Run.bind at h ⊢
  dsimp only at h ⊢
  cases hs : (snapshot digest destination occupied w).2 with
  | error e => rfl
  | ok _ =>
    rw [hs] at h
    cases h

/-- The marker and the manifest are written after the state. -/
theorem not_writes_snapshot {p : Path} (hp : p = ["manifest.json"] ∨ p = ["COMPLETE"]) :
    ¬Journal.Writes (snapshot digest destination occupied w).1 p := by
  rintro ⟨e,he⟩
  obtain ⟨first,hfirst,rest,e',heq⟩ := mem_snapshot he
  obtain ⟨rfl,_⟩ := Journal.Step.put.inj heq
  rcases hp with hp | hp
  · rw [(List.cons.inj hp).1] at hfirst
    revert hfirst
    decide
  · rw [(List.cons.inj hp).1] at hfirst
    revert hfirst
    decide

/-- What the whole backup has written. -/
theorem saved_eq_some {n : ℕ} (h : (backup F digest createdAt destination occupied w).2 = .ok n)
    {p : Path} {e : Entry} :
    Journal.content (backup F digest createdAt destination occupied w).1 p = some e ↔
      .put p e ∈ (snapshot digest destination occupied w).1 ∨
      (p = ["manifest.json"] ∧ e = .file (manifestOf F digest createdAt destination occupied w)) ∨
      p = ["COMPLETE"] ∧
        e = .file (digest (manifestOf F digest createdAt destination occupied w)).toUTF8 := by
  obtain ⟨hbody,hsteps⟩ := backup_ok h
  have hnodup : (Journal.keys (backup F digest createdAt destination occupied w).1).Nodup := by
    rw [hsteps,keys_append,keys_append]
    have hout : ∀ q ∈ Journal.keys (snapshot digest destination occupied w).1,
        q ≠ ["manifest.json"] ∧ q ≠ ["COMPLETE"] := by
      intro q hq
      have hw := Journal.writes_iff_mem_keys.mpr hq
      exact ⟨fun he => not_writes_snapshot (Or.inl he) hw,fun he => not_writes_snapshot (Or.inr he) hw⟩
    rw [List.append_assoc]
    refine List.nodup_append.mpr ⟨nodup_snapshot hbody,by simp [Journal.keys],fun q hq r hr he => ?_⟩
    subst he
    have hr : q = ["manifest.json"] ∨ q = ["COMPLETE"] := by simpa [Journal.keys] using hr
    exact hr.elim (hout q hq).1 (hout q hq).2
  rw [Journal.content_eq_some_iff hnodup,hsteps]
  simp only [List.mem_append,List.mem_cons,List.not_mem_nil,or_false,Journal.Step.put.injEq,
    reduceCtorEq,false_or]
  exact or_assoc

/-- What an accepted snapshot is. -/
structure Accepted (F : Type) [FloatText F] (digest : ByteArray → String) (d : Tree)
    (marker : String) (bytes : ByteArray) (files : List (String × Value F)) : Prop where
  complete : (d.file ["COMPLETE"]).bind String.fromUTF8? = some marker
  manifest : d.file ["manifest.json"] = some bytes
  matched : strip marker = digest bytes
  read : ∃ fields, (String.fromUTF8? bytes).bind
    (fun text => JsonText.parse (F := F) text.toList) = some (.obj fields) ∧
      fields.lookup "files" = some (.obj files)
  digests : ∀ f ∈ files, ∃ c, d.fileNamed f.1 = some c ∧ f.2 = .str (digest c)
  listed : ∀ p c, (p,Entry.file c) ∈ d.entries → posix p ≠ "COMPLETE" → posix p ≠ "manifest.json" →
    posix p ∈ files.map (·.1)

omit [Postgres DB] in
theorem readSnapshot_ok {d : Tree} {files : List (String × Value F)}
    (h : readSnapshot F digest d = .ok files) : ∃ marker bytes, Accepted F digest d marker bytes files := by
  unfold readSnapshot at h
  split at h
  · cases h
  split at h
  · cases h
  next complete hcomplete =>
  split at h
  · cases h
  · cases h
  next marker bytes hmarker hbytes =>
  split at h
  · cases h
  next hmatched =>
  split at h
  · next fields hread =>
    split at h
    · next listed hlisted =>
      split at h
      · split at h
        · next hdigests =>
          extract_lets actual at h
          split at h
          · next hactual =>
            obtain rfl := Except.ok.inj h
            refine ⟨marker,bytes,?_,hbytes,not_not.mp hmatched,⟨fields,hread,hlisted⟩,?_,?_⟩
            · rw [hcomplete]
              exact hmarker
            · intro f hf
              have hcheck := List.all_eq_true.mp hdigests f hf
              unfold Tree.holds at hcheck
              split at hcheck
              · next c expected hc hexpected =>
                exact ⟨c,hc,by rw [hexpected,eq_of_beq hcheck]⟩
              · cases hcheck
            · intro p c hp hne₁ hne₂
              have hmem : posix p ∈ actual.filter fun n => n ≠ "COMPLETE" ∧ n ≠ "manifest.json" := by
                refine List.mem_filter.mpr ⟨List.mem_map.mpr ⟨_,List.mem_filter.mpr ⟨hp,rfl⟩,rfl⟩,?_⟩
                simp [hne₁,hne₂]
              rw [← List.mem_toFinset,hactual,List.mem_toFinset] at hmem
              exact hmem
          · cases h
        · cases h
      · cases h
    · cases h
  · cases h
  · cases h

/-- Digests do not collide, and their texts have no blanks. -/
structure Collisionless (digest : ByteArray → String) : Prop where
  injective : Function.Injective digest
  hex : ∀ b, ∀ c ∈ (digest b).toList, isSpace c = false

theorem strip_digest (hd : Collisionless digest) (b : ByteArray) : strip (digest b) = digest b :=
  strip_of_no_space (hd.hex b)

/-- The files that an accepted snapshot with the manifest of a state has are those of the state. -/
theorem Accepted.files_iff (hd : Collisionless digest) {d : Tree} {marker : String}
    {files : List (String × Value F)}
    (hbody : (snapshot digest destination occupied w).2 = .ok ())
    (h : Accepted F digest d marker (manifestOf F digest createdAt destination occupied w) files)
    {p : Path} (hp : p ≠ ["manifest.json"] ∧ p ≠ ["COMPLETE"]) {c : ByteArray} :
    d.file p = some c ↔ .put p (.file c) ∈ (snapshot digest destination occupied w).1 := by
  obtain ⟨fields,hread,hlookup⟩ := h.read
  have hfiles : files = (listing digest (snapshot digest destination occupied w).1).map
      fun f => (f.1,Value.str f.2) := by
    rw [manifestOf,parse_manifestText (nodup_listing hbody)] at hread
    have hfields := Value.obj.inj (Option.some.inj hread)
    rw [← hfields] at hlookup
    simpa [List.lookup] using hlookup.symm
  have hsaved : ∀ {q : Path} {b : ByteArray},
      .put q (.file b) ∈ (snapshot digest destination occupied w).1 → d.file q = some b := by
    intro q b hq
    obtain ⟨b',hb',hdigest⟩ := h.digests (posix q,.str (digest b)) (by
      rw [hfiles]
      exact List.mem_map_of_mem (f := fun f : String × String => (f.1,Value.str (F := F) f.2))
        (mem_listing.mpr ⟨q,b,hq,rfl,rfl⟩))
    obtain ⟨r,hr,hmem⟩ := Tree.fileNamed_eq_some.mp hb'
    obtain rfl := posix_inj (Tree.named_of_mem hmem) (named_snapshot hbody hq) hr
    rw [hd.injective (Value.str.inj hdigest)]
    exact Tree.file_eq_some.mpr hmem
  constructor
  · intro hc
    have hmem := Tree.file_eq_some.mp hc
    have hone : ∀ name : String, '/' ∉ name.toList → p ≠ [name] → posix p ≠ name := by
      intro name hname hne he
      refine hne (posix_inj (Tree.named_of_mem hmem) ⟨by simp,fun n hn => ?_⟩ (he.trans ?_))
      · rw [List.mem_singleton.mp hn]
        exact hname
      · simp [posix]
    have hlisted := h.listed p c hmem (hone _ (by decide) hp.2) (hone _ (by decide) hp.1)
    rw [hfiles,List.map_map] at hlisted
    obtain ⟨⟨name,d'⟩,hf,hname⟩ := List.mem_map.mp hlisted
    obtain ⟨q,b,hq,rfl,_⟩ := mem_listing.mp hf
    obtain rfl := posix_inj (named_snapshot hbody hq) (Tree.named_of_mem hmem) hname
    rw [hsaved hq] at hc
    rwa [← Option.some.inj hc]
  · exact hsaved

/-! A state to evaluate the results with: bytes as their own digest, and tools that copy. -/

def plainDigest (b : ByteArray) : String :=
  String.ofList (b.data.toList.map fun n => Char.ofNat (256 + n.toNat))

theorem plainDigest_collisionless : Collisionless plainDigest where
  injective b b' h := by
    have hbyte : Function.Injective fun n : UInt8 => Char.ofNat (256 + n.toNat) := by
      have hcode : ∀ k < 256, (Char.ofNat (256 + k)).toNat = 256 + k := by decide +kernel
      intro n m hnm
      have hcodes := congrArg Char.toNat hnm
      dsimp only at hcodes
      rw [hcode _ n.toNat_lt,hcode _ m.toNat_lt] at hcodes
      exact UInt8.toNat_inj.mp (by omega)
    have hlist := List.map_injective_iff.mpr hbyte (String.ofList_injective h)
    exact ByteArray.ext (Array.toList_inj.mp hlist)
  hex b c hc := by
    have hspace : ∀ k < 256, isSpace (Char.ofNat (256 + k)) = false := by decide +kernel
    rw [plainDigest,String.toList_ofList] at hc
    obtain ⟨n,_,rfl⟩ := List.mem_map.mp hc
    exact hspace _ n.toNat_lt

@[reducible] def plainPostgres : Postgres ByteArray where
  dump db := (db,true)
  load b := some b
  tables db := db.size
  artifacts _ := []

def treeOf (entries : List (Path × Entry)) (h : (entries.map Prod.fst).Nodup)
    (hnamed : ∀ p ∈ entries.map Prod.fst, p ≠ [] ∧ ∀ name ∈ p, '/' ∉ name.toList)
    (hclosed : ∀ p ∈ entries.map Prod.fst, ∀ q ∈ p.inits, q ≠ [] → q ≠ p →
      (q,Entry.directory) ∈ entries) : Tree :=
  ⟨entries,h,hnamed,fun p hp q hq hpre hne => hclosed p hp q ((List.mem_inits _ _).mpr hpre) hq hne⟩

/-- One artifact and one row. -/
def plainWorld : World ByteArray where
  artifacts := {
    path := ["state","artifacts"]
    tree := some (treeOf [(["ab"],.directory),(["ab","1"],.file ⟨#[7]⟩)] (by decide) (by decide)
      (by decide))}
  projectCheckpoints := {path := ["state","checkpoints"]}
  marker := {path := ["auth","enrolled"],entry := some (.file ⟨#[9]⟩)}
  database := ⟨#[1,2]⟩

/-- Empty targets. -/
def plainTargets : World ByteArray where
  artifacts := {path := ["new","artifacts"]}
  projectCheckpoints := {path := ["new","checkpoints"]}
  marker := {path := ["auth","new"]}
  database := ⟨#[]⟩

omit [Postgres DB] in
/-- Without its completion marker nothing is accepted. -/
theorem readSnapshot_unmarked {d : Tree} (h : d.file ["COMPLETE"] = none) :
    ∃ e, readSnapshot F digest d = .error e := by
  cases hr : readSnapshot F digest d with
  | error e => exact ⟨e,rfl⟩
  | ok files =>
    obtain ⟨marker,bytes,ha⟩ := readSnapshot_ok hr
    have hcomplete := ha.complete
    rw [h] at hcomplete
    cases hcomplete

theorem restore_refused {d : Tree} {e : String} (h : readSnapshot F digest d = .error e)
    (source : Path) (w' : World DB) : restore F digest source d w' = (w',.error e) := by
  rw [restore,h]

/-- What a crash of the backup leaves, at any point and with any part of what was not synchronised,
is refused before a target is touched, or it is the whole snapshot. -/
theorem crash_whole_or_refused {d : Tree}
    (hcrash : Journal.Crash (backup F digest createdAt destination occupied w).1 d.entryAt)
    (source : Path) (w' : World DB) :
    (∃ e, restore F digest source d w' = (w',.error e)) ∨
      (∃ n, (backup F digest createdAt destination occupied w).2 = .ok n) ∧
        ∀ p, p ≠ ["COMPLETE"] → d.entryAt p =
          Journal.content (backup F digest createdAt destination occupied w).1 p := by
  have hrefused : d.entryAt ["COMPLETE"] = none →
      ∃ e, restore F digest source d w' = (w',.error e) := fun h => by
    have hfile : d.file ["COMPLETE"] = none := by
      rw [Tree.file,h]
      rfl
    obtain ⟨e,he⟩ : ∃ e, readSnapshot F digest d = .error e := readSnapshot_unmarked hfile
    exact ⟨e,restore_refused he source w'⟩
  cases hr : (backup F digest createdAt destination occupied w).2 with
  | error e =>
    rw [backup_error hr] at hcrash
    exact Or.inl (hrefused (hcrash.absent (not_writes_snapshot (Or.inr rfl))))
  | ok n =>
    obtain ⟨_,hsteps⟩ := backup_ok hr
    have hbody : ¬Journal.Writes ((snapshot digest destination occupied w).1 ++
        [Journal.Step.put ["manifest.json"]
          (Entry.file (manifestOf F digest createdAt destination occupied w))]) ["COMPLETE"] := by
      rintro ⟨e,he⟩
      rcases List.mem_append.mp he with he | he
      · exact not_writes_snapshot (Or.inr rfl) ⟨e,he⟩
      · have hp := (Journal.Step.put.inj (List.mem_singleton.mp he)).1
        revert hp
        decide
    rw [hsteps] at hcrash
    refine (hcrash.published hbody).imp hrefused fun h => ⟨⟨n,rfl⟩,fun p hp => ?_⟩
    rw [h p hp,hsteps]
    refine (Journal.content_append_of_not_writes ?_).symm
    rintro ⟨e,he⟩
    simp only [List.mem_cons,List.not_mem_nil,or_false,reduceCtorEq,Journal.Step.put.injEq,
      false_or] at he
    exact hp he.1

/-- The dump was being written. -/
theorem crash_whole_or_refused_dump :
    letI := plainPostgres
    let d := treeOf [(["database.dump"],.file ⟨#[5]⟩)] (by decide) (by decide) (by decide)
    (∃ e, restore Unit plainDigest ["backup"] d plainTargets = (plainTargets,.error e)) ∨
      (∃ n, (backup Unit plainDigest "now" ["backup"] false plainWorld).2 = .ok n) ∧
        ∀ p, p ≠ ["COMPLETE"] → d.entryAt p =
          Journal.content (backup Unit plainDigest "now" ["backup"] false plainWorld).1 p := by
  let _ := plainPostgres
  refine crash_whole_or_refused ⟨1,fun key hkey => ?_⟩ _ _
  have hne : ["database.dump"] ≠ key := fun he => hkey (by rw [← he]; exact List.mem_cons_self)
  have hwritten : Journal.content [Journal.Step.put ["database.dump"] (Entry.file ⟨#[1,2]⟩)] key =
      none := by
    apply Journal.content_of_not_writes
    rintro ⟨e,he⟩
    exact hne (Journal.Step.put.inj (List.mem_singleton.mp he)).1.symm
  refine Eq.trans ?_ hwritten.symm
  simp [Tree.entryAt,treeOf,hne]

/-- What is changed in a snapshot, its manifest included, is refused before a target is touched. -/
theorem changed_refused (hd : Collisionless digest) {n : ℕ}
    (hb : (backup F digest createdAt destination occupied w).2 = .ok n) {d : Tree}
    (hmarker : d.entryAt ["COMPLETE"] =
      Journal.content (backup F digest createdAt destination occupied w).1 ["COMPLETE"])
    (source : Path) (w' : World DB) :
    (∃ e, restore F digest source d w' = (w',.error e)) ∨
      ∀ p c, d.file p = some c ↔
        Journal.content (backup F digest createdAt destination occupied w).1 p = some (.file c) := by
  cases hr : readSnapshot F digest d with
  | error e => exact Or.inl ⟨e,restore_refused hr source w'⟩
  | ok files =>
    right
    obtain ⟨marker,bytes,ha⟩ := readSnapshot_ok hr
    have hsaved := (saved_eq_some hb (p := ["COMPLETE"])).mpr (Or.inr (Or.inr ⟨rfl,rfl⟩))
    have hcomplete : d.file ["COMPLETE"] =
        some (digest (manifestOf F digest createdAt destination occupied w)).toUTF8 := by
      rw [Tree.file,hmarker,hsaved]
      rfl
    have hbytes : bytes = manifestOf F digest createdAt destination occupied w := by
      have hread := ha.complete
      rw [hcomplete,Option.bind_some,fromUTF8_toUTF8] at hread
      apply hd.injective
      rw [← ha.matched,← Option.some.inj hread,strip_digest hd]
    subst hbytes
    intro p c
    rw [saved_eq_some hb]
    by_cases hp₁ : p = ["manifest.json"]
    · subst hp₁
      rw [ha.manifest,Option.some.injEq]
      constructor
      · rintro rfl
        exact Or.inr (Or.inl ⟨rfl,rfl⟩)
      · rintro (h | ⟨_,h⟩ | ⟨h,_⟩)
        · exact absurd ⟨_,h⟩ (not_writes_snapshot (Or.inl rfl))
        · exact (Entry.file.inj h).symm
        · exact absurd h (by decide)
    by_cases hp₂ : p = ["COMPLETE"]
    · subst hp₂
      rw [hcomplete,Option.some.injEq]
      constructor
      · rintro rfl
        exact Or.inr (Or.inr ⟨rfl,rfl⟩)
      · rintro (h | ⟨h,_⟩ | ⟨_,h⟩)
        · exact absurd ⟨_,h⟩ (not_writes_snapshot (Or.inr rfl))
        · exact absurd h (by decide)
        · exact (Entry.file.inj h).symm
    · rw [ha.files_iff hd (backup_ok hb).1 ⟨hp₁,hp₂⟩]
      simp [hp₁,hp₂]

/-- The entries of the snapshot of the state, whose artifact may be another one. -/
def snapshotEntries (artifact : ByteArray) : List (Path × Entry) :=
  letI := plainPostgres
  let text := manifestOf Unit plainDigest "now" ["backup"] false plainWorld
  [(["database.dump"],.file ⟨#[1,2]⟩),(["artifacts"],.directory),(["artifacts","ab"],.directory),
    (["artifacts","ab","1"],.file artifact),(["project-checkpoints"],.directory),
    (["owner-enrolled"],.file ⟨#[9]⟩),(["manifest.json"],.file text),
    (["COMPLETE"],.file (plainDigest text).toUTF8)]

def plainSnapshot : Tree := treeOf (snapshotEntries ⟨#[7]⟩) (by decide) (by decide) (by decide)

def changedSnapshot : Tree := treeOf (snapshotEntries ⟨#[8]⟩) (by decide) (by decide) (by decide)

theorem plainSnapshot_saved :
    letI := plainPostgres
    ∀ p, plainSnapshot.entryAt p =
      Journal.content (backup Unit plainDigest "now" ["backup"] false plainWorld).1 p := by
  let _ := plainPostgres
  intro p
  apply Option.ext
  intro e
  have hb : (backup Unit plainDigest "now" ["backup"] false plainWorld).2 = .ok 3 := rfl
  rw [Tree.entryAt_eq_some,saved_eq_some hb]
  have hsteps : (snapshot plainDigest ["backup"] false plainWorld).1 =
      [.put ["database.dump"] (.file ⟨#[1,2]⟩),.put ["artifacts"] .directory,
        .put ["artifacts","ab"] .directory,.put ["artifacts","ab","1"] (.file ⟨#[7]⟩),
        .put ["project-checkpoints"] .directory,.put ["owner-enrolled"] (.file ⟨#[9]⟩)] := rfl
  rw [hsteps]
  simp [plainSnapshot,snapshotEntries,treeOf,or_assoc]

/-- An artifact was changed. -/
theorem changed_refused_artifact :
    letI := plainPostgres
    let d := changedSnapshot
    (∃ e, restore Unit plainDigest ["backup"] d plainTargets = (plainTargets,.error e)) ∨
      ∀ p c, d.file p = some c ↔ Journal.content
        (backup Unit plainDigest "now" ["backup"] false plainWorld).1 p = some (.file c) := by
  let _ := plainPostgres
  have hb : (backup Unit plainDigest "now" ["backup"] false plainWorld).2 = .ok 3 := rfl
  refine changed_refused plainDigest_collisionless hb ?_ _ _
  rw [← plainSnapshot_saved]
  rfl

/-- Nothing that was saved stops a copy. -/
theorem fault_snapshot (h : (snapshot digest destination occupied w).2 = .ok ()) {p : Path} {e : Entry}
    (hp : .put p e ∈ (snapshot digest destination occupied w).1) : e.fault = none := by
  obtain ⟨hsteps,_,hafault,hcfault,_⟩ := snapshot_ok h
  have hcopies : ∀ (name : String) (t : Tree), (∀ e ∈ t.entries, e.2.fault = none) →
      .put p e ∈ copies name t → e.fault = none := by
    intro name t ht hmem
    rcases mem_copies.mp hmem with ⟨_,rfl⟩ | ⟨q,_,hq⟩
    · rfl
    · exact ht _ hq
  rw [hsteps,List.mem_cons,List.mem_append,List.mem_append] at hp
  rcases hp with hp | hp | hp | hp
  · rw [(Journal.Step.put.inj hp).2]
    rfl
  · exact hcopies _ _ hafault hp
  · exact hcopies _ _ hcfault hp
  · unfold markerCopy at hp
    split at hp
    · rw [(Journal.Step.put.inj (List.mem_singleton.mp hp)).2]
      rfl
    · cases hp

/-- What a directory of the snapshot has is what the state directory had. -/
theorem mem_snapshot_iff (h : (snapshot digest destination occupied w).2 = .ok ()) {p : Path}
    {e : Entry} :
    (.put ("artifacts" :: p) e ∈ (snapshot digest destination occupied w).1 ∧ p ≠ [] ↔
      (p,e) ∈ w.artifacts.contents.entries) ∧
    (.put ("project-checkpoints" :: p) e ∈ (snapshot digest destination occupied w).1 ∧ p ≠ [] ↔
      (p,e) ∈ w.projectCheckpoints.contents.entries) := by
  obtain ⟨hsteps,_⟩ := snapshot_ok h
  have hmarker : ∀ {q : Path}, .put q e ∈ markerCopy w.marker → q = ["owner-enrolled"] := by
    intro q hq
    unfold markerCopy at hq
    split at hq
    · exact (Journal.Step.put.inj (List.mem_singleton.mp hq)).1
    · cases hq
  rw [hsteps]
  simp only [List.mem_cons,List.mem_append,mem_copies,Journal.Step.put.injEq]
  constructor
  · constructor
    · rintro ⟨⟨h,_⟩ | (⟨h,_⟩ | ⟨q,h,hq⟩) | (⟨h,_⟩ | ⟨q,h,_⟩) | h,hp⟩
      · exact absurd (List.cons.inj h).1 (by decide)
      · exact absurd (List.cons.inj h).2 hp
      · rw [(List.cons.inj h).2]
        exact hq
      · exact absurd (List.cons.inj h).1 (by decide)
      · exact absurd (List.cons.inj h).1 (by decide)
      · exact absurd (List.cons.inj (hmarker h)).1 (by decide)
    · exact fun hp => ⟨Or.inr (Or.inl (Or.inr ⟨p,rfl,hp⟩)),(Tree.named_of_mem hp).1⟩
  · constructor
    · rintro ⟨⟨h,_⟩ | (⟨h,_⟩ | ⟨q,h,_⟩) | (⟨h,_⟩ | ⟨q,h,hq⟩) | h,hp⟩
      · exact absurd (List.cons.inj h).1 (by decide)
      · exact absurd (List.cons.inj h).1 (by decide)
      · exact absurd (List.cons.inj h).1 (by decide)
      · exact absurd (List.cons.inj h).2 hp
      · rw [(List.cons.inj h).2]
        exact hq
      · exact absurd (List.cons.inj (hmarker h)).1 (by decide)
    · exact fun hp => ⟨Or.inr (Or.inr (Or.inl (Or.inr ⟨p,rfl,hp⟩))),(Tree.named_of_mem hp).1⟩

theorem mem_snapshot_marker (h : (snapshot digest destination occupied w).2 = .ok ()) {c : ByteArray} :
    .put ["owner-enrolled"] (.file c) ∈ (snapshot digest destination occupied w).1 ↔
      w.marker.content = some c := by
  obtain ⟨hsteps,_⟩ := snapshot_ok h
  rw [hsteps]
  simp only [List.mem_cons,List.mem_append,mem_copies,Journal.Step.put.injEq]
  unfold markerCopy
  cases w.marker.content with
  | none => simp
  | some b => simp [eq_comm]

/-- The whole snapshot is accepted. -/
theorem readSnapshot_saved (hd : Collisionless digest) {n : ℕ}
    (hb : (backup F digest createdAt destination occupied w).2 = .ok n) {d : Tree}
    (hsame : ∀ p, d.entryAt p =
      Journal.content (backup F digest createdAt destination occupied w).1 p) :
    ∃ files, readSnapshot F digest d = .ok files := by
  obtain ⟨hbody,_⟩ := backup_ok hb
  have hmem : ∀ {p : Path} {e : Entry}, (p,e) ∈ d.entries ↔
      Journal.content (backup F digest createdAt destination occupied w).1 p = some e := by
    intro p e
    rw [← hsame,Tree.entryAt_eq_some]
  have hnofault : d.entries.any (fun e => e.2.fault.isSome) = false := by
    rw [List.any_eq_false]
    intro e he
    rcases (saved_eq_some hb).mp (hmem.mp he) with h | ⟨_,h⟩ | ⟨_,h⟩
    · simp [fault_snapshot hbody h]
    · simp [h,Entry.fault]
    · simp [h,Entry.fault]
  have hcomplete : d.file ["COMPLETE"] =
      some (digest (manifestOf F digest createdAt destination occupied w)).toUTF8 :=
    Tree.file_eq_some.mpr (hmem.mpr ((saved_eq_some hb).mpr (Or.inr (Or.inr ⟨rfl,rfl⟩))))
  have hbytes : d.file ["manifest.json"] =
      some (manifestOf F digest createdAt destination occupied w) :=
    Tree.file_eq_some.mpr (hmem.mpr ((saved_eq_some hb).mpr (Or.inr (Or.inl ⟨rfl,rfl⟩))))
  obtain ⟨files,hfiles⟩ : ∃ files, files = (listing digest
      (snapshot digest destination occupied w).1).map fun f => (f.1,Value.str (F := F) f.2) := ⟨_,rfl⟩
  have hlisted : ∀ f, f ∈ files ↔ ∃ p c, .put p (.file c) ∈
      (snapshot digest destination occupied w).1 ∧ f = (posix p,.str (digest c)) := by
    intro f
    rw [hfiles,List.mem_map]
    constructor
    · rintro ⟨⟨name,d'⟩,hf,rfl⟩
      obtain ⟨p,c,hp,rfl,rfl⟩ := mem_listing.mp hf
      exact ⟨p,c,hp,rfl⟩
    · rintro ⟨p,c,hp,rfl⟩
      exact ⟨_,mem_listing.mpr ⟨p,c,hp,rfl,rfl⟩,rfl⟩
  have hall : files.all (d.holds digest) = true := by
    rw [List.all_eq_true]
    intro f hf
    obtain ⟨p,c,hp,rfl⟩ := (hlisted f).mp hf
    have hnamed : d.fileNamed (posix p) = some c := Tree.fileNamed_eq_some.mpr
      ⟨p,rfl,hmem.mpr ((saved_eq_some hb).mpr (Or.inl hp))⟩
    simp [Tree.holds,hnamed]
  have hdump : (files.map (·.1)).contains "database.dump" = true := by
    rw [List.contains_iff_mem,List.mem_map]
    refine ⟨_,(hlisted _).mpr ⟨["database.dump"],(Postgres.dump w.database).1,?_,rfl⟩,rfl⟩
    rw [(snapshot_ok hbody).1]
    exact List.mem_cons_self
  have hactual : (((d.entries.filter fun e => e.2.content.isSome).map fun e => posix e.1).filter
      fun n => n ≠ "COMPLETE" ∧ n ≠ "manifest.json").toFinset = (files.map (·.1)).toFinset := by
    ext name
    simp only [List.mem_toFinset,List.mem_filter,List.mem_map,decide_eq_true_eq]
    constructor
    · rintro ⟨⟨⟨p,e⟩,⟨hp,hfile⟩,rfl⟩,hne₁,hne₂⟩
      rcases (saved_eq_some hb).mp (hmem.mp hp) with h | ⟨h,_⟩ | ⟨h,_⟩
      · cases e with
        | file c => exact ⟨_,(hlisted _).mpr ⟨p,c,h,rfl⟩,rfl⟩
        | _ => cases hfile
      · exact absurd (by simp [h,posix]) hne₂
      · exact absurd (by simp [h,posix]) hne₁
    · rintro ⟨f,hf,rfl⟩
      obtain ⟨p,c,hp,rfl⟩ := (hlisted f).mp hf
      refine ⟨⟨(p,.file c),⟨hmem.mpr ((saved_eq_some hb).mpr (Or.inl hp)),rfl⟩,rfl⟩,?_⟩
      have hone : ∀ other : String, '/' ∉ other.toList → posix p = other → p = [other] := by
        intro other hother he
        refine posix_inj (named_snapshot hbody hp) ⟨by simp,fun n hn => ?_⟩ (he.trans (by simp [posix]))
        rw [List.mem_singleton.mp hn]
        exact hother
      exact ⟨fun he => not_writes_snapshot (Or.inr (hone _ (by decide) he)) ⟨_,hp⟩,
        fun he => not_writes_snapshot (Or.inl (hone _ (by decide) he)) ⟨_,hp⟩⟩
  refine ⟨files,?_⟩
  rw [readSnapshot,if_neg (by simp [hnofault]),hcomplete]
  dsimp only
  rw [fromUTF8_toUTF8,hbytes]
  dsimp only
  rw [if_neg (by rw [strip_digest hd]; simp),manifestOf,parse_manifestText (nodup_listing hbody)]
  dsimp only [manifest]
  have hfield : ([("version",.int 1),("created_at",.str createdAt),("files",.obj files),
      ("scope",.str scope)] : List (String × Value F)).lookup "files" = some (.obj files) := by
    simp [List.lookup]
  have hversion : (([("version",.int 1),("created_at",.str createdAt),("files",.obj files),
      ("scope",.str scope)] : List (String × Value F)).lookup "version").any isOne = true := by
    simp [List.lookup,isOne]
  rw [← hfiles,hfield]
  dsimp only
  rw [hversion,hdump,hall,if_pos hactual]
  rfl

theorem verifyArtifacts_congr {rows : List ArtifactRow} {t t' : Tree}
    (h : ∀ name, t.fileNamed name = t'.fileNamed name) :
    verifyArtifacts digest rows t = verifyArtifacts digest rows t' := by
  induction rows with
  | nil => rfl
  | cons row rows ih => rw [verifyArtifacts,verifyArtifacts,h,ih]

/-- A restore of the whole snapshot into empty targets gives the state back that was saved: the
database, every file and directory of the state directories, and the marker of the owner. -/
theorem restore_gives_back (hd : Collisionless digest)
    (htool : ∀ db : DB, (Postgres.dump db).2 = true → Postgres.load (Postgres.dump db).1 = some db)
    {n : ℕ} (hb : (backup F digest createdAt destination occupied w).2 = .ok n) {d : Tree}
    (hsame : ∀ p, d.entryAt p =
      Journal.content (backup F digest createdAt destination occupied w).1 p)
    {source : Path} {w' : World DB} (htargets : targetsFault source w' = none) :
    let r := restore F digest source d w'
    r.2 = .ok () ∧ r.1.database = w.database ∧
      (∀ p, r.1.artifacts.contents.entryAt p = w.artifacts.contents.entryAt p) ∧
      (∀ p, r.1.projectCheckpoints.contents.entryAt p = w.projectCheckpoints.contents.entryAt p) ∧
      r.1.marker.content = w.marker.content := by
  obtain ⟨hbody,_⟩ := backup_ok hb
  obtain ⟨hsteps,hdumped,_,_,hverify⟩ := snapshot_ok hbody
  have hmem : ∀ {p : Path} {e : Entry}, (p,e) ∈ d.entries ↔
      Journal.content (backup F digest createdAt destination occupied w).1 p = some e := by
    intro p e
    rw [← hsame,Tree.entryAt_eq_some]
  have hin : ∀ {p : Path} {e : Entry}, p ≠ ["manifest.json"] → p ≠ ["COMPLETE"] →
      ((p,e) ∈ d.entries ↔ .put p e ∈ (snapshot digest destination occupied w).1) := by
    intro p e h₁ h₂
    rw [hmem,saved_eq_some hb]
    simp [h₁,h₂]
  have hfile : d.file ["database.dump"] = some (Postgres.dump w.database).1 := by
    refine Tree.file_eq_some.mpr ((hin (by decide) (by decide)).mpr ?_)
    rw [hsteps]
    exact List.mem_cons_self
  have hartifacts : ∀ p e, (p,e) ∈ (d.sub "artifacts").entries ↔
      (p,e) ∈ w.artifacts.contents.entries := fun p e => by
    rw [← (mem_snapshot_iff hbody).1,← hin (by simp) (by simp)]
    exact Tree.mem_below
  have hcheckpoints : ∀ p e, (p,e) ∈ (d.sub "project-checkpoints").entries ↔
      (p,e) ∈ w.projectCheckpoints.contents.entries := fun p e => by
    rw [← (mem_snapshot_iff hbody).2,← hin (by simp) (by simp)]
    exact Tree.mem_below
  have hcopied : ∀ name, copied (d.sub name) = .ok (d.sub name) := by
    intro name
    apply copied_of_no_fault
    intro e he
    rcases (saved_eq_some hb).mp (hmem.mp (Tree.mem_below.mp he).1) with h | ⟨_,h⟩ | ⟨_,h⟩
    · exact fault_snapshot hbody h
    · rw [h]
      rfl
    · rw [h]
      rfl
  have hverified : verifyArtifacts digest (Postgres.artifacts w.database) (d.sub "artifacts") = .ok () := by
    rw [← hverify]
    exact verifyArtifacts_congr (Tree.fileNamed_congr fun p c => hartifacts p _)
  have hmarker : d.file ["owner-enrolled"] = w.marker.content := by
    apply Option.ext
    intro c
    rw [Tree.file_eq_some,hin (by decide) (by decide),mem_snapshot_marker hbody]
  have hsub : ∀ {t t' : Tree}, (∀ p e, (p,e) ∈ t.entries ↔ (p,e) ∈ t'.entries) →
      ∀ p, t.entryAt p = t'.entryAt p := by
    intro t t' h p
    apply Option.ext
    intro e
    rw [Tree.entryAt_eq_some,Tree.entryAt_eq_some,h]
  have hnew : w'.marker.entry = none := by
    by_contra hne
    have hsome : w'.marker.entry.isSome = true := Option.isSome_iff_ne_none.mpr hne
    unfold targetsFault at htargets
    rw [if_pos hsome] at htargets
    split at htargets
    · cases htargets
    · split at htargets
      · cases htargets
      · split at htargets <;> cases htargets
  obtain ⟨files,hread⟩ := readSnapshot_saved hd hb hsame
  rw [restore,hread]
  dsimp only
  rw [htargets,hfile,Option.bind_some,htool _ hdumped]
  dsimp only
  rw [hcopied,hcopied]
  dsimp only
  rw [hverified,hmarker]
  dsimp only
  cases hc : w.marker.content with
  | none => exact ⟨rfl,rfl,hsub hartifacts,hsub hcheckpoints,by rw [Marker.content,hnew]; rfl⟩
  | some c => exact ⟨rfl,rfl,hsub hartifacts,hsub hcheckpoints,rfl⟩

theorem restore_gives_back_plain :
    letI := plainPostgres
    let r := restore Unit plainDigest ["backup"] plainSnapshot plainTargets
    r.2 = .ok () ∧ r.1.database = plainWorld.database ∧
      (∀ p, r.1.artifacts.contents.entryAt p = plainWorld.artifacts.contents.entryAt p) ∧
      (∀ p, r.1.projectCheckpoints.contents.entryAt p =
        plainWorld.projectCheckpoints.contents.entryAt p) ∧
      r.1.marker.content = plainWorld.marker.content := by
  have hsaved := plainSnapshot_saved
  refine @restore_gives_back plainDigest ByteArray plainPostgres ["backup"] false plainWorld Unit _ "now"
    plainDigest_collisionless (fun _ _ => rfl) 3 rfl plainSnapshot hsaved ["backup"] plainTargets ?_
  decide

end

end

end Maintenance
end Atlas
