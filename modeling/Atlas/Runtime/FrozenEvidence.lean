import Atlas.Lib.JsonRoundTrip
import Atlas.Lib.RuleReading
import Atlas.Runtime.Observations

/-! What an observation holds when it is frozen is found again: no bytes stay inline, every payload is
an artifact that the frozen value names, and the exact value is read back in pages. -/
namespace Atlas
namespace Observations

open Base64 (fromUTF8_toUTF8)
open JsonText (FloatText Value PlainItems PlainFields putPair)
open RuleScript (lookup_eq_some_iff)

theorem bind_eq_ok {ε α β : Type} {x : Except ε α} {f : α → Except ε β} {b : β}
    (h : x >>= f = .ok b) : ∃ a, x = .ok a ∧ f a = .ok b := by
  cases x with
  | error e => cases h
  | ok a => exact ⟨a,rfl,h⟩

section

variable {F : Type}

/-! Dictionaries. -/

theorem lookup_cons (p : String × Value F) (d : Fields F) (key : String) :
    List.lookup key (p :: d) = if key = p.1 then some p.2 else d.lookup key := by
  obtain ⟨k,v⟩ := p
  by_cases h : key = k
  · simp [h]
  · have hbeq : (key == k) = false := by simpa using h
    simp [List.lookup_cons,h,hbeq]

theorem lookup_putPair (d : Fields F) (p : String × Value F) (key : String) :
    (putPair d p).lookup key = if key = p.1 then some p.2 else d.lookup key := by
  induction d with
  | nil => exact lookup_cons p [] key
  | cons q d ih =>
    by_cases hq : q.1 = p.1
    · rw [putPair,if_pos hq,lookup_cons,lookup_cons,hq]
      split <;> rfl
    · rw [putPair,if_neg hq,lookup_cons,lookup_cons,ih]
      by_cases h : key = q.1
      · rw [if_pos h,if_pos h,if_neg (h ▸ hq)]
      · rw [if_neg h,if_neg h]

theorem mem_putPair {d : Fields F} {p q : String × Value F} (h : q ∈ putPair d p) :
    q = p ∨ q ∈ d := by
  induction d with
  | nil => simpa [putPair] using h
  | cons r d ih =>
    rw [putPair] at h
    split at h
    · rcases List.mem_cons.mp h with h | h
      · exact .inl h
      · exact .inr (List.mem_cons_of_mem _ h)
    · rcases List.mem_cons.mp h with h | h
      · exact .inr (h ▸ List.mem_cons_self)
      · exact (ih h).imp_right (List.mem_cons_of_mem _)

theorem nodup_putPair {d : Fields F} (p : String × Value F) (h : (d.map Prod.fst).Nodup) :
    ((putPair d p).map Prod.fst).Nodup := by
  induction d with
  | nil => simp [putPair]
  | cons r d ih =>
    rw [List.map_cons,List.nodup_cons] at h
    rw [putPair]
    split
    next hr => simpa [← hr] using h
    next hr =>
      rw [List.map_cons,List.nodup_cons]
      refine ⟨fun hin => ?_,ih h.2⟩
      obtain ⟨q,hq,hkey⟩ := List.mem_map.mp hin
      rcases mem_putPair hq with rfl | hq
      · exact hr hkey.symm
      · exact h.1 (hkey ▸ List.mem_map_of_mem hq)

theorem mem_update {d new : Fields F} {q : String × Value F} (h : q ∈ update d new) :
    q ∈ new ∨ q ∈ d := by
  induction new generalizing d with
  | nil => exact .inr h
  | cons p new ih =>
    rcases ih h with h | h
    · exact .inl (List.mem_cons_of_mem _ h)
    · rcases mem_putPair h with rfl | h
      · exact .inl List.mem_cons_self
      · exact .inr h

theorem nodup_update {d : Fields F} (new : Fields F) (h : (d.map Prod.fst).Nodup) :
    ((update d new).map Prod.fst).Nodup := by
  induction new generalizing d with
  | nil => exact h
  | cons p new ih => exact ih (nodup_putPair p h)

theorem lookup_update_of_not_mem {d new : Fields F} {key : String} (h : key ∉ new.map Prod.fst) :
    (update d new).lookup key = d.lookup key := by
  induction new generalizing d with
  | nil => rfl
  | cons p new ih =>
    rw [List.map_cons,List.mem_cons,not_or] at h
    rw [update,List.foldl_cons]
    exact (ih h.2).trans (by rw [lookup_putPair,if_neg h.1])

theorem plainFields_iff {fields : Fields F} : PlainFields fields ↔ ∀ p ∈ fields, p.2.Plain := by
  induction fields with
  | nil => simp [PlainFields]
  | cons p fields ih =>
    obtain ⟨key,v⟩ := p
    simp [PlainFields,ih]

/-! Values without bytes. -/

mutual

/-- No field is named `data_base64` and no text has a NUL character. -/
def Clean : Value F → Prop
  | .str s => hasNul s = false
  | .arr items => CleanItems items
  | .obj fields => CleanFields fields
  | _ => True

def CleanItems : List (Value F) → Prop
  | [] => True
  | v :: vs => Clean v ∧ CleanItems vs

def CleanFields : Fields F → Prop
  | [] => True
  | (key,v) :: fields => key ≠ "data_base64" ∧ Clean v ∧ CleanFields fields

end

theorem cleanFields_iff {fields : Fields F} :
    CleanFields fields ↔ ∀ p ∈ fields, p.1 ≠ "data_base64" ∧ Clean p.2 := by
  induction fields with
  | nil => simp [CleanFields]
  | cons p fields ih =>
    obtain ⟨key,v⟩ := p
    simp [CleanFields,ih,and_assoc]

theorem hasNul_preview (t : String) : hasNul (preview t) = false := by
  have hmap : ∀ c ∈ (t.toList.map fun c => if c = Char.ofNat 0 then Char.ofNat 65533 else c),
      c ≠ Char.ofNat 0 := by
    intro c hc
    obtain ⟨b,-,rfl⟩ := List.mem_map.mp hc
    split
    · decide
    · assumption
  simp only [hasNul,preview,String.toList_ofList,List.contains_eq_mem,decide_eq_false_iff_not]
  exact fun h => hmap _ (List.mem_of_mem_take h) rfl

variable [StoreRuntime F]

/-- The keys of a reference. -/
def referenceKeys : List String := ["artifact_id","snapshot_sha256","snapshot_size_bytes"]

theorem keys_reference (id : ℕ) (a : Artifact F) : (reference id a).map Prod.fst = referenceKeys := rfl

/-! What a frozen value is. -/

/-- A reference to an artifact that holds the bytes. -/
def Names (s : Store F) (r : Fields F) (data : ByteArray) : Prop :=
  ∃ id a, s.artifacts[id]? = some a ∧ a.data = data ∧ a.sha256 = StoreRuntime.sha256 F data ∧
    r = reference id a

mutual

/-- The frozen value says what the value says, with artifacts in the place of bytes. -/
def Kept (s : Store F) : Value F → Value F → Prop
  | .str t, w => if hasNul t then ∃ r, w = frozenText r t ∧ Names s r t.toUTF8 else w = .str t
  | .arr items, w => ∃ ws, w = .arr ws ∧ KeptItems s items ws
  | .obj fields, w => ∃ kept, KeptFields s fields kept ∧
      ((fields.lookup "data_base64" = none ∧ w = .obj kept) ∨
        ∃ coded bytes r, fields.lookup "data_base64" = some (.str coded) ∧
          Base64.decode coded.toList = some bytes ∧ Names s r ⟨bytes.toArray⟩ ∧
          w = .obj (update kept r))
  | v, w => w = v

def KeptItems (s : Store F) : List (Value F) → List (Value F) → Prop
  | [], ws => ws = []
  | v :: vs, ws => ∃ w rest, ws = w :: rest ∧ Kept s v w ∧ KeptItems s vs rest

def KeptFields (s : Store F) : Fields F → Fields F → Prop
  | [], ws => ws = []
  | (key,v) :: fields, ws =>
      if key = "data_base64" then KeptFields s fields ws
      else ∃ w rest, ws = (key,w) :: rest ∧ Kept s v w ∧ KeptFields s fields rest

end

/-- Every artifact is described as it is. -/
def Intact (s : Store F) : Prop := ∀ a ∈ s.artifacts, a.sha256 = StoreRuntime.sha256 F a.data ∧
  a.sizeBytes = a.data.size

/-- Artifacts were added at most. -/
structure Froze (s s' : Store F) : Prop where
  intact : Intact s'
  artifacts : s.artifacts <+: s'.artifacts
  turns : s'.turns = s.turns
  transcripts : s'.transcripts = s.transcripts

theorem Froze.refl {s : Store F} (h : Intact s) : Froze s s := ⟨h,List.prefix_rfl,rfl,rfl⟩

theorem Froze.trans {s s' s'' : Store F} (h : Froze s s') (h' : Froze s' s'') : Froze s s'' :=
  ⟨h'.intact,h.artifacts.trans h'.artifacts,h'.turns.trans h.turns,
    h'.transcripts.trans h.transcripts⟩

theorem at_grown {α : Type} {l l' : List α} (h : l <+: l') {i : ℕ} {a : α}
    (hi : l[i]? = some a) : l'[i]? = some a := by
  obtain ⟨t,rfl⟩ := h
  rw [List.getElem?_append_left (List.getElem?_eq_some_iff.mp hi).1,hi]

theorem Names.grown {s s' : Store F} {r : Fields F} {data : ByteArray}
    (hs : s.artifacts <+: s'.artifacts) (h : Names s r data) : Names s' r data := by
  obtain ⟨id,a,ha,h⟩ := h
  exact ⟨id,a,at_grown hs ha,h⟩

mutual

theorem Kept.grown {s s' : Store F} (hs : s.artifacts <+: s'.artifacts) :
    ∀ {v w : Value F}, Kept s v w → Kept s' v w
  | .null,_,h => h
  | .bool _,_,h => h
  | .int _,_,h => h
  | .float _,_,h => h
  | .constant _,_,h => h
  | .str t,w,h => by
    rw [Kept] at h ⊢
    split
    next hnul =>
      rw [if_pos hnul] at h
      obtain ⟨r,hw,hr⟩ := h
      exact ⟨r,hw,hr.grown hs⟩
    next hnul => rwa [if_neg hnul] at h
  | .arr items,w,h => by
    rw [Kept] at h ⊢
    obtain ⟨ws,hw,hitems⟩ := h
    exact ⟨ws,hw,KeptItems.grown hs hitems⟩
  | .obj fields,w,h => by
    rw [Kept] at h ⊢
    obtain ⟨kept,hfields,h⟩ := h
    refine ⟨kept,KeptFields.grown hs hfields,h.imp_right ?_⟩
    rintro ⟨coded,bytes,r,hlookup,hcoded,hr,hw⟩
    exact ⟨coded,bytes,r,hlookup,hcoded,hr.grown hs,hw⟩

theorem KeptItems.grown {s s' : Store F} (hs : s.artifacts <+: s'.artifacts) :
    ∀ {vs ws : List (Value F)}, KeptItems s vs ws → KeptItems s' vs ws
  | [],_,h => h
  | v :: vs,ws,h => by
    rw [KeptItems] at h ⊢
    obtain ⟨w,rest,hws,hv,hvs⟩ := h
    exact ⟨w,rest,hws,Kept.grown hs hv,KeptItems.grown hs hvs⟩

theorem KeptFields.grown {s s' : Store F} (hs : s.artifacts <+: s'.artifacts) :
    ∀ {fields kept : Fields F}, KeptFields s fields kept → KeptFields s' fields kept
  | [],_,h => h
  | (key,v) :: fields,kept,h => by
    rw [KeptFields] at h ⊢
    split
    next hkey =>
      rw [if_pos hkey] at h
      exact KeptFields.grown hs h
    next hkey =>
      rw [if_neg hkey] at h
      obtain ⟨w,rest,hkept,hv,hfields⟩ := h
      exact ⟨w,rest,hkept,Kept.grown hs hv,KeptFields.grown hs hfields⟩

end

/-! Freezing. -/

theorem blob_names {data : ByteArray} {mediaType : String} {name : Option (Value F)}
    {provenance r : Fields F} {s s' : Store F} (hs : Intact s)
    (h : blob data mediaType name provenance s = .ok (r,s')) : Froze s s' ∧ Names s' r data := by
  unfold blob at h
  split at h
  · cases h
  next filename hfilename =>
    dsimp only at h
    split at h
    · cases h
    · cases h
      refine ⟨⟨fun a ha => ?_,List.prefix_append _ _,rfl,rfl⟩,_,_,?_,rfl,rfl,rfl⟩
      · rcases List.mem_append.mp ha with ha | ha
        · exact hs a ha
        · simp only [List.mem_singleton] at ha
          simp [ha]
      · simp

theorem existing_getElem {fields : Fields F} {s : Store F} {id : ℕ} {a : Artifact F}
    (h : existing fields s = .ok (some (id,a))) : s.artifacts[id]? = some a := by
  unfold existing at h
  split at h
  next text hlookup =>
    have hsome := Except.ok.inj h
    obtain ⟨n,-,hn⟩ := Option.bind_eq_some_iff.mp hsome
    obtain ⟨b,hb,hpair⟩ := Option.map_eq_some_iff.mp hn
    cases hpair
    exact hb
  next v hlookup hv => split at h <;> cases h
  · cases h

theorem freezePayload_names (hsha : Function.Injective (StoreRuntime.sha256 F))
    {provenance fields result w : Fields F} {payload : Value F} {s s' : Store F} (hs : Intact s)
    (h : freezePayload provenance fields result payload s = .ok (w,s')) :
    Froze s s' ∧ ∃ coded bytes r, payload = .str coded ∧ Base64.decode coded.toList = some bytes ∧
      Names s' r ⟨bytes.toArray⟩ ∧ w = update result r := by
  unfold freezePayload at h
  split at h
  next coded =>
    split at h
    · cases h
    next bytes hbytes =>
      obtain ⟨found,hfound,h⟩ := bind_eq_ok h
      dsimp only at h
      split at h
      next id a hfilter =>
        cases h
        rw [Option.filter_eq_some_iff] at hfilter
        obtain ⟨rfl,hdigest⟩ := hfilter
        have ha := existing_getElem hfound
        have hdata := hs a (List.mem_of_getElem? ha)
        rw [beq_iff_eq,hdata.1] at hdigest
        have heq := hsha hdigest
        refine ⟨Froze.refl hs,coded,bytes,_,rfl,hbytes,⟨id,a,ha,heq.symm,?_,rfl⟩,rfl⟩
        rw [hdata.1,heq]
      · obtain ⟨⟨r,t⟩,hblob,h⟩ := bind_eq_ok h
        cases h
        have hnames := blob_names hs hblob
        exact ⟨hnames.1,coded,bytes,r,rfl,hbytes,hnames.2,rfl⟩
  · cases h

mutual

theorem freeze_kept (hsha : Function.Injective (StoreRuntime.sha256 F)) (p : Fields F) :
    ∀ (v : Value F) {s s' : Store F} {w : Value F}, Intact s → freeze p v s = .ok (w,s') →
      Froze s s' ∧ Kept s' v w
  | .null,s,s',w,hs,h => by cases h; exact ⟨Froze.refl hs,rfl⟩
  | .bool b,s,s',w,hs,h => by cases h; exact ⟨Froze.refl hs,rfl⟩
  | .int n,s,s',w,hs,h => by cases h; exact ⟨Froze.refl hs,rfl⟩
  | .float f,s,s',w,hs,h => by cases h; exact ⟨Froze.refl hs,rfl⟩
  | .constant c,s,s',w,hs,h => by cases h; exact ⟨Froze.refl hs,rfl⟩
  | .str t,s,s',w,hs,h => by
    rw [freeze] at h
    rw [Kept]
    split at h
    next hnul =>
      obtain ⟨⟨r,s''⟩,hblob,h⟩ := bind_eq_ok h
      cases h
      have hnames := blob_names hs hblob
      rw [if_pos hnul]
      exact ⟨hnames.1,r,rfl,hnames.2⟩
    next hnul =>
      cases h
      rw [if_neg hnul]
      exact ⟨Froze.refl hs,rfl⟩
  | .arr items,s,s',w,hs,h => by
    rw [freeze] at h
    obtain ⟨⟨ws,s''⟩,hitems,h⟩ := bind_eq_ok h
    cases h
    have hkept := freezeItems_kept hsha p items hs hitems
    exact ⟨hkept.1,ws,rfl,hkept.2⟩
  | .obj fields,s,s',w,hs,h => by
    rw [freeze] at h
    obtain ⟨⟨kept,s''⟩,hfields,h⟩ := bind_eq_ok h
    have hkept := freezeFields_kept hsha p fields hs hfields
    dsimp only at h
    split at h
    next hnone =>
      cases h
      exact ⟨hkept.1,kept,hkept.2,.inl ⟨hnone,rfl⟩⟩
    next payload hpayload =>
      obtain ⟨⟨result,s3⟩,hfreeze,h⟩ := bind_eq_ok h
      cases h
      obtain ⟨hfroze,coded,bytes,r,rfl,hbytes,hr,rfl⟩ := freezePayload_names hsha hkept.1.intact hfreeze
      exact ⟨hkept.1.trans hfroze,kept,KeptFields.grown hfroze.artifacts hkept.2,
        .inr ⟨coded,bytes,r,hpayload,hbytes,hr,rfl⟩⟩

theorem freezeItems_kept (hsha : Function.Injective (StoreRuntime.sha256 F)) (p : Fields F) :
    ∀ (vs : List (Value F)) {s s' : Store F} {ws : List (Value F)}, Intact s →
      freezeItems p vs s = .ok (ws,s') → Froze s s' ∧ KeptItems s' vs ws
  | [],s,s',ws,hs,h => by cases h; exact ⟨Froze.refl hs,rfl⟩
  | v :: vs,s,s',ws,hs,h => by
    rw [freezeItems] at h
    obtain ⟨⟨w,s1⟩,hv,h⟩ := bind_eq_ok h
    obtain ⟨⟨rest,s2⟩,hvs,h⟩ := bind_eq_ok h
    cases h
    have hone := freeze_kept hsha p v hs hv
    have hmore := freezeItems_kept hsha p vs hone.1.intact hvs
    exact ⟨hone.1.trans hmore.1,w,rest,rfl,hone.2.grown hmore.1.artifacts,hmore.2⟩

theorem freezeFields_kept (hsha : Function.Injective (StoreRuntime.sha256 F)) (p : Fields F) :
    ∀ (fields : Fields F) {s s' : Store F} {kept : Fields F}, Intact s →
      freezeFields p fields s = .ok (kept,s') → Froze s s' ∧ KeptFields s' fields kept
  | [],s,s',kept,hs,h => by cases h; exact ⟨Froze.refl hs,rfl⟩
  | (key,v) :: fields,s,s',kept,hs,h => by
    rw [freezeFields] at h
    rw [KeptFields]
    split at h
    next hkey =>
      rw [if_pos hkey]
      exact freezeFields_kept hsha p fields hs h
    next hkey =>
      obtain ⟨⟨w,s1⟩,hv,h⟩ := bind_eq_ok h
      obtain ⟨⟨rest,s2⟩,hfields,h⟩ := bind_eq_ok h
      cases h
      rw [if_neg hkey]
      have hone := freeze_kept hsha p v hs hv
      have hmore := freezeFields_kept hsha p fields hone.1.intact hfields
      exact ⟨hone.1.trans hmore.1,w,rest,rfl,hone.2.grown hmore.1.artifacts,hmore.2⟩

end

/-! A frozen value has no bytes and no key twice. -/

theorem hasNul_false {t : String} (h : Char.ofNat 0 ∉ t.toList) : hasNul t = false := by
  simpa [hasNul] using h

theorem Names.sound {s : Store F} {r : Fields F} {data : ByteArray} (h : Names s r data) :
    r.map Prod.fst = referenceKeys ∧ PlainFields r ∧ CleanFields r := by
  obtain ⟨id,a,-,-,hsha,rfl⟩ := h
  refine ⟨rfl,⟨trivial,trivial,trivial,trivial⟩,by decide,?_,by decide,?_,by decide,trivial,trivial⟩
  · exact hasNul_false (StoreRuntime.uuid_plain id)
  · rw [Clean,hsha]
    exact hasNul_false (StoreRuntime.sha256_plain data)

theorem KeptFields.keys {s : Store F} : ∀ {fields kept : Fields F}, KeptFields s fields kept →
    kept.map Prod.fst = (fields.map Prod.fst).filter (· ≠ "data_base64")
  | [],kept,h => by
    rw [KeptFields] at h
    rw [h]
    rfl
  | (key,v) :: fields,kept,h => by
    rw [KeptFields] at h
    split at h
    next hkey => simp [hkey,h.keys]
    next hkey =>
      obtain ⟨w,rest,rfl,-,hfields⟩ := h
      simp [hkey,hfields.keys]

mutual

theorem Kept.sound {s : Store F} : ∀ {v w : Value F}, v.Plain → Kept s v w → w.Plain ∧ Clean w
  | .null,w,_,h => by cases h; exact ⟨trivial,trivial⟩
  | .bool b,w,_,h => by cases h; exact ⟨trivial,trivial⟩
  | .int n,w,_,h => by cases h; exact ⟨trivial,trivial⟩
  | .float f,w,_,h => by cases h; exact ⟨trivial,trivial⟩
  | .constant c,w,_,h => by cases h; exact ⟨trivial,trivial⟩
  | .str t,w,_,h => by
    rw [Kept] at h
    split at h
    next hnul =>
      obtain ⟨r,rfl,hr⟩ := h
      obtain ⟨hkeys,hplain,hclean⟩ := hr.sound
      have hnodup : (r.map Prod.fst).Nodup := by rw [hkeys]; decide
      refine ⟨⟨?_,⟨hnodup,hplain⟩,trivial,trivial,trivial,trivial⟩,by decide,hclean,by decide,?_,
        by decide,trivial,by decide,hasNul_preview t,trivial⟩
      · simp
      · exact hasNul_false (by decide)
    next hnul =>
      subst h
      exact ⟨trivial,by rw [Clean]; simpa using hnul⟩
  | .arr items,w,hv,h => by
    rw [Kept] at h
    obtain ⟨ws,rfl,hitems⟩ := h
    exact KeptItems.sound hv hitems
  | .obj fields,w,hv,h => by
    rw [Kept] at h
    obtain ⟨kept,hkept,h⟩ := h
    obtain ⟨hplain,hclean⟩ := KeptFields.sound hv.2 hkept
    have hnodup : (kept.map Prod.fst).Nodup := by
      rw [hkept.keys]
      exact hv.1.filter _
    rcases h with ⟨-,rfl⟩ | ⟨coded,bytes,r,-,-,hr,rfl⟩
    · exact ⟨⟨hnodup,hplain⟩,hclean⟩
    · obtain ⟨-,hrplain,hrclean⟩ := hr.sound
      refine ⟨⟨nodup_update r hnodup,plainFields_iff.mpr fun p hp => ?_⟩,
        cleanFields_iff.mpr fun p hp => ?_⟩
      · exact (mem_update hp).elim (plainFields_iff.mp hrplain p) (plainFields_iff.mp hplain p)
      · exact (mem_update hp).elim (cleanFields_iff.mp hrclean p) (cleanFields_iff.mp hclean p)

theorem KeptItems.sound {s : Store F} : ∀ {vs ws : List (Value F)}, PlainItems vs →
    KeptItems s vs ws → PlainItems ws ∧ CleanItems ws
  | [],ws,_,h => by cases h; exact ⟨trivial,trivial⟩
  | v :: vs,ws,hvs,h => by
    rw [KeptItems] at h
    obtain ⟨w,rest,rfl,hv,hrest⟩ := h
    have hone := Kept.sound hvs.1 hv
    have hmore := KeptItems.sound hvs.2 hrest
    exact ⟨⟨hone.1,hmore.1⟩,hone.2,hmore.2⟩

theorem KeptFields.sound {s : Store F} : ∀ {fields kept : Fields F}, PlainFields fields →
    KeptFields s fields kept → PlainFields kept ∧ CleanFields kept
  | [],kept,_,h => by cases h; exact ⟨trivial,trivial⟩
  | (key,v) :: fields,kept,hfields,h => by
    rw [KeptFields] at h
    split at h
    next hkey => exact KeptFields.sound hfields.2 h
    next hkey =>
      obtain ⟨w,rest,rfl,hv,hrest⟩ := h
      have hone := Kept.sound hfields.1 hv
      have hmore := KeptFields.sound hfields.2 hrest
      exact ⟨⟨hone.1,hmore.1⟩,hkey,hone.2,hmore.2⟩

end

end

end Observations
end Atlas
