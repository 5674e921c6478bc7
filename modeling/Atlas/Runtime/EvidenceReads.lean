import Atlas.Runtime.FrozenEvidence

/-! What a record froze is read back at any later time, in pages or as a resource. -/
namespace Atlas
namespace Observations

open Base64 (fromUTF8_toUTF8)
open JsonText (FloatText Value PlainItems PlainFields)
open RuleScript (lookup_eq_some_iff)

section

variable {F : Type} [StoreRuntime F]

/-! Columns. -/

theorem columnFields_perm (fields : Fields F) :
    (columnFields fields).Perm (fields.map fun p => (p.1,column p.2)) := by
  induction fields with
  | nil => exact .refl _
  | cons p fields ih =>
    obtain ⟨key,v⟩ := p
    rw [columnFields]
    exact (List.perm_orderedInsert _ _ _).trans (ih.cons _)

theorem keys_columnFields (fields : Fields F) :
    ((columnFields fields).map Prod.fst).Perm (fields.map Prod.fst) := by
  have h := (columnFields_perm fields).map Prod.fst
  rwa [List.map_map] at h

theorem lookup_columnFields {fields : Fields F} (h : (fields.map Prod.fst).Nodup) (key : String) :
    (columnFields fields).lookup key = (fields.lookup key).map column := by
  have hmap : (fields.map fun p => (p.1,column p.2)).lookup key = (fields.lookup key).map column := by
    clear h
    induction fields with
    | nil => rfl
    | cons p fields ih =>
      rw [List.map_cons,lookup_cons,lookup_cons,ih]
      split <;> rfl
  have hnodup : ((fields.map fun p => (p.1,column p.2)).map Prod.fst).Nodup := by
    rwa [List.map_map]
  rw [← hmap]
  apply Option.ext
  intro v
  rw [lookup_eq_some_iff ((keys_columnFields fields).nodup_iff.mpr h),lookup_eq_some_iff hnodup,
    (columnFields_perm fields).mem_iff]

theorem field_column {fields : Fields F} (h : (fields.map Prod.fst).Nodup) (key : String) :
    field (column (.obj fields)) key = (fields.lookup key).map column := by
  rw [column,field,lookup_columnFields h]

mutual

theorem plain_column : ∀ v : Value F, v.Plain → (column v).Plain
  | .null,_ => trivial
  | .bool _,_ => trivial
  | .int _,_ => trivial
  | .float f,_ => by
    rw [column]
    split <;> trivial
  | .constant _,_ => trivial
  | .str _,_ => trivial
  | .arr items,h => plain_columnItems items h
  | .obj fields,h => by
    refine ⟨(keys_columnFields fields).nodup_iff.mpr h.1,plainFields_iff.mpr fun p hp => ?_⟩
    have hplain := plain_columnFields fields h.2
    exact hplain p ((columnFields_perm fields).mem_iff.mp hp)

theorem plain_columnItems : ∀ vs : List (Value F), PlainItems vs → PlainItems (columnItems vs)
  | [],_ => trivial
  | v :: vs,h => ⟨plain_column v h.1,plain_columnItems vs h.2⟩

theorem plain_columnFields : ∀ fields : Fields F, PlainFields fields →
    ∀ p ∈ fields.map (fun p => (p.1,column p.2)), p.2.Plain
  | [],_,p,hp => nomatch hp
  | (key,v) :: fields,h,p,hp => by
    rcases List.mem_cons.mp hp with rfl | hp
    · exact plain_column v h.1
    · exact plain_columnFields fields h.2 p hp

end

omit [StoreRuntime F] in
theorem referencesFields_iff {id : String} {fields : Fields F} :
    referencesFields id fields = true ↔ ∃ p ∈ fields, references id p.2 = true := by
  induction fields with
  | nil => simp [referencesFields]
  | cons p fields ih =>
    obtain ⟨key,v⟩ := p
    simp [referencesFields,ih]

omit [StoreRuntime F] in
theorem references_obj {id : String} {fields : Fields F} : references id (.obj fields) = true ↔
    fields.lookup "artifact_id" = some (.str id) ∨ ∃ p ∈ fields, references id p.2 = true := by
  rw [references,Bool.or_eq_true,referencesFields_iff]
  refine or_congr_left ?_
  split
  next other hother => rw [hother,beq_iff_eq,Option.some.injEq,Value.str.injEq]
  next hother =>
    constructor
    · intro h
      cases h
    · intro h
      exact absurd h (hother id)

mutual

theorem references_column {id : String} : ∀ v : Value F, v.Plain → references id v = true →
    references id (column v) = true
  | .null,_,h => h
  | .bool _,_,h => h
  | .int _,_,h => h
  | .float f,_,h => nomatch h
  | .constant _,_,h => h
  | .str _,_,h => h
  | .arr items,hplain,h => referencesItems_column items hplain h
  | .obj fields,hplain,h => by
    rw [column,references_obj,lookup_columnFields hplain.1]
    rcases references_obj.mp h with h | h
    · left
      rw [h]
      rfl
    · right
      obtain ⟨p,hp,hid⟩ := referencesFields_column fields hplain.2 h
      exact ⟨p,(columnFields_perm fields).mem_iff.mpr hp,hid⟩

theorem referencesItems_column {id : String} : ∀ vs : List (Value F), PlainItems vs →
    referencesItems id vs = true → referencesItems id (columnItems vs) = true
  | [],_,h => h
  | v :: vs,hplain,h => by
    rw [referencesItems,Bool.or_eq_true] at h
    rw [columnItems,referencesItems,Bool.or_eq_true]
    exact h.imp (references_column v hplain.1) (referencesItems_column vs hplain.2)

theorem referencesFields_column {id : String} : ∀ fields : Fields F, PlainFields fields →
    (∃ p ∈ fields, references id p.2 = true) →
      ∃ p ∈ fields.map (fun p => (p.1,column p.2)), references id p.2 = true
  | [],_,h => by simp at h
  | (key,v) :: fields,hplain,⟨p,hp,hid⟩ => by
    rcases List.mem_cons.mp hp with rfl | hp
    · exact ⟨_,List.mem_cons_self,references_column v hplain.1 hid⟩
    · obtain ⟨q,hq,hq'⟩ := referencesFields_column fields hplain.2 ⟨p,hp,hid⟩
      exact ⟨q,List.mem_cons_of_mem _ hq,hq'⟩

end

/-! Texts of values. -/

theorem parse_dumps {v : Value F} (h : v.Plain) : JsonText.parse (dumps v).toList = some v := by
  rw [dumps,String.toList_ofList]
  exact JsonText.parse_encode _ h

theorem loads_dumps {v : Value F} (h : v.Plain) : loads (dumps v).toUTF8 = .ok v := by
  rw [loads,fromUTF8_toUTF8,Option.bind_some,parse_dumps h]

/-! What happens to a store. -/

inductive Event (F : Type) where
  | chat
  | put (data : ByteArray) (mediaType : String) (name : Option (Value F)) (provenance : Fields F)
  | say (transcriptId : ℕ) (actor : String) (blocks : List (Value F))
  | record (q : Request F)

/-- What is left of a call: nothing of one that raises. -/
def settle {α : Type} (s : Store F) (x : Except Refusal (α × Store F)) : Store F :=
  match x with
  | .ok (_,s') => s'
  | .error _ => s

def next (s : Store F) : Event F → Store F
  | .chat => {s with transcripts := s.transcripts ++ [0]}
  | .put data mediaType name provenance => settle s (blob data mediaType name provenance s)
  | .say transcriptId actor blocks => settle s (appendTurn transcriptId actor blocks s)
  | .record q => settle s (record s q)

def run (s : Store F) (events : List (Event F)) : Store F := events.foldl next s

/-- Artifacts and turns were added at most. -/
structure Grown (s s' : Store F) : Prop where
  intact : Intact s'
  artifacts : s.artifacts <+: s'.artifacts
  turns : s.turns <+: s'.turns

theorem Grown.refl {s : Store F} (h : Intact s) : Grown s s := ⟨h,List.prefix_rfl,List.prefix_rfl⟩

theorem Grown.trans {s s' s'' : Store F} (h : Grown s s') (h' : Grown s' s'') : Grown s s'' :=
  ⟨h'.intact,h.artifacts.trans h'.artifacts,h.turns.trans h'.turns⟩

theorem Froze.grown {s s' : Store F} (h : Froze s s') : Grown s s' :=
  ⟨h.intact,h.artifacts,h.turns ▸ List.prefix_rfl⟩

/-- The turn that a call appends. -/
theorem appendTurn_turn {transcriptId id : ℕ} {actor : String} {blocks : List (Value F)}
    {s s' : Store F} (hs : Intact s) (h : appendTurn transcriptId actor blocks s = .ok (id,s')) :
    Grown s s' ∧ s'.artifacts = s.artifacts ∧
      ∃ t, s'.turns[id]? = some t ∧ t.blocks = columnItems blocks := by
  unfold appendTurn at h
  split at h
  · cases h
  · split at h
    · cases h
      exact ⟨⟨hs,List.prefix_rfl,List.prefix_append _ _⟩,rfl,_,List.getElem?_concat_length,rfl⟩
    · cases h

/-- What a record reads as: what was frozen, where it is large, or what its column gives back. -/
def shown (frozen : Value F) : Value F :=
  if 32000 < (dumps frozen).toUTF8.size then frozen else column frozen

/-- What the turn of a record holds: the frozen value, or the name of the artifact that does. -/
def Stores (s : Store F) (frozen stored : Value F) : Prop :=
  (stored = frozen ∧ shown frozen = column frozen) ∨ (shown frozen = frozen ∧
    ∃ r status operation, Names s r (dumps frozen).toUTF8 ∧
      stored = .obj [("evidence_payload",.obj r),("status",status),("operation_id",operation)])

theorem Stores.grown {s s' : Store F} {frozen stored : Value F}
    (hs : s.artifacts <+: s'.artifacts) (h : Stores s frozen stored) : Stores s' frozen stored := by
  refine h.imp_right fun ⟨hshown,r,status,operation,hr,hstored⟩ => ?_
  exact ⟨hshown,r,status,operation,hr.grown hs,hstored⟩

def Recorded (s : Store F) (id : ℕ) (frozen : Value F) : Prop :=
  ∃ t q stored artifactId, s.turns[id]? = some t ∧
    t.blocks = [column (.obj (toolObservation q stored artifactId))] ∧ Stores s frozen stored

theorem Recorded.grown {s s' : Store F} {id : ℕ} {frozen : Value F} (hs : Grown s s')
    (h : Recorded s id frozen) : Recorded s' id frozen := by
  obtain ⟨t,q,stored,artifactId,ht,hblocks,h⟩ := h
  exact ⟨t,q,stored,artifactId,at_grown hs.turns ht,hblocks,h.grown hs.artifacts⟩

theorem storeDetail_stores {q : Request F} {frozen stored artifactId : Value F} {s s' : Store F}
    (hs : Intact s) (h : storeDetail q frozen s = .ok ((stored,artifactId),s')) :
    Froze s s' ∧ Stores s' frozen stored := by
  unfold storeDetail at h
  dsimp only at h
  split at h
  next hlarge =>
    obtain ⟨⟨r,s''⟩,hblob,h⟩ := bind_eq_ok h
    cases h
    have hnames := blob_names hs hblob
    exact ⟨hnames.1,.inr ⟨if_pos hlarge,r,_,_,hnames.2,rfl⟩⟩
  next hsmall =>
    cases h
    exact ⟨Froze.refl hs,.inl ⟨rfl,if_neg hsmall⟩⟩

theorem record_recorded (hsha : Function.Injective (StoreRuntime.sha256 F)) {s s' : Store F}
    {q : Request F} {id : ℕ} {frozen : Value F} (hs : Intact s)
    (h : record s q = .ok ((id,frozen),s')) :
    Grown s s' ∧ Kept s' (.obj q.detail) frozen ∧ Recorded s' id frozen := by
  unfold record at h
  obtain ⟨⟨w,s1⟩,hfreeze,h⟩ := bind_eq_ok h
  obtain ⟨⟨⟨stored,artifactId⟩,s2⟩,hstore,h⟩ := bind_eq_ok h
  obtain ⟨⟨turn,s3⟩,happend,h⟩ := bind_eq_ok h
  cases h
  have hkept := freeze_kept hsha q.provenance _ hs hfreeze
  have hstored := storeDetail_stores hkept.1.intact hstore
  obtain ⟨hgrown,hsame,t,ht,hblocks⟩ := appendTurn_turn hstored.1.intact happend
  have hlater : Grown s1 s' := hstored.1.grown.trans hgrown
  exact ⟨hkept.1.grown.trans hlater,hkept.2.grown hlater.artifacts,t,q,stored,artifactId,ht,hblocks,
    hstored.2.grown hgrown.artifacts⟩

theorem settle_grown {α : Type} {s : Store F} {x : Except Refusal (α × Store F)} (hs : Intact s)
    (h : ∀ a s', x = .ok (a,s') → Grown s s') : Grown s (settle s x) := by
  cases x with
  | error e => exact Grown.refl hs
  | ok r => exact h r.1 r.2 rfl

theorem next_grown (hsha : Function.Injective (StoreRuntime.sha256 F)) {s : Store F} (hs : Intact s)
    (e : Event F) : Grown s (next s e) := by
  cases e with
  | chat => exact ⟨hs,List.prefix_rfl,List.prefix_rfl⟩
  | put => exact settle_grown hs fun _ _ h => (blob_names hs h).1.grown
  | say => exact settle_grown hs fun _ _ h => (appendTurn_turn hs h).1
  | record => exact settle_grown hs fun _ _ h => (record_recorded hsha hs h).1

theorem run_grown (hsha : Function.Injective (StoreRuntime.sha256 F)) (events : List (Event F))
    {s : Store F} (hs : Intact s) : Grown s (run s events) := by
  induction events generalizing s with
  | nil => exact Grown.refl hs
  | cons e events ih =>
    have hone := next_grown hsha hs e
    exact hone.trans (ih hone.intact)

/-! Reading back. -/

theorem artifactBytes_names {s : Store F} {r : Fields F} {data : ByteArray} (h : Names s r data) :
    ∃ id a, r = reference id a ∧ s.artifacts[id]? = some a ∧ a.data = data ∧
      a.sha256 = StoreRuntime.sha256 F data ∧
      artifactBytes s (StoreRuntime.uuid F id) = .ok data := by
  obtain ⟨id,a,ha,rfl,hsha,rfl⟩ := h
  refine ⟨id,a,rfl,ha,rfl,hsha,?_⟩
  rw [artifactBytes,StoreRuntime.readUuid_uuid,Option.bind_some,ha]
  exact if_pos hsha.symm

omit [StoreRuntime F] in
theorem nodup_toolObservation (q : Request F) (stored artifactId : Value F) :
    ((toolObservation q stored artifactId).map Prod.fst).Nodup := by
  rw [show (toolObservation q stored artifactId).map Prod.fst = ["type","action_id","artifact_id",
    "operation","phase","summary","detail","provenance"] from rfl]
  decide

/-- A block whose detail is no reference is loaded as it stands. -/
theorem loadPayload_inline {s : Store F} {block detail : Value F}
    (hdetail : field block "detail" = some detail)
    (hnone : field detail "evidence_payload" = none) (inline : Value F) :
    loadPayload s block inline = .ok inline := by
  rw [loadPayload,payloadId,hdetail,Option.bind_some,hnone]
  rfl

/-- A block whose detail names the artifact of a value is loaded as the value. -/
theorem loadPayload_named {s : Store F} {block detail v : Value F} {payload : Fields F} {id : String}
    (hdetail : field block "detail" = some detail)
    (hpayload : field detail "evidence_payload" = some (.obj payload))
    (hid : payload.lookup "artifact_id" = some (.str id))
    (hbytes : artifactBytes s id = .ok (dumps v).toUTF8) (hv : v.Plain) (inline : Value F) :
    loadPayload s block inline = .ok v := by
  have hwhere : payloadId block = some (some (.str id)) := by
    rw [payloadId,hdetail,Option.bind_some,hpayload,Option.bind_some]
    exact congrArg some hid
  rw [loadPayload,hwhere]
  show (artifactBytes s id).bind loads = _
  rw [hbytes]
  exact loads_dumps hv

/-- The block of a record, and what it is loaded as: itself where it holds the value, and what was
frozen where it names the artifact. -/
theorem Recorded.load {s : Store F} {id : ℕ} {kept : Fields F} (h : Recorded s id (.obj kept))
    (hplain : Value.Plain (.obj kept)) (hdirect : kept.lookup "evidence_payload" = none) :
    ∃ t fields detail, s.turns[id]? = some t ∧ t.blocks = [.obj fields] ∧
      isTool (.obj fields) = true ∧ field (.obj fields) "detail" = some detail ∧
      ((shown (.obj kept) = .obj kept ∧
          ∀ inline, loadPayload s (.obj fields) inline = .ok (.obj kept)) ∨
        (shown (.obj kept) = detail ∧ ("detail",detail) ∈ fields ∧
          ∀ inline, loadPayload s (.obj fields) inline = .ok inline)) := by
  obtain ⟨t,q,stored,artifactId,ht,hblocks,hstored⟩ := h
  have hfield := field_column (nodup_toolObservation q stored artifactId)
  have hdetail : field (column (.obj (toolObservation q stored artifactId))) "detail" =
      some (column stored) := hfield "detail"
  refine ⟨t,_,column stored,ht,hblocks,?_,hdetail,?_⟩
  · rw [← column,isTool,hfield "type"]
    rfl
  · rw [← column]
    rcases hstored with ⟨rfl,hshown⟩ | ⟨hshown,r,status,operation,hr,rfl⟩
    · right
      have hnone : field (column (.obj kept)) "evidence_payload" = none := by
        rw [field_column hplain.1,hdirect]
        rfl
      have hmem : ("detail",column (.obj kept)) ∈
          columnFields (toolObservation q (.obj kept) artifactId) := by
        rw [(columnFields_perm _).mem_iff]
        simp [toolObservation]
      exact ⟨hshown,hmem,loadPayload_inline hdetail hnone⟩
    · left
      obtain ⟨n,a,rfl,-,-,-,hbytes⟩ := artifactBytes_names hr
      have hpayload : field (column (.obj [("evidence_payload",.obj (reference n a)),
          ("status",status),("operation_id",operation)])) "evidence_payload" =
          some (column (.obj (reference n a))) := by
        rw [field_column (by simp)]
        rfl
      have hid : (columnFields (reference n a)).lookup "artifact_id" =
          some (.str (StoreRuntime.uuid F n)) := by
        rw [lookup_columnFields (by rw [keys_reference]; decide)]
        rfl
      exact ⟨hshown,loadPayload_named hdetail hpayload hid hbytes hplain⟩

/-- A record reads as it is shown. -/
theorem Recorded.value {s : Store F} {id : ℕ} {kept : Fields F} (h : Recorded s id (.obj kept))
    (hplain : Value.Plain (.obj kept)) (hdirect : kept.lookup "evidence_payload" = none) :
    ∃ t, s.turns[id]? = some t ∧ evidenceValue s t = .ok (shown (.obj kept)) := by
  obtain ⟨t,fields,detail,ht,hblocks,htool,hdetail,hload⟩ := h.load hplain hdirect
  have hblock : toolBlock t = some (.obj fields) := by
    rw [toolBlock,hblocks]
    exact if_pos htool
  refine ⟨t,ht,?_⟩
  rw [evidenceValue,hblock]
  simp only [hdetail,Option.getD_some]
  rcases hload with ⟨hshown,hload⟩ | ⟨hshown,-,hload⟩
  · rw [hload,hshown]
  · rw [hload,hshown]

theorem references_shown {id : String} {v : Value F} (hplain : v.Plain)
    (hid : references id v = true) : references id (shown v) = true := by
  rw [shown]
  split
  · exact hid
  · exact references_column v hplain hid

theorem plain_shown {v : Value F} (hplain : v.Plain) : (shown v).Plain := by
  rw [shown]
  split
  · exact hplain
  · exact plain_column v hplain

theorem shownText_obj (kept : Fields F) :
    shownText (shown (.obj kept)) = dumps (shown (.obj kept)) := by
  rw [shown]
  split <;> rfl

/-! Pages. -/

/-- Reads one page after another, each from the store as it then is. -/
def readThrough (stores : ℕ → Store F) (id : ℕ) (artifactId : Option String) (limits : ℕ → ℤ) :
    ℕ → ℕ → ℤ → Except Refusal (List Char)
  | 0,_,_ => .ok []
  | fuel + 1,k,offset => do
      let page ← read (stores k) id "" offset (limits k) artifactId
      match page.nextOffset with
      | none => return page.text.toList
      | some next =>
          let rest ← readThrough stores id artifactId limits fuel (k + 1) next
          return page.text.toList ++ rest

/-- The pages of a text join to it, whatever the limits are. -/
theorem readThrough_text {stores : ℕ → Store F} {id : ℕ} {artifactId : Option String}
    (limits : ℕ → ℤ) {text : List Char}
    (hread : ∀ k, ∃ t v, (stores k).turns[id]? = some t ∧
      selected (stores k) t artifactId = .ok v ∧ (shownText v).toList = text) :
    ∀ (fuel k offset : ℕ), offset ≤ text.length → text.length - offset < fuel →
      readThrough stores id artifactId limits fuel k offset = .ok (text.drop offset) := by
  intro fuel
  induction fuel with
  | zero => intro k offset _ h; omega
  | succ fuel ih =>
    intro k offset hoffset hfuel
    obtain ⟨t,v,ht,hv,htext⟩ := hread k
    have hnavigate : navigate v "".toList = .ok v := rfl
    have hstart : (offset : ℤ).toNat = offset := Int.toNat_natCast offset
    generalize hwidth : (max 1 (min (limits k) 8000)).toNat = width
    have hpos : 0 < width := by omega
    by_cases hstop : offset + width < text.length
    · have hmin : min text.length (offset + width) = offset + width := by omega
      simp only [readThrough,read,ht,hv,hnavigate,htext,hstart,hwidth,hmin,hstop,if_true,
        bind,Except.bind,pure,Except.pure]
      rw [ih (k + 1) (offset + width) hstop.le (by omega)]
      simp only [String.toList_ofList,Except.ok.injEq]
      rw [List.drop_take,Nat.add_sub_cancel_left,← List.drop_drop,List.take_append_drop]
    · have hmin : min text.length (offset + width) = text.length := by omega
      simp only [readThrough,read,ht,hv,hnavigate,htext,hstart,hwidth,hmin,lt_irrefl,if_false,
        bind,Except.bind,pure,Except.pure,String.toList_ofList,List.take_length]

theorem readThrough_start {stores : ℕ → Store F} {id : ℕ} {artifactId : Option String}
    (limits : ℕ → ℤ) {text : List Char}
    (hread : ∀ k, ∃ t v, (stores k).turns[id]? = some t ∧
      selected (stores k) t artifactId = .ok v ∧ (shownText v).toList = text) {fuel : ℕ}
    (hfuel : text.length < fuel) : readThrough stores id artifactId limits fuel 0 0 = .ok text := by
  have h := readThrough_text limits hread fuel 0 0 (Nat.zero_le _) (by rwa [Nat.sub_zero])
  rwa [List.drop_zero,Nat.cast_zero] at h

/-! What a frozen value refers to. -/

/-- Bytes that a value carries where freezing keeps them. -/
inductive Carries : Value F → ByteArray → Prop
  | payload {fields : Fields F} {coded : String} {bytes : List UInt8} :
      fields.lookup "data_base64" = some (.str coded) → Base64.decode coded.toList = some bytes →
      Carries (.obj fields) ⟨bytes.toArray⟩
  | text {t : String} : hasNul t = true → Carries (.str t) t.toUTF8
  | item {items : List (Value F)} {v : Value F} {data : ByteArray} : v ∈ items → Carries v data →
      Carries (.arr items) data
  | field {fields : Fields F} {key : String} {v : Value F} {data : ByteArray} :
      (key,v) ∈ fields → key ≠ "data_base64" →
      (fields.lookup "data_base64" = none ∨ key ∉ referenceKeys) → Carries v data →
      Carries (.obj fields) data

theorem KeptItems.mem {s : Store F} {v : Value F} : ∀ {vs ws : List (Value F)}, KeptItems s vs ws →
    v ∈ vs → ∃ w ∈ ws, Kept s v w
  | [],ws,h,hv => nomatch hv
  | u :: vs,ws,h,hv => by
    rw [KeptItems] at h
    obtain ⟨w,rest,rfl,hw,hrest⟩ := h
    rcases List.mem_cons.mp hv with rfl | hv
    · exact ⟨w,List.mem_cons_self,hw⟩
    · obtain ⟨x,hx,hkept⟩ := hrest.mem hv
      exact ⟨x,List.mem_cons_of_mem _ hx,hkept⟩

theorem KeptFields.mem {s : Store F} {key : String} {v : Value F} (hkey : key ≠ "data_base64") :
    ∀ {fields kept : Fields F}, KeptFields s fields kept → (key,v) ∈ fields →
      ∃ w, (key,w) ∈ kept ∧ Kept s v w
  | [],kept,h,hv => nomatch hv
  | (k,u) :: fields,kept,h,hv => by
    rw [KeptFields] at h
    split at h
    next hk =>
      rcases List.mem_cons.mp hv with heq | hv
      · cases heq
        exact absurd hk hkey
      · exact KeptFields.mem hkey h hv
    next hk =>
      obtain ⟨w,rest,rfl,hw,hrest⟩ := h
      rcases List.mem_cons.mp hv with heq | hv
      · cases heq
        exact ⟨w,List.mem_cons_self,hw⟩
      · obtain ⟨x,hx,hkept⟩ := KeptFields.mem hkey hrest hv
        exact ⟨x,List.mem_cons_of_mem _ hx,hkept⟩

/-- A record adds no field under which a payload is looked for. -/
theorem Kept.direct {s : Store F} {fields : Fields F} {w : Value F} (h : Kept s (.obj fields) w)
    (hdirect : fields.lookup "evidence_payload" = none) :
    ∃ kept, w = .obj kept ∧ kept.lookup "evidence_payload" = none := by
  have hkeys : ∀ d : Fields F, d.lookup "evidence_payload" = none ↔
      "evidence_payload" ∉ d.map Prod.fst := by
    intro d
    induction d with
    | nil => simp
    | cons p d ih =>
      rw [lookup_cons,List.map_cons,List.mem_cons,not_or,← ih]
      split
      next hp => simp [hp]
      next hp => simp [hp]
  rw [Kept] at h
  obtain ⟨kept,hkept,h⟩ := h
  have hnone : kept.lookup "evidence_payload" = none := by
    rw [hkeys,hkept.keys]
    exact fun hin => (hkeys fields).mp hdirect (List.mem_of_mem_filter hin)
  rcases h with ⟨-,rfl⟩ | ⟨coded,bytes,r,-,-,hr,rfl⟩
  · exact ⟨kept,rfl,hnone⟩
  · refine ⟨_,rfl,?_⟩
    rw [lookup_update_of_not_mem,hnone]
    rw [hr.sound.1]
    decide

section

variable {s : Store F} {id n : ℕ} {kept : Fields F} {a : Artifact F}

/-- An artifact that a record refers to is acquired through it. -/
theorem Recorded.acquired (h : Recorded s id (.obj kept)) (hs : Intact s)
    (hplain : Value.Plain (.obj kept)) (hdirect : kept.lookup "evidence_payload" = none)
    (hid : references (StoreRuntime.uuid F n) (.obj kept) = true) (ha : s.artifacts[n]? = some a)
    (hbytes : artifactBytes s (StoreRuntime.uuid F n) = .ok a.data)
    (hsize : a.data.size ≤ 25 * 1024 * 1024) :
    acquire s id (StoreRuntime.uuid F n) = .ok (resourceOf (StoreRuntime.uuid F n) a a.data) := by
  obtain ⟨t,fields,detail,ht,hblocks,-,-,hload⟩ := h.load hplain hdirect
  have hloaded : ∃ v, loadPayload s (.obj fields) (.obj fields) = .ok v ∧
      references (StoreRuntime.uuid F n) v = true := by
    rcases hload with ⟨-,hload⟩ | ⟨hshown,hmem,hload⟩
    · exact ⟨_,hload _,hid⟩
    · refine ⟨_,hload _,references_obj.mpr (.inr ⟨_,hmem,?_⟩)⟩
      exact hshown ▸ references_shown hplain hid
  obtain ⟨v,hv,href⟩ := hloaded
  have hwhole := (hs a (List.mem_of_getElem? ha)).2
  have hfits : ¬25 * 1024 * 1024 < a.sizeBytes := by omega
  simp only [acquire,ht,hblocks,acquireFrom,hv,href,if_true,StoreRuntime.readUuid_uuid,
    Option.bind_some,ha,hfits,if_false,hbytes,bind,Except.bind,pure,Except.pure]

/-- The text of an artifact that a record refers to is read through it. -/
theorem Recorded.text (h : Recorded s id (.obj kept)) (hplain : Value.Plain (.obj kept))
    (hdirect : kept.lookup "evidence_payload" = none)
    (hid : references (StoreRuntime.uuid F n) (.obj kept) = true) {text : String}
    (hbytes : artifactBytes s (StoreRuntime.uuid F n) = .ok text.toUTF8) :
    ∃ t, s.turns[id]? = some t ∧ selected s t (some (StoreRuntime.uuid F n)) = .ok (.str text) := by
  obtain ⟨t,ht,hvalue⟩ := h.value hplain hdirect
  refine ⟨t,ht,?_⟩
  simp only [selected,hvalue,artifactText,references_shown hplain hid,if_true,hbytes,
    fromUTF8_toUTF8,bind,Except.bind,pure,Except.pure]

end

theorem intact_empty : Intact ({} : Store F) := fun _ ha => nomatch ha

/-- A record that came after the events, of a detail that has no key twice and is no reference to a
payload itself. -/
structure Accepted (before : List (Event F)) (q : Request F) (id : ℕ) (frozen : Value F)
    (s : Store F) : Prop where
  recorded : record (run {} before) q = .ok ((id,frozen),s)
  plain : Value.Plain (.obj q.detail)
  direct : q.detail.lookup "evidence_payload" = none

/-! A store to evaluate the results with: a digest is the bytes as a text. -/

@[reducible] def plainStore : StoreRuntime Unit where
  repr _ := "0.0".toList
  read _ := ()
  isFloat_repr := JsonText.isFloat_zero
  read_repr _ := rfl
  sha256 data := String.ofList (Base64.encode data.data.toList)
  uuid n := String.ofList (List.replicate (n + 1) 'a')
  readUuid text := some (text.toList.length - 1)
  readUuid_uuid n := by simp
  uuid_plain n := by simp
  sha256_plain data := by simpa using Base64.nul_not_mem_encode data.data.toList
  str _ := ""
  isZero _ := true
  keyBefore a b := decide (a.toList.length ≤ b.toList.length)
  numeric := .inr
  readInt _ := none

theorem plainStore_injective : Function.Injective plainStore.sha256 := fun _ _ h =>
  ByteArray.ext (Array.toList_inj.mp (Base64.encode_injective (String.ofList_injective h)))

/-- A screenshot of two bytes. -/
def plainRequest : Request Unit where
  transcriptId := 0
  operation := "screen"
  phase := "completed"
  detail := [("status",.str "ok"),("image",.obj [("data_base64",.str "aGk="),("width",.int 2)])]
  transcript := "t"

def plainFrozen : Value Unit :=
  .obj [("status",.str "ok"),("image",.obj [("width",.int 2),("artifact_id",.str "a"),
    ("snapshot_sha256",.str "aGk="),("snapshot_size_bytes",.int 2)])]

def plainAfter : Store Unit := @run Unit plainStore {} [.chat,.record plainRequest]

theorem plain_accepted :
    letI := plainStore
    Accepted [.chat] plainRequest 0 plainFrozen plainAfter := by
  let _ := plainStore
  have hplain : Value.Plain (.obj plainRequest.detail) := by
    simp [plainRequest,Value.Plain,PlainFields]
  exact ⟨rfl,hplain,by decide⟩

section

variable {before : List (Event F)} {q : Request F} {id : ℕ} {frozen : Value F} {s : Store F}

/-- What the record keeps at every later time. -/
theorem Accepted.later (hsha : Function.Injective (StoreRuntime.sha256 F))
    (h : Accepted before q id frozen s) (later : List (Event F)) : Grown s (run s later) ∧
    Kept (run s later) (.obj q.detail) frozen ∧ Recorded (run s later) id frozen := by
  have hbefore := (run_grown hsha before intact_empty).intact
  obtain ⟨hgrown,hkept,hrecorded⟩ := record_recorded hsha hbefore h.recorded
  have hlater := run_grown hsha later hgrown.intact
  exact ⟨hlater,hkept.grown hlater.artifacts,hrecorded.grown hlater⟩

/-- The frozen detail of a record has no bytes and no character that its column refuses, it says what
the detail says, and at every later time its pages, however long each is, join to a text that reads as
the frozen value. -/
theorem record_reads_back (hsha : Function.Injective (StoreRuntime.sha256 F))
    (h : Accepted before q id frozen s) :
    Clean frozen ∧ (∀ later, Kept (run s later) (.obj q.detail) frozen) ∧
    JsonText.parse (dumps (shown frozen)).toList = some (shown frozen) ∧
    ∀ (later : ℕ → List (Event F)) (limits : ℕ → ℤ) (fuel : ℕ),
      (dumps (shown frozen)).toList.length < fuel →
      readThrough (fun k => run s (later k)) id none limits fuel 0 0 =
        .ok (dumps (shown frozen)).toList := by
  have hlater := h.later hsha
  have hsound := Kept.sound h.plain (hlater []).2.1
  obtain ⟨kept,rfl,hnone⟩ := (hlater []).2.1.direct h.direct
  refine ⟨hsound.2,fun later => (hlater later).2.1,parse_dumps (plain_shown hsound.1),
    fun later limits fuel hfuel => ?_⟩
  refine readThrough_start limits (fun k => ?_) hfuel
  obtain ⟨t,ht,hvalue⟩ := (hlater (later k)).2.2.value hsound.1 hnone
  exact ⟨t,_,ht,hvalue,by rw [shownText_obj]⟩

theorem record_reads_back_plain :
    letI := plainStore
    Clean plainFrozen ∧ (∀ later, Kept (run plainAfter later) (.obj plainRequest.detail) plainFrozen) ∧
    JsonText.parse (dumps (shown plainFrozen)).toList = some (shown plainFrozen) ∧
    ∀ (later : ℕ → List (Event Unit)) (limits : ℕ → ℤ) (fuel : ℕ),
      (dumps (shown plainFrozen)).toList.length < fuel →
      readThrough (fun k => run plainAfter (later k)) 0 none limits fuel 0 0 =
        .ok (dumps (shown plainFrozen)).toList :=
  @record_reads_back Unit plainStore _ _ _ _ _ plainStore_injective plain_accepted

end

end

end Observations
end Atlas
