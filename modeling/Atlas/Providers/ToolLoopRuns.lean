import Atlas.Providers.ToolLoop
import Mathlib.Data.List.Forall2

/-! The items of a request: every call among them is answered once behind it, whatever was redacted,
left out or told in short, and the base stays. -/
namespace Atlas
namespace ToolLoop

open JsonText Evidence Guards Conversation

section

variable {F : Type}

def textAt (item : Value F) (key : String) : Option String :=
  match fieldOf item key with
  | some (.str text) => some text
  | _ => none

/-- Every element of the second list stands for one of the first. -/
theorem forall₂_source {α β : Type} {R : α → β → Prop} {l : List α} {l' : List β}
    (h : List.Forall₂ R l l') {b : β} (hb : b ∈ l') : ∃ a ∈ l, R a b := by
  induction h with
  | nil => cases hb
  | @cons a b' l l' hhead _ ih =>
    rcases List.mem_cons.mp hb with rfl | hmem
    · exact ⟨a,List.mem_cons_self,hhead⟩
    · obtain ⟨a',ha',hR⟩ := ih hmem
      exact ⟨a',List.mem_cons_of_mem a ha',hR⟩

/-- The call that an item of a kind is about. -/
def idFor (kind : String) (item : Value F) : Option String :=
  if textAt item "type" = some kind then textAt item "call_id" else none

def callKind : String := "function_call"

def outputKind : String := "function_call_output"

def ids (kind : String) (items : List (Value F)) : List String := items.filterMap (idFor kind)

/-- Every call is answered once behind it. -/
def Paired : List (Value F) → Prop
  | [] => True
  | item :: items =>
      (∀ id, idFor callKind item = some id → (ids outputKind items).count id = 1) ∧ Paired items

/-- An answer of the model, and what was found out about its calls. -/
def Block (items : List (Value F)) : Prop :=
  ∃ answer rest, items = answer ++ rest ∧ ids outputKind answer = [] ∧ ids callKind rest = [] ∧
    ids outputKind rest = ids callKind answer

/-- What has a role is no call and no output of one. -/
def Unmixed (items : List (Value F)) : Prop :=
  ∀ item ∈ items, (fieldOf item "role").isSome = true →
    idFor callKind item = none ∧ idFor outputKind item = none

theorem ids_append (kind : String) (items items' : List (Value F)) :
    ids kind (items ++ items') = ids kind items ++ ids kind items' :=
  List.filterMap_append

theorem ids_cons_nil {kind : String} {item : Value F} {items : List (Value F)}
    (h : ids kind (item :: items) = []) : idFor kind item = none ∧ ids kind items = [] := by
  cases hitem : idFor kind item with
  | none => exact ⟨rfl,by rwa [ids,List.filterMap_cons_none hitem] at h⟩
  | some id =>
    rw [ids,List.filterMap_cons_some hitem] at h
    exact absurd h (List.cons_ne_nil _ _)

theorem Block.outputs {items : List (Value F)} (h : Block items) :
    ids outputKind items = ids callKind items := by
  obtain ⟨answer,rest,rfl,hanswer,hrest,hsame⟩ := h
  rw [ids_append,ids_append,hanswer,hrest,hsame,List.append_nil,List.nil_append]

/-- Calls that are answered once in what follows are paired with it. -/
theorem paired_append {items later : List (Value F)} (houtputs : ids outputKind items = [])
    (hcalls : ∀ id ∈ ids callKind items, (ids outputKind later).count id = 1)
    (hlater : Paired later) : Paired (items ++ later) := by
  induction items with
  | nil => exact hlater
  | cons item items ih =>
    have hhead := ids_cons_nil houtputs
    refine ⟨fun id hid => ?_,ih hhead.2 fun id hid => hcalls id ?_⟩
    · have hsplit := ids_append outputKind items later
      rw [hhead.2,List.nil_append] at hsplit
      refine (congrArg (List.count id) hsplit).trans ?_
      exact hcalls id (List.mem_filterMap.mpr ⟨item,List.mem_cons_self,hid⟩)
    · obtain ⟨other,hmem,hother⟩ := List.mem_filterMap.mp hid
      exact List.mem_filterMap.mpr ⟨other,List.mem_cons_of_mem item hmem,hother⟩

theorem paired_without {items later : List (Value F)} (hcalls : ids callKind items = [])
    (hlater : Paired later) : Paired (items ++ later) := by
  induction items with
  | nil => exact hlater
  | cons item items ih =>
    have hhead := ids_cons_nil hcalls
    refine ⟨fun id hid => ?_,ih hhead.2⟩
    rw [hhead.1] at hid
    cases hid

def groupIds (groups : List (Group F)) : List String :=
  groups.flatMap fun group => ids callKind group.items

theorem outputs_groups {groups : List (Group F)} (h : ∀ group ∈ groups, Block group.items) :
    ids outputKind (groups.flatMap Group.items) = groupIds groups := by
  induction groups with
  | nil => rfl
  | cons group groups ih =>
    have htail := ih fun other hmem => h other (List.mem_cons_of_mem group hmem)
    rw [List.flatMap_cons,ids_append,(h group List.mem_cons_self).outputs,htail,groupIds,groupIds,
      List.flatMap_cons]

theorem paired_groups {groups : List (Group F)} (h : ∀ group ∈ groups, Block group.items)
    (hnodup : (groupIds groups).Nodup) : Paired (groups.flatMap Group.items) := by
  induction groups with
  | nil => trivial
  | cons group groups ih =>
    have hlater := fun other hmem => h other (List.mem_cons_of_mem group hmem)
    have houtputs := outputs_groups hlater
    obtain ⟨answer,rest,hitems,hanswer,hrest,hsame⟩ := h group List.mem_cons_self
    have hgroup : ids callKind group.items = ids callKind answer := by
      rw [hitems,ids_append,hrest,List.append_nil]
    rw [groupIds,List.flatMap_cons,hgroup,List.nodup_append'] at hnodup
    obtain ⟨hown,htail,hdisjoint⟩ := hnodup
    rw [List.flatMap_cons,hitems,List.append_assoc]
    refine paired_append hanswer (fun id hid => ?_) (paired_without hrest (ih hlater htail))
    have hfar : id ∉ groupIds groups := hdisjoint hid
    rw [ids_append,hsame,houtputs,List.count_append,List.count_eq_one_of_mem hown hid,
      List.count_eq_zero_of_not_mem hfar]

/-- A base without calls in front of groups whose calls are distinct. -/
theorem paired_flatten {base : List (Value F)} {groups : List (Group F)}
    (hbase : ids callKind base = []) (h : ∀ group ∈ groups, Block group.items)
    (hnodup : (groupIds groups).Nodup) : Paired (flatten base groups) :=
  paired_without hbase (paired_groups h hnodup)

/-- A paired call has an output. -/
theorem Paired.answered {items : List (Value F)} (h : Paired items) {id : String}
    (hid : id ∈ ids callKind items) : id ∈ ids outputKind items := by
  induction items with
  | nil => exact hid
  | cons item items ih =>
    obtain ⟨other,hmem,hother⟩ := List.mem_filterMap.mp hid
    have htail : id ∈ ids outputKind items := by
      rcases List.mem_cons.mp hmem with rfl | hmem
      · exact List.count_pos_iff.mp (by rw [h.1 id hother]; exact one_pos)
      · exact ih h.2 (List.mem_filterMap.mpr ⟨other,hmem,hother⟩)
    obtain ⟨output,hmem,houtput⟩ := List.mem_filterMap.mp htail
    exact List.mem_filterMap.mpr ⟨output,List.mem_cons_of_mem item hmem,houtput⟩

end

/-! Redaction and reduction of groups. -/

section

variable {F : Type} [ProviderRuntime F]

variable (F) in
/-- A text field of an item that is redacted by the given wordings. -/
def wordAt (contents : List String) (text : String) : String :=
  letI := TextRuntime.toPyRuntime F
  redactGuardedText text (guardedContents (guardedContents contents))

variable (F) in
/-- The wordings leave the names of calls and outputs as they are. -/
def KeepsKinds (contents : List String) : Prop :=
  wordAt F contents callKind = callKind ∧ wordAt F contents outputKind = outputKind

def redactItem (contents : List String) (item : Value F) : Value F :=
  letI := TextRuntime.toPyRuntime F
  redactGuardedValue item contents

theorem fieldOf_redactItem (contents : List String) (item : Value F) (key : String) :
    fieldOf (redactItem contents item) key =
      (fieldOf item key).map (redactItem (guardedContents contents)) := by
  let := TextRuntime.toPyRuntime F
  cases item with
  | obj fields =>
    have hobj : redactItem contents (.obj fields) =
        .obj (fields.map fun p => (p.1,redactItem (guardedContents contents) p.2)) :=
      redactGuardedValue_obj fields contents
    rw [hobj,fieldOf,fieldOf,fieldAt,fieldAt,List.find?_map,Option.map_map,Option.map_map]
    rfl
  | arr items =>
    rw [redactItem,redactGuardedValue]
    split_ifs <;> rfl
  | _ => rfl

theorem redactItem_str (contents : List String) (text : String) :
    redactItem (F := F) (guardedContents contents) (.str text) = .str (wordAt F contents text) := by
  let := TextRuntime.toPyRuntime F
  rw [redactItem,redactGuardedValue,redactGuardedString_eq]
  rfl

theorem textAt_redactItem (contents : List String) (item : Value F) (key : String) :
    textAt (redactItem contents item) key = (textAt item key).map (wordAt F contents) := by
  rw [textAt,textAt,fieldOf_redactItem]
  cases fieldOf item key with
  | none => rfl
  | some value =>
    cases value with
    | str text => rw [Option.map_some,redactItem_str]; rfl
    | arr items =>
      rw [Option.map_some,redactItem,redactGuardedValue]
      split_ifs <;> rfl
    | obj fields =>
      rw [Option.map_some,redactItem,redactGuardedValue]
      split_ifs <;> rfl
    | _ => rfl

/-- A text of a protocol comes from itself only. -/
theorem wordAt_eq {contents : List String} {text kind : String} (hkind : '[' ∉ kind.toList)
    (h : wordAt F contents text = kind) : text = kind := by
  let := TextRuntime.toPyRuntime F
  have hsame := redactGuardedText_same (guardedContents (guardedContents contents)) text
    (by rw [wordAt] at h; rwa [h])
  rw [wordAt] at h
  exact hsame.symm.trans h

theorem idFor_redactItem {contents : List String} {kind : String} (hkind : '[' ∉ kind.toList)
    (hkept : wordAt F contents kind = kind) (item : Value F) :
    idFor kind (redactItem contents item) = (idFor kind item).map (wordAt F contents) := by
  have htype : textAt (redactItem contents item) "type" = some kind ↔
      textAt item "type" = some kind := by
    rw [textAt_redactItem]
    constructor
    · intro h
      obtain ⟨text,htext,hword⟩ := Option.map_eq_some_iff.mp h
      rw [htext,wordAt_eq hkind hword]
    · intro h
      rw [h,Option.map_some,hkept]
  by_cases h : textAt item "type" = some kind
  · rw [idFor,idFor,if_pos h,if_pos (htype.mpr h),textAt_redactItem]
  · rw [idFor,idFor,if_neg h,if_neg (mt htype.mp h)]
    rfl

theorem ids_redactItem {contents : List String} {k : String} (hkind : '[' ∉ k.toList)
    (hkept : wordAt F contents k = k) (items : List (Value F)) :
    ids k (items.map (redactItem contents)) = (ids k items).map (wordAt F contents) := by
  rw [ids,ids,List.filterMap_map,List.map_filterMap]
  exact congrArg (List.filterMap · items) (funext fun item => idFor_redactItem hkind hkept item)

theorem Block.redact {contents : List String} (hkept : KeepsKinds F contents)
    {items : List (Value F)} (h : Block items) : Block (items.map (redactItem contents)) := by
  obtain ⟨answer,rest,rfl,hanswer,hrest,hsame⟩ := h
  have hcall := fun items => ids_redactItem (k := callKind) (by decide) hkept.1 items
  have houtput := fun items => ids_redactItem (k := outputKind) (by decide) hkept.2 items
  refine ⟨_,_,List.map_append,?_,?_,?_⟩
  · rw [houtput,hanswer]; rfl
  · rw [hcall,hrest]; rfl
  · rw [houtput,hcall,hsame]

theorem Unmixed.redact {contents : List String} (hkept : KeepsKinds F contents)
    {items : List (Value F)} (h : Unmixed items) : Unmixed (items.map (redactItem contents)) := by
  intro item hitem hrole
  obtain ⟨source,hsource,rfl⟩ := List.mem_map.mp hitem
  rw [fieldOf_redactItem,Option.isSome_map] at hrole
  obtain ⟨hcall,houtput⟩ := h source hsource hrole
  rw [idFor_redactItem (by decide) hkept.1,idFor_redactItem (by decide) hkept.2,hcall,houtput]
  exact ⟨rfl,rfl⟩

theorem redactGroup_items (group : Group F) (contents : List String) :
    (redactGroup group contents).items =
      group.items.map (redactItem (guardedContents (guardedContents contents))) := by
  let := TextRuntime.toPyRuntime F
  rw [redactGroup]
  split_ifs with h
  · have hsame : ∀ item : Value F, redactItem (guardedContents (guardedContents contents)) item =
        item := fun item => redactGuardedValue_nil item (by rw [h,guardedContents_nil,
          guardedContents_nil])
    exact (List.map_id'' hsame group.items).symm
  · exact redactGuardedList_eq group.items _

/-- What of a group is sent. -/
inductive Reduced : Group F → Group F → Prop where
  | kept (group : Group F) : Reduced group group
  | compacted (group : Group F) : Reduced group (compactGroup group)
  | stripped (group : Group F) : Reduced group (stripResources group)

theorem compact_strip (group : Group F) : compactGroup (stripResources group) = compactGroup group :=
  rfl

theorem compact_compact (group : Group F) :
    compactGroup (compactGroup group) = compactGroup group :=
  rfl

theorem ids_compactGroup (kind : String) (group : Group F) :
    ids kind (compactGroup group).items = [] := by
  simp [ids,compactGroup,idFor,textAt,fieldOf,fieldAt,messageItem]

omit [ProviderRuntime F] in
theorem ids_filter {kind : String} {drop : Value F → Bool} {items : List (Value F)}
    (h : ∀ item ∈ items, drop item = true → idFor kind item = none) :
    ids kind (items.filter fun item => !drop item) = ids kind items := by
  induction items with
  | nil => rfl
  | cons item items ih =>
    have htail := ih fun other hmem => h other (List.mem_cons_of_mem item hmem)
    by_cases hitem : drop item = true
    · have hnone := h item List.mem_cons_self hitem
      rw [List.filter_cons_of_neg (by simp [hitem]),htail,ids,ids,List.filterMap_cons_none hnone]
    · rw [List.filter_cons_of_pos (by simp [hitem])]
      rw [ids] at htail
      rw [ids,ids,List.filterMap_cons,List.filterMap_cons,htail]
      rfl

omit [ProviderRuntime F] in
theorem resource_role {item : Value F} (h : isResource item = true) :
    (fieldOf item "role").isSome = true := by
  cases hfield : fieldOf item "role" with
  | none => simp [isResource,hfield] at h
  | some role => rfl

omit [ProviderRuntime F] in
theorem Unmixed.resource {items : List (Value F)} (h : Unmixed items) :
    ∀ item ∈ items, isResource item = true →
      idFor callKind item = none ∧ idFor outputKind item = none :=
  fun item hitem hresource => h item hitem (resource_role hresource)

/-- What is sent of a whole group is whole. -/
theorem Reduced.sound {group group' : Group F} (h : Reduced group group')
    (hblock : Block group.items) (hunmixed : Unmixed group.items) :
    Block group'.items ∧ Unmixed group'.items := by
  cases h with
  | kept => exact ⟨hblock,hunmixed⟩
  | compacted =>
    refine ⟨⟨(compactGroup group).items,[],(List.append_nil _).symm,ids_compactGroup _ group,rfl,
      (ids_compactGroup _ group).symm⟩,fun item hitem _ => ?_⟩
    rw [List.mem_singleton.mp hitem]
    exact ⟨rfl,rfl⟩
  | stripped =>
    refine ⟨?_,fun item hitem => hunmixed item (List.mem_filter.mp hitem).1⟩
    obtain ⟨answer,rest,hitems,hanswer,hrest,hsame⟩ := hblock
    have hresource := hunmixed.resource
    rw [hitems] at hresource
    have hof : ∀ kind, kind = callKind ∨ kind = outputKind → ∀ part, (∀ item ∈ part,
        item ∈ answer ++ rest) → ids kind (part.filter fun item => !isResource item) =
        ids kind part := by
      intro kind hkind part hpart
      refine ids_filter fun item hitem hres => ?_
      rcases hkind with rfl | rfl
      · exact (hresource item (hpart item hitem) hres).1
      · exact (hresource item (hpart item hitem) hres).2
    have hleft := fun item (hitem : item ∈ answer) => List.mem_append_left rest hitem
    have hright := fun item (hitem : item ∈ rest) => List.mem_append_right answer hitem
    refine ⟨answer.filter fun item => !isResource item,rest.filter fun item => !isResource item,
      ?_,?_,?_,?_⟩
    · rw [stripResources,hitems,List.filter_append]
    · rw [hof _ (.inr rfl) answer hleft,hanswer]
    · rw [hof _ (.inl rfl) rest hright,hrest]
    · rw [hof _ (.inr rfl) rest hright,hof _ (.inl rfl) answer hleft,hsame]

theorem Reduced.calls {group group' : Group F} (h : Reduced group group')
    (hunmixed : Unmixed group.items) :
    ids callKind group'.items = [] ∧ group'.items.length = 1 ∨
      ids callKind group'.items = ids callKind group.items := by
  cases h with
  | kept => exact .inr rfl
  | compacted => exact .inl ⟨ids_compactGroup _ group,rfl⟩
  | stripped =>
    exact .inr (ids_filter fun item hitem hres => (hunmixed.resource item hitem hres).1)

theorem reduced_compact (groups : List (Group F)) :
    List.Forall₂ Reduced groups (groups.map compactGroup) := by
  induction groups with
  | nil => exact .nil
  | cons group groups ih => exact .cons (.compacted group) ih

theorem reduced_last {last last' : Group F} (groups : List (Group F)) (h : Reduced last last') :
    List.Forall₂ Reduced (groups ++ [last]) (groups.map compactGroup ++ [last']) :=
  List.rel_append (reduced_compact groups) (.cons h .nil)

/-- What is sent of the finished rounds fits with what is counted for it. -/
theorem fitLoopInput_spec {count : List (Value F) → List Tool → ℕ} {budget : ℕ}
    {base : List (Value F)} {groups groups' : List (Group F)} {tools : List Tool}
    (h : fitLoopInput count budget base groups tools = some groups') :
    List.Forall₂ Reduced groups groups' ∧
      countInputTokens count (flatten base groups') tools ≤ budget := by
  have hkept : List.Forall₂ Reduced groups groups := List.forall₂_same.mpr fun g _ => .kept g
  rw [fitLoopInput] at h
  simp only [decide_eq_true_eq] at h
  rcases List.eq_nil_or_concat' groups with rfl | ⟨earlier,last,rfl⟩
  · split_ifs at h with h1 h2 h3
    · cases h
      exact ⟨.nil,h1⟩
    · cases h
      exact ⟨.nil,h2⟩
    all_goals exact absurd rfl h3
  · have hcompacted : compactEarlier (earlier ++ [last]) = earlier.map compactGroup ++ [last] := by
      simp [compactEarlier]
    have hchange : ∀ f (other : Group F), changeLast f (earlier.map compactGroup ++ [other]) =
        earlier.map compactGroup ++ [f other] := by
      intro f other
      simp [changeLast]
    simp only [hcompacted,hchange,compact_strip] at h
    split_ifs at h with h1 h2 h3 h4 h5 <;> cases h
    · exact ⟨hkept,h1⟩
    · exact ⟨reduced_last earlier (.kept last),h2⟩
    · exact ⟨reduced_last earlier (.stripped last),h4⟩
    · exact ⟨reduced_last earlier (.compacted last),h5⟩

/-- Finished rounds whose calls are distinct and answered. -/
structure Whole (groups : List (Group F)) : Prop where
  blocks : ∀ group ∈ groups, Block group.items
  unmixed : ∀ group ∈ groups, Unmixed group.items
  distinct : (groupIds groups).Nodup

omit [ProviderRuntime F] in
theorem whole_nil : Whole (F := F) [] := ⟨by simp,by simp,List.nodup_nil⟩

/-- A message of one text. -/
def textItem (role content : String) : Value F :=
  .obj [("role",.str role),("content",.str content)]

theorem redactItem_textItem (contents : List String) (role content : String) :
    redactItem (F := F) contents (textItem role content) =
      textItem (wordAt F contents role) (wordAt F contents content) := by
  let := TextRuntime.toPyRuntime F
  have hrole := redactItem_str (F := F) contents role
  have hcontent := redactItem_str (F := F) contents content
  rw [redactItem] at hrole hcontent
  rw [redactItem,textItem,redactGuardedValue_obj]
  simp only [List.map_cons,List.map_nil,hrole,hcontent]
  rfl

/-- Whether a group stands for a round: with all its calls, or as one message about it. -/
def Represents (r : Round F) (group : Group F) : Prop :=
  (∃ role content, group.items = [textItem role content]) ∨
    (ids callKind group.items).length = r.calls.length

theorem Represents.reduced {r : Round F} {group group' : Group F} (h : Represents r group)
    (hunmixed : Unmixed group.items) (hreduced : Reduced group group') : Represents r group' := by
  cases hreduced with
  | kept => exact h
  | compacted => exact .inl ⟨_,_,rfl⟩
  | stripped =>
    rcases h with ⟨role,content,hitems⟩ | hcalls
    · refine .inl ⟨role,content,?_⟩
      have htext : isResource (F := F) (textItem role content) = false := by
        simp [isResource,textItem,fieldOf,fieldAt]
      rw [stripResources,hitems,List.filter_cons_of_pos (by simp [htext])]
      rfl
    · have hsame := ids_filter fun item hitem hres => (hunmixed.resource item hitem hres).1
      exact .inr (by rw [stripResources,hsame]; exact hcalls)

theorem Represents.redact {r : Round F} {group : Group F} {contents : List String}
    (hkept : KeepsKinds F (guardedContents (guardedContents contents))) (h : Represents r group) :
    Represents r (redactGroup group contents) := by
  rcases h with ⟨role,content,hitems⟩ | hcalls
  · have hredacted := redactGroup_items group contents
    rw [hitems,List.map_singleton,redactItem_textItem] at hredacted
    exact .inl ⟨_,_,hredacted⟩
  · refine .inr ?_
    rw [redactGroup_items,ids_redactItem (by decide) hkept.1,List.length_map]
    exact hcalls

theorem groupIds_reduced {groups groups' : List (Group F)}
    (h : List.Forall₂ Reduced groups groups') (hunmixed : ∀ group ∈ groups, Unmixed group.items) :
    (groupIds groups').Sublist (groupIds groups) := by
  induction h with
  | nil => exact .slnil
  | @cons group group' groups groups' hreduced hrest ih =>
    have htail := ih fun other hmem => hunmixed other (List.mem_cons_of_mem group hmem)
    rw [groupIds,groupIds,List.flatMap_cons,List.flatMap_cons]
    refine List.Sublist.append ?_ htail
    rcases hreduced.calls (hunmixed group List.mem_cons_self) with ⟨hnone,_⟩ | hsame
    · rw [hnone]
      exact List.nil_sublist _
    · rw [hsame]

theorem Whole.reduced {groups groups' : List (Group F)} (h : Whole groups)
    (hreduced : List.Forall₂ Reduced groups groups') : Whole groups' := by
  have hsound : ∀ group' ∈ groups', Block group'.items ∧ Unmixed group'.items := by
    intro group' hmem
    obtain ⟨group,hgroup,hsource⟩ := forall₂_source hreduced hmem
    exact hsource.sound (h.blocks group hgroup) (h.unmixed group hgroup)
  exact ⟨fun group hmem => (hsound group hmem).1,fun group hmem => (hsound group hmem).2,
    (groupIds_reduced hreduced h.unmixed).nodup h.distinct⟩

theorem represents_reduced {rounds : List (Round F)} {groups groups' : List (Group F)}
    (h : List.Forall₂ Represents rounds groups) (hunmixed : ∀ group ∈ groups, Unmixed group.items)
    (hreduced : List.Forall₂ Reduced groups groups') : List.Forall₂ Represents rounds groups' := by
  induction h generalizing groups' with
  | nil => cases hreduced; exact .nil
  | @cons r group rounds groups hrepresents hrest ih =>
    cases hreduced with
    | cons hhead htail =>
      exact .cons (hrepresents.reduced (hunmixed group List.mem_cons_self) hhead)
        (ih (fun other hmem => hunmixed other (List.mem_cons_of_mem group hmem)) htail)

/-! What is kept of the messages that a loop starts with. -/

/-- An item as redactions leave it. -/
inductive RedactedFrom (item : Value F) : Value F → Prop where
  | same : RedactedFrom item item
  | redact {item' : Value F} (contents : List String) :
      RedactedFrom item item' → RedactedFrom item (redactItem contents item')

/-- The messages that a loop starts with, without the task where it is read anew. -/
def protectedItems (reads : Bool) (messages : List Message) : List (Value F) :=
  (messages.map messageItem).filter fun item => !(reads && isCheckpoint item)

/-- A base of messages that ends with the protected ones. -/
structure Protects (reads : Bool) (messages : List Message) (base : List (Value F)) : Prop where
  ends : ∃ front shown, base = front ++ shown ∧
    List.Forall₂ RedactedFrom (protectedItems reads messages) shown
  texts : ∀ item ∈ base, ∃ role content, item = textItem role content

/-- A base of which the protected messages are left when the task is read anew. -/
def Restores (reads : Bool) (messages : List Message) (base : List (Value F)) : Prop :=
  Protects reads messages (base.filter fun item => !(reads && isCheckpoint item)) ∧
    ∀ item ∈ base, ∃ role content, item = textItem role content

theorem isCheckpoint_textItem (role content : String) :
    isCheckpoint (F := F) (textItem role content) = true ↔
      role = "developer" ∧ checkpointStart.toList <+: content.toList := by
  simp [isCheckpoint,textItem,fieldOf,fieldAt,contentText]

/-- A redacted message carries the task only if the message does. -/
theorem isCheckpoint_redacted {contents : List String} {role content : String}
    (h : isCheckpoint (redactItem (F := F) contents (textItem role content)) = true) :
    isCheckpoint (F := F) (textItem role content) = true := by
  let := TextRuntime.toPyRuntime F
  rw [redactItem_textItem,isCheckpoint_textItem] at h
  rw [isCheckpoint_textItem]
  exact ⟨wordAt_eq (by decide) h.1, redactGuardedText_prefix _ _ (by decide) h.2⟩

theorem RedactedFrom.text {item item' : Value F} (h : RedactedFrom item item')
    (hitem : ∃ role content, item = textItem role content) :
    ∃ role content, item' = textItem role content := by
  induction h with
  | same => exact hitem
  | redact contents _ ih =>
    obtain ⟨role,content,rfl⟩ := ih
    exact ⟨_,_,redactItem_textItem contents role content⟩

theorem RedactedFrom.checkpoint {item item' : Value F} (h : RedactedFrom item item')
    (hitem : ∃ role content, item = textItem role content) (hcheck : isCheckpoint item' = true) :
    isCheckpoint item = true := by
  induction h with
  | same => exact hcheck
  | redact contents hfrom ih =>
    obtain ⟨role,content,rfl⟩ := hfrom.text hitem
    exact ih (isCheckpoint_redacted hcheck)

theorem protectedItems_text {reads : Bool} {messages : List Message} {item : Value F}
    (h : item ∈ protectedItems reads messages) : ∃ role content, item = textItem role content := by
  obtain ⟨message,_,rfl⟩ := List.mem_map.mp (List.mem_filter.mp h).1
  exact ⟨_,_,rfl⟩

theorem restores_start (reads : Bool) (messages : List Message) :
    Restores (F := F) reads messages (messages.map messageItem) := by
  have htexts : ∀ item ∈ messages.map (messageItem (F := F)),
      ∃ role content, item = textItem role content := by
    intro item hitem
    obtain ⟨message,_,rfl⟩ := List.mem_map.mp hitem
    exact ⟨_,_,rfl⟩
  exact ⟨⟨⟨[],_,rfl,List.forall₂_same.mpr fun item _ => .same⟩,
    fun item hitem => protectedItems_text hitem⟩,htexts⟩

/-- The task that is read comes first, then what is left of the base. -/
theorem Restores.current {reads : Bool} {messages : List Message} {base : List (Value F)}
    (h : Restores reads messages base) (checkpoint : Option Message) :
    Protects reads messages (currentBase reads checkpoint base) ∧
      ((if reads then checkpoint else none).map messageItem).toList <+:
        currentBase reads checkpoint base := by
  cases reads with
  | false =>
    have hall : base.filter (fun item => !(false && isCheckpoint item)) = base := by simp
    have hprotects := h.1
    rw [hall] at hprotects
    exact ⟨hprotects,List.nil_prefix⟩
  | true =>
    obtain ⟨⟨front,shown,hbase,hshown⟩,htexts⟩ := h.1
    simp only [Bool.true_and] at hbase htexts
    have hcurrent : currentBase true checkpoint base =
        (checkpoint.map messageItem).toList ++ base.filter fun item => !isCheckpoint item := rfl
    refine ⟨⟨⟨(checkpoint.map messageItem).toList ++ front,shown,?_,hshown⟩,?_⟩,?_⟩
    · rw [hcurrent,hbase,List.append_assoc]
    · intro item hitem
      rw [hcurrent] at hitem
      rcases List.mem_append.mp hitem with hmem | hmem
      · obtain ⟨message,_,rfl⟩ := Option.map_eq_some_iff.mp (Option.mem_toList.mp hmem)
        exact ⟨_,_,rfl⟩
      · exact htexts item hmem
    · exact List.prefix_append _ _

theorem Protects.redact {reads : Bool} {messages : List Message} {base : List (Value F)}
    (h : Protects reads messages base) (contents : List String) :
    Protects reads messages (base.map (redactItem contents)) := by
  obtain ⟨⟨front,shown,rfl,hshown⟩,htexts⟩ := h
  refine ⟨⟨front.map (redactItem contents),shown.map (redactItem contents),List.map_append,?_⟩,?_⟩
  · rw [List.forall₂_map_right_iff]
    exact hshown.imp fun item item' hfrom => .redact contents hfrom
  · intro item hitem
    obtain ⟨source,hsource,rfl⟩ := List.mem_map.mp hitem
    obtain ⟨role,content,rfl⟩ := htexts source hsource
    exact ⟨_,_,redactItem_textItem contents role content⟩

/-- What is protected is no task that would be read anew. -/
theorem Protects.restores {reads : Bool} {messages : List Message} {base : List (Value F)}
    (h : Protects reads messages base) : Restores reads messages base := by
  refine ⟨⟨?_,fun item hitem => h.texts item (List.mem_filter.mp hitem).1⟩,h.texts⟩
  obtain ⟨front,shown,rfl,hshown⟩ := h.ends
  have hkept : shown.filter (fun item => !(reads && isCheckpoint item)) = shown := by
    refine List.filter_eq_self.mpr fun item hitem => ?_
    obtain ⟨source,hsource,hfrom⟩ := forall₂_source hshown hitem
    have hfree := (List.mem_filter.mp hsource).2
    by_contra hcheck
    have hboth : reads = true ∧ isCheckpoint item = true := by simpa using hcheck
    have hchecked := hfrom.checkpoint (protectedItems_text hsource) hboth.2
    simp [hboth.1,hchecked] at hfree
  exact ⟨_,_,(List.filter_append ..).trans (congrArg _ hkept),hshown⟩

omit [ProviderRuntime F] in
theorem ids_texts {kind : String} {items : List (Value F)}
    (h : ∀ item ∈ items, ∃ role content, item = textItem role content) : ids kind items = [] := by
  refine List.filterMap_eq_nil_iff.mpr fun item hitem => ?_
  obtain ⟨role,content,rfl⟩ := h item hitem
  rfl

end

end ToolLoop
end Atlas
