import Atlas.Control.Polkit

/-! The rendered rule against what the policy grants. -/
namespace Atlas
namespace HostPolicy

open RuleScript

/-- A unit of the policy lists the verb of the request. -/
def Policy.UnitLists (p : Policy) (r : Request) : Prop :=
  ∃ unit verb verbs, r.details "unit" = some unit ∧ r.details "verb" = some verb ∧
    (unit,verbs) ∈ p.units ∧ verb ∈ verbs

def Policy.ListsUnitFileVerb (p : Policy) : Prop :=
  ∃ unit ∈ p.units, ∃ verb ∈ unit.2, verb ∈ unitFileVerbs

/-- A grant for the action of the request names who asks. -/
def Policy.GrantsExplicitly (p : Policy) (r : Request) : Prop :=
  ∃ names, (r.action,names) ∈ p.grants ∧ r.user ∈ names

/-- What the policy grants, whichever of its parts says so. -/
def Policy.Grants (p : Policy) (r : Request) : Prop :=
  r.user ∈ p.subjects ∧
    ((r.action = manageUnitsAction ∧ p.UnitLists r) ∨
      (r.action = manageUnitFilesAction ∧ p.ListsUnitFileVerb) ∨ p.GrantsExplicitly r)

/-- What the policy grants with unit-file verbs left to their own action, and with a grant for
that action in the place of the general one. -/
def Policy.GrantsScoped (p : Policy) (r : Request) : Prop :=
  r.user ∈ p.subjects ∧
    ((r.action = manageUnitsAction ∧ (∃ verb ∈ manageUnitVerbs, r.details "verb" = some verb) ∧
        p.UnitLists r) ∨
      (r.action = manageUnitFilesAction ∧ p.ListsUnitFileVerb ∧
        manageUnitFilesAction ∉ p.grants.map Prod.fst) ∨ p.GrantsExplicitly r)

theorem listsUnitFileVerb_iff (p : Policy) :
    listsUnitFileVerb p.units = true ↔ p.ListsUnitFileVerb := by
  simp only [listsUnitFileVerb,Policy.ListsUnitFileVerb,List.any_eq_true,List.contains_iff_mem]

/-- The filtered verbs of a unit hold those that are scoped by unit. -/
theorem exists_unitVerbs_iff (p : Policy) (r : Request) :
    (∃ unit verb verbs, r.details "unit" = some unit ∧ r.details "verb" = some verb ∧
      (unit,verbs) ∈ unitVerbs p ∧ verb ∈ verbs) ↔
        (∃ verb ∈ manageUnitVerbs, r.details "verb" = some verb) ∧ p.UnitLists r := by
  constructor
  · rintro ⟨unit,verb,verbs,hunit,hverb,hmem,hin⟩
    obtain ⟨listed,hlisted,rfl⟩ := (Policy.Accepted.mem_unitVerbs unit verbs).mp hmem
    rw [List.mem_filter,List.contains_iff_mem] at hin
    exact ⟨⟨verb,hin.2,hverb⟩,unit,verb,listed,hunit,hverb,hlisted,hin.1⟩
  · rintro ⟨⟨verb,hknown,hverb⟩,unit,verb',verbs,hunit,hverb',hmem,hin⟩
    obtain rfl : verb = verb' := Option.some.inj (hverb.symm.trans hverb')
    refine ⟨unit,verb,_,hunit,hverb,(Policy.Accepted.mem_unitVerbs unit _).mpr ⟨verbs,hmem,rfl⟩,?_⟩
    rw [List.mem_filter,List.contains_iff_mem]
    exact ⟨hin,hknown⟩

/-- The rule of an accepted policy, for requests whose action is not granted both by unit and
explicitly. -/
theorem allows_iff_grantsScoped {p : Policy} (hp : p.Accepted) {r : Request}
    (h : ¬(r.action = manageUnitsAction ∧ p.GrantsExplicitly r)) :
    (polkitRule p).Allows r ↔ p.GrantsScoped r := by
  rw [hp.allows_iff,Policy.GrantsScoped]
  refine and_congr_right fun huser => ?_
  by_cases hunits : r.action = manageUnitsAction
  · have hexplicit : ¬p.GrantsExplicitly r := fun hg => h ⟨hunits,hg⟩
    have hfiles : r.action ≠ manageUnitFilesAction := by rw [hunits]; decide
    simp only [hunits,if_true,exists_unitVerbs_iff,true_and]
    rw [hunits] at hfiles
    simp [hfiles,hexplicit]
  · simp only [hunits,if_false,false_and,false_or]
    constructor
    · rintro ⟨names,hmem,hin⟩
      rcases (hp.mem_grantTable _ names).mp hmem with hgrant | ⟨hfiles,hverbs,_,hnone⟩
      · exact .inr ⟨names,hgrant,hin⟩
      · rw [hp.unitFiles,listsUnitFileVerb_iff] at hverbs
        exact .inl ⟨hfiles,hverbs,hnone⟩
    · rintro (⟨hfiles,hverbs,hnone⟩ | ⟨names,hgrant,hin⟩)
      · refine ⟨p.subjects,(hp.mem_grantTable _ _).mpr (.inr ⟨hfiles,?_,rfl,hnone⟩),huser⟩
        rw [hp.unitFiles,listsUnitFileVerb_iff]
        exact hverbs
      · exact ⟨names,(hp.mem_grantTable _ names).mpr (.inl hgrant),hin⟩

/-- The rendered rule is read as a program, and it allows what the policy grants with unit-file
verbs left to their own action and with explicit grants in the place of general ones. -/
theorem rule_allows_grants {O : Type} [TomlRuntime O] {text : String} {p : Policy}
    (h : loadPolicy O text = .ok p) : ∃ rule, readRule (renderPolkitRules p) = some rule ∧
      ∀ r, ¬(r.action = manageUnitsAction ∧ p.GrantsExplicitly r) →
        (rule.Allows r ↔ p.GrantsScoped r) :=
  have hp := loadPolicy_accepted h
  ⟨polkitRule p,hp.readRule_eq,fun _ hr => allows_iff_grantsScoped hp hr⟩

/-- The owner may enable units, and an explicit grant for it names the tools user only. -/
def narrowedText : String :=
  "[identity]\nowner_user = \"jaco\"\n[[managed_units]]\nunit = \"a.service\"\n" ++
  "verbs = [\"start\", \"enable\"]\n[[polkit.grants]]\n" ++
  "action = \"org.freedesktop.systemd1.manage-unit-files\"\nidentities = [\"atlas-tools\"]\n"

def narrowedData : List (String × Toml Unit) :=
  [("identity",.table [("owner_user",.text "jaco")]),
    ("managed_units",.array [.table
      [("unit",.text "a.service"),("verbs",.array [.text "start",.text "enable"])]]),
    ("polkit",.table [("grants",.array [.table [("action",.text manageUnitFilesAction),
      ("identities",.array [.text "atlas-tools"])]])])]

def narrowedPolicy : Policy where
  user := "atlas-tools"
  owner := some "jaco"
  groups := ["systemd-journal"]
  units := [("a.service",["start","enable"])]
  unitFileGrant := true
  grants := [(manageUnitFilesAction,["atlas-tools"])]
  shellCommands := []
  allowRiskyCommands := false
  defaultTimeoutSeconds := 20
  maxTimeoutSeconds := 60
  outputLimitBytes := 262144
  systemdTools := defaultSystemdTools
  polkitTimeoutSeconds := 5
  warnings := [("unit-file verbs are listed: polkit cannot scope " ++
    "org.freedesktop.systemd1.manage-unit-files per unit, so it is granted for every unit")]

theorem narrowedPolicy_loaded :
    letI := readsAs narrowedText narrowedData
    loadPolicy Unit narrowedText = .ok narrowedPolicy := by
  decide +kernel

/-- A request about a unit. -/
def unitRequest (action user verb : String) : Request where
  action := action
  details key := if key = "unit" then some "a.service" else if key = "verb" then some verb else none
  user := user

theorem rule_allows_grants_narrowed :
    ∃ rule, readRule (renderPolkitRules narrowedPolicy) = some rule ∧
      rule.Allows (unitRequest manageUnitsAction "jaco" "start") ∧
      ¬rule.Allows (unitRequest manageUnitFilesAction "jaco" "enable") := by
  let _ := readsAs narrowedText narrowedData
  obtain ⟨rule,hread,hrule⟩ := rule_allows_grants narrowedPolicy_loaded
  have hnone : ∀ action verb, ¬narrowedPolicy.GrantsExplicitly (unitRequest action "jaco" verb) := by
    rintro action verb ⟨names,hmem,huser⟩
    obtain ⟨rfl,rfl⟩ : action = manageUnitFilesAction ∧ names = ["atlas-tools"] := by
      simpa [narrowedPolicy,unitRequest] using hmem
    have hjaco : "jaco" ∈ ["atlas-tools"] := huser
    exact absurd hjaco (by decide)
  refine ⟨rule,hread,?_,?_⟩
  · refine (hrule _ fun h => hnone _ _ h.2).mpr ⟨by decide,.inl ⟨rfl,⟨"start",by decide,rfl⟩,?_⟩⟩
    exact ⟨"a.service","start",["start","enable"],rfl,rfl,by decide,by decide⟩
  · rw [hrule _ fun h => hnone _ _ h.2]
    rintro ⟨_,⟨h,_⟩ | ⟨_,_,h⟩ | h⟩
    · exact absurd h (by decide)
    · exact h (by decide)
    · exact hnone _ _ h

/-- The owner may not enable units although a unit lists the verb, and a verb that changes unit
files is no verb of a unit. -/
theorem grant_narrowed :
    letI := readsAs narrowedText narrowedData
    loadPolicy Unit narrowedText = .ok narrowedPolicy ∧
      ∃ rule, readRule (renderPolkitRules narrowedPolicy) = some rule ∧
        (narrowedPolicy.Grants (unitRequest manageUnitFilesAction "jaco" "enable") ∧
          ¬rule.Allows (unitRequest manageUnitFilesAction "jaco" "enable")) ∧
        (narrowedPolicy.Grants (unitRequest manageUnitsAction "jaco" "enable") ∧
          ¬rule.Allows (unitRequest manageUnitsAction "jaco" "enable")) := by
  have hp : narrowedPolicy.Accepted :=
    let _ := readsAs narrowedText narrowedData
    loadPolicy_accepted narrowedPolicy_loaded
  refine ⟨narrowedPolicy_loaded,polkitRule narrowedPolicy,hp.readRule_eq,⟨?_,?_⟩,?_,?_⟩
  · refine ⟨by decide,.inr (.inl ⟨rfl,?_⟩)⟩
    exact ⟨("a.service",["start","enable"]),by decide,"enable",by decide,by decide⟩
  · decide +kernel
  · refine ⟨by decide,.inl ⟨rfl,?_⟩⟩
    exact ⟨"a.service","enable",["start","enable"],rfl,rfl,by decide,by decide⟩
  · decide +kernel

end HostPolicy
end Atlas
