import Atlas.Toml

/-! The owner's host policy: what is accepted of its text, and what an accepted policy holds. -/
namespace Atlas
namespace HostPolicy

/-! Names. -/

/-- `USER_NAME`, which is `GROUP_NAME` too. -/
def userName (s : String) : Bool :=
  isName (fun c => c.isLower || c == '_') (fun c => c.isLower || c.isDigit || c == '_' || c == '-')
    (chop s.toList) && (chop s.toList).length ≤ 32

def commandName (s : String) : Bool :=
  isName (fun c => c.isLower || c.isDigit)
    (fun c => c.isLower || c.isDigit || c == '_' || c == '.' || c == '+' || c == '-')
    (chop s.toList) && (chop s.toList).length ≤ 64

def toolName (s : String) : Bool :=
  isName Char.isLower (fun c => c.isLower || c.isDigit || c == '_') (chop s.toList) &&
    (chop s.toList).length ≤ 64

def polkitAction (s : String) : Bool :=
  let parts := (chop s.toList).splitOn '.'
  2 ≤ parts.length &&
    parts.all (isName Char.isLower fun c => c.isLower || c.isDigit || c == '-')

def unitSuffixes : List String :=
  [".service",".timer",".socket",".target",".path",".mount",".scope",".slice"]

def unitName (s : String) : Bool :=
  let cs := chop s.toList
  unitSuffixes.any fun suffix =>
    let stem := cs.take (cs.length - suffix.toList.length)
    cs.drop (cs.length - suffix.toList.length) == suffix.toList &&
      isName Char.isAlphanum (fun c => c.isAlphanum || c == '_' || c == '.' || c == '@' ||
        c == ':' || c == '\\' || c == '-') stem && stem.length ≤ 255

/-! Verbs, tools and commands. -/

def manageUnitVerbs : List String :=
  ["start","stop","restart","reload","try-restart","reload-or-restart","reset-failed","kill",
    "set-property"]

def unitFileVerbs : List String := ["enable","disable","mask","unmask","preset","link","revert"]

def manageUnitsAction : String := "org.freedesktop.systemd1.manage-units"

def manageUnitFilesAction : String := "org.freedesktop.systemd1.manage-unit-files"

def defaultGroups : List String := ["systemd-journal"]

def defaultSystemdTools : List String :=
  ["list_loaded_units","list_unit_files","change_unit_state","check_restart_reload","list_log"]

def knownSystemdTools : List String := defaultSystemdTools ++ ["get_file","get_man_page"]

def riskyCommands : List String :=
  ["sh","bash","dash","zsh","fish","ksh","csh","tcsh","busybox","env","xargs","sudo","su","doas",
    "pkexec","python","python3","perl","ruby","node","npm","npx","uv","uvx","pip","pip3","awk",
    "gawk","mawk","sed","vi","vim","nano","ed","tee","dd","rm","mv","cp","chmod","chown","chgrp",
    "ln","mkdir","rmdir","touch","truncate","shred","mkfs","mount","umount","docker","podman",
    "nsenter","chroot","systemd-run","at","crontab","curl","wget","nc","ncat","netcat","socat",
    "ssh","scp","sftp","rsync","git","apt","apt-get","dpkg","snap","reboot","shutdown","poweroff",
    "halt","kill","pkill","killall","loginctl","machinectl","busctl","gdb","strace"]

/-- Why a policy is not accepted. -/
inductive Refusal where
  | policyError (message : String)
  | decodeError
  | attributeError
  | typeError
  deriving Repr, DecidableEq

/-- The error, unless the condition holds. -/
def ensure (condition : Bool) (message : String) : Except Refusal Unit :=
  if condition then .ok () else .error (.policyError message)

section

variable {O : Type}

/-- The value under a key; only tables have keys. -/
def valueAt (key : String) : Toml O → Except Refusal (Option (Toml O))
  | .table fields => .ok (fields.lookup key)
  | _ => .error .attributeError

/-- What is passed over in a loop. -/
def elements : Toml O → Except Refusal (List (Toml O))
  | .array items => .ok items
  | .text s => .ok (s.toList.map fun c => .text (String.singleton c))
  | .table fields => .ok (fields.map fun f => .text f.1)
  | _ => .error .typeError

/-- `key in value`. -/
def holdsKey (key : String) : Toml O → Except Refusal Bool
  | .table fields => .ok (fields.any fun f => f.1 == key)
  | .array items => .ok (items.any (Toml.isText key))
  | .text s => .ok (s.toList.tails.any fun cs => key.toList.isPrefixOf cs)
  | _ => .error .typeError

variable [TomlRuntime O]

/-- The items of the pattern, each once. -/
def collect (path what : String) (pattern : String → Bool) :
    List String → List String → Except Refusal (List String)
  | [],items => .ok items
  | s :: rest,items =>
      if !pattern s || s.toList.contains '/' then
        .error (.policyError
          (path ++ ": invalid " ++ what ++ " " ++ TomlRuntime.repr (.text s : Toml O)))
      else collect path what pattern rest (if s ∈ items then items else items ++ [s])

/-- `_string_list`. -/
def stringList (value : Option (Toml O)) (path : String) (pattern : String → Bool)
    (what : String) : Except Refusal (List String) :=
  match value with
  | none => .ok []
  | some (.array items) =>
      match textItems items with
      | some texts => collect (O := O) path what pattern texts []
      | none => .error (.policyError (path ++ " must be a list of strings"))
  | some _ => .error (.policyError (path ++ " must be a list of strings"))

def texts (items : List String) : Toml O := .array (items.map .text)

def tableOf (data : List (String × Toml O)) (key : String) : Toml O :=
  orElse (data.lookup key) (.table [])

/-! Who acts. -/

structure Identity where
  user : String
  owner : Option String
  groups : List String

/-- The tools user and the owner. -/
def Identity.subjects (i : Identity) : List String := i.user :: i.owner.toList

def checkUser (name : Toml O) : Except Refusal Unit :=
  ensure (userName name.shown) ("identity: invalid user name " ++ TomlRuntime.repr name)

def loadIdentity (data : List (String × Toml O)) : Except Refusal Identity := do
  let identity := tableOf data "identity"
  let user := (orElse (← valueAt "user" identity) (.text "atlas-tools")).shown
  let owner := (← valueAt "owner_user" identity).filter Toml.truthy
  checkUser (.text user : Toml O)
  (owner.map checkUser).getD (.ok ())
  let groups := (← valueAt "groups" identity).getD (texts defaultGroups)
  let groups ← stringList (some groups) "identity.groups" userName "group"
  return {user := user, owner := owner.map Toml.shown, groups := groups}

/-! Units and their verbs. -/

abbrev Table := List (String × List String)

def knownVerbs : List String := manageUnitVerbs ++ unitFileVerbs

/-- The verbs of a unit, which have to be known. -/
def loadVerbs (path : String) : List (Toml O) → Except Refusal (List String)
  | [] => .ok []
  | verb :: verbs =>
      match verb with
      | .text s =>
          if s ∈ knownVerbs then (loadVerbs path verbs).map (s :: ·)
          else .error (.policyError (path ++ ": unknown verb " ++ TomlRuntime.repr verb ++
            "; systemd verbs are " ++ ", ".intercalate knownVerbs))
      | _ => .error (.policyError (path ++ ": unknown verb " ++ TomlRuntime.repr verb ++
            "; systemd verbs are " ++ ", ".intercalate knownVerbs))

/-- One unit with its verbs, as the policy lists them. -/
def loadUnit (path : String) (units : Table) (item : Toml O) :
    Except Refusal (String × List String) := do
  ensure item.isTable (path ++ ": must be a table")
  let unit := (orElse (← valueAt "unit" item) (.text "")).shown
  ensure (unitName unit) (path ++ ": invalid unit name " ++ TomlRuntime.repr (.text unit : Toml O))
  ensure (!(units.map Prod.fst).contains unit) (path ++ ": duplicate unit " ++ unit)
  match ← valueAt "verbs" item with
  | some (.array (verb :: verbs)) =>
      (loadVerbs path (verb :: verbs)).map fun verbs => (unit,verbs.eraseDups)
  | _ => .error (.policyError (path ++ ": verbs must be a non-empty list"))

def loadUnits (index : ℕ) (units : Table) : List (Toml O) → Except Refusal Table
  | [] => .ok units
  | item :: items => do
      let unit ← loadUnit ("managed_units[" ++ toString index ++ "]") units item
      loadUnits (index + 1) (units ++ [unit]) items

/-! Grants. -/

def loadGrant (path : String) (identity : Identity) (grants : Table) (item : Toml O) :
    Except Refusal (String × List String) := do
  ensure item.isTable (path ++ ": must be a table")
  let action := (orElse (← valueAt "action" item) (.text "")).shown
  ensure (polkitAction action)
    (path ++ ": invalid polkit action id " ++ TomlRuntime.repr (.text action : Toml O))
  ensure (!(grants.map Prod.fst).contains action) (path ++ ": duplicate grant for " ++ action)
  let identities := (← valueAt "identities" item).getD (texts [identity.user])
  let identities ← stringList (some identities) (path ++ ".identities") userName "user name"
  let named := ", ".intercalate identity.subjects
  ensure (!identities.isEmpty) (path ++ ": identities must name at least one of " ++ named)
  match identities.find? fun name => !identity.subjects.contains name with
  | some name => .error (.policyError
      (path ++ ": identity " ++ TomlRuntime.repr (.text name : Toml O) ++
        " is not the tools user or the owner (" ++ named ++ ")"))
  | none => .ok (action,identities)

def loadGrants (identity : Identity) (index : ℕ) (grants : Table) :
    List (Toml O) → Except Refusal Table
  | [] => .ok grants
  | item :: items => do
      let grant ← loadGrant ("polkit.grants[" ++ toString index ++ "]") identity grants item
      loadGrants identity (index + 1) (grants ++ [grant]) items

/-! The policy. -/

structure Policy where
  user : String
  owner : Option String
  groups : List String
  units : Table
  unitFileGrant : Bool
  grants : Table
  shellCommands : List String
  allowRiskyCommands : Bool
  defaultTimeoutSeconds : ℤ
  maxTimeoutSeconds : ℤ
  outputLimitBytes : ℤ
  systemdTools : List String
  polkitTimeoutSeconds : ℤ
  warnings : List String
  deriving Repr, DecidableEq

/-- The tools user and the owner. -/
def Policy.subjects (p : Policy) : List String := p.user :: p.owner.toList

def bounded (table : Toml O) (key : String) (default low high : ℤ) (path : String) :
    Except Refusal ℤ := do
  let error : Except Refusal ℤ := .error (.policyError (path ++ "." ++ key ++
    " must be an integer between " ++ toString low ++ " and " ++ toString high))
  match (← valueAt key table).getD (.integer default) with
  | .integer n => if low ≤ n ∧ n ≤ high then .ok n else error
  | _ => error

/-- Whether some unit lists a verb that changes unit files. -/
def listsUnitFileVerb (units : Table) : Bool :=
  units.any fun unit => unit.2.any fun verb => unitFileVerbs.contains verb

def riskyOf (commands : List String) : List String := commands.filter (riskyCommands.contains ·)

def loadWarnings (units : Table) (risky groups tools : List String) : List String :=
  let unknown := tools.filter fun tool => !(knownSystemdTools.contains tool)
  (if listsUnitFileVerb units then
    ["unit-file verbs are listed: polkit cannot scope " ++ manageUnitFilesAction ++
      " per unit, so it is granted for every unit"] else []) ++
  (if risky.isEmpty then [] else
    ["risky commands granted deliberately: " ++ ", ".intercalate risky]) ++
  (if groups.contains "docker" then
    ["identity.groups includes docker, which is root-equivalent on this host"] else []) ++
  (if unknown.isEmpty then [] else
    ["systemd.enabled_tools names tools this policy does not know: " ++
      ", ".intercalate unknown]) ++
  (if tools.contains "get_file" then
    ["get_file lets the model read any file the tools identity can read"] else [])

/-- The commands of the shell server, and whether risky ones are allowed. -/
def loadShell (shell : Toml O) : Except Refusal (List String × Bool) := do
  let allowRisky := ((← valueAt "allow_risky_commands" shell).map Toml.truthy).getD false
  let commands ← stringList (← valueAt "allow_commands" shell) "shell.allow_commands" commandName
    "command name"
  ensure ((riskyOf commands).isEmpty || allowRisky)
    ("shell.allow_commands lists commands that can write, escalate or interpret (" ++
      ", ".intercalate (riskyOf commands) ++
      "); set shell.allow_risky_commands = true to grant them deliberately")
  return (commands,allowRisky)

/-- The explicit grants of the policy. -/
def loadPolkit (identity : Identity) (polkit : Toml O) : Except Refusal Table := do
  let extra ← holdsKey "extra_actions" polkit
  ensure (!extra) ("polkit.extra_actions was replaced by [[polkit.grants]] entries with " ++
    "an explicit identity list")
  let items ← elements (orElse (← valueAt "grants" polkit) (.array []))
  loadGrants identity 0 [] items

/-- `load_policy` of the values that the text holds. -/
def loadData (data : List (String × Toml O)) : Except Refusal Policy := do
  let identity ← loadIdentity data
  let items ← elements (orElse (data.lookup "managed_units") (.array []))
  let units ← loadUnits 0 [] items
  let grants ← loadPolkit identity (tableOf data "polkit")
  let shell := tableOf data "shell"
  let (commands,allowRisky) ← loadShell shell
  let systemd := tableOf data "systemd"
  let tools := (← valueAt "enabled_tools" systemd).getD (texts defaultSystemdTools)
  let tools ← stringList (some tools) "systemd.enabled_tools" toolName "tool name"
  let defaultTimeout ← bounded shell "default_timeout_seconds" 20 1 3600 "shell"
  let maxTimeout ← bounded shell "max_timeout_seconds" 60 1 3600 "shell"
  let outputLimit ← bounded shell "output_limit_bytes" 262144 1024 (16 * 1024 * 1024) "shell"
  let polkitTimeout ← bounded systemd "polkit_timeout_seconds" 5 1 60 "systemd"
  return {
    user := identity.user
    owner := identity.owner
    groups := identity.groups
    units := units
    unitFileGrant := listsUnitFileVerb units
    grants := grants
    shellCommands := commands
    allowRiskyCommands := allowRisky
    defaultTimeoutSeconds := defaultTimeout
    maxTimeoutSeconds := maxTimeout
    outputLimitBytes := outputLimit
    systemdTools := tools
    polkitTimeoutSeconds := polkitTimeout
    warnings := loadWarnings units (riskyOf commands) identity.groups tools}

variable (O) in
/-- `load_policy`. -/
def loadPolicy (text : String) : Except Refusal Policy :=
  match TomlRuntime.loads (O := O) text with
  | some data => loadData data
  | none => .error .decodeError

/-! What an accepted policy holds. -/

theorem collect_ok {path what : String} {pattern : String → Bool} {listed items result : List String}
    (h : collect (O := O) path what pattern listed items = .ok result) :
    (∀ s ∈ listed, pattern s = true ∧ '/' ∉ s.toList) ∧
      ∀ s, s ∈ result ↔ s ∈ items ∨ s ∈ listed := by
  induction listed generalizing items with
  | nil =>
    cases h
    simp
  | cons s listed ih =>
    simp only [collect] at h
    split_ifs at h with hs hmem
    · simp only [Bool.or_eq_true,Bool.not_eq_true',List.contains_iff_mem,not_or,
        Bool.not_eq_false] at hs
      obtain ⟨hall,hresult⟩ := ih h
      refine ⟨List.forall_mem_cons.mpr ⟨hs,hall⟩,fun t => ?_⟩
      rw [hresult t,List.mem_cons]
      constructor
      · rintro (ht | ht)
        · exact .inl ht
        · exact .inr (.inr ht)
      · rintro (ht | rfl | ht)
        · exact .inl ht
        · exact .inl hmem
        · exact .inr ht
    · simp only [Bool.or_eq_true,Bool.not_eq_true',List.contains_iff_mem,not_or,
        Bool.not_eq_false] at hs
      obtain ⟨hall,hresult⟩ := ih h
      refine ⟨List.forall_mem_cons.mpr ⟨hs,hall⟩,fun t => ?_⟩
      rw [hresult t,List.mem_append,List.mem_singleton,List.mem_cons,or_assoc]

/-- The texts that a value lists. -/
def listed (value : Option (Toml O)) : List String :=
  match value with
  | some (.array items) => (textItems items).getD []
  | _ => []

theorem stringList_ok {value : Option (Toml O)} {path what : String} {pattern : String → Bool}
    {items : List String} (h : stringList value path pattern what = .ok items) :
    (∀ s ∈ items, pattern s = true ∧ '/' ∉ s.toList) ∧ ∀ s, s ∈ items ↔ s ∈ listed value := by
  unfold stringList at h
  split at h
  · cases h
    simp [listed]
  · next values =>
    split at h
    · next texts htexts =>
      obtain ⟨hall,hresult⟩ := collect_ok h
      have hmem : ∀ s, s ∈ items ↔ s ∈ texts := fun s => by simpa using hresult s
      exact ⟨fun s hs => hall s ((hmem s).mp hs),fun s => by simp [listed,htexts,hmem]⟩
    · cases h
  · cases h

/-- The verbs of every unit are known, and every unit is listed once. -/
structure UnitTable (units : Table) : Prop where
  names : ∀ unit ∈ units, unitName unit.1 = true
  once : (units.map Prod.fst).Nodup
  verbs : ∀ unit ∈ units, ∀ verb ∈ unit.2, verb ∈ knownVerbs

theorem loadVerbs_known {path : String} {items : List (Toml O)} {verbs : List String}
    (h : loadVerbs path items = .ok verbs) : ∀ verb ∈ verbs, verb ∈ knownVerbs := by
  induction items generalizing verbs with
  | nil =>
    cases h
    simp
  | cons item items ih =>
    unfold loadVerbs at h
    split at h
    · next s =>
      split_ifs at h with hs
      cases hmore : loadVerbs path items with
      | error e => rw [hmore] at h; cases h
      | ok more =>
        rw [hmore] at h
        cases h
        exact List.forall_mem_cons.mpr ⟨hs,ih hmore⟩
    · cases h

theorem ensure_ok {condition : Bool} {message : String} {u : Unit}
    (h : ensure condition message = .ok u) : condition = true := by
  unfold ensure at h
  split at h
  · assumption
  · cases h

theorem loadUnit_ok {path : String} {units : Table} {item : Toml O} {unit : String × List String}
    (h : loadUnit path units item = .ok unit) :
    unitName unit.1 = true ∧ unit.1 ∉ units.map Prod.fst ∧ ∀ verb ∈ unit.2, verb ∈ knownVerbs := by
  unfold loadUnit at h
  obtain ⟨_,_,h⟩ := ok_of_bind h
  obtain ⟨name,_,h⟩ := ok_of_bind h
  obtain ⟨_,hname,h⟩ := ok_of_bind h
  obtain ⟨_,honce,h⟩ := ok_of_bind h
  obtain ⟨value,_,h⟩ := ok_of_bind h
  split at h
  · next verb verbs _ =>
    cases hverbs : loadVerbs path (verb :: verbs) with
    | error e => rw [hverbs] at h; cases h
    | ok verbs =>
      rw [hverbs] at h
      cases h
      refine ⟨ensure_ok hname,by simpa using ensure_ok honce,fun v hv => ?_⟩
      exact loadVerbs_known hverbs v (List.mem_eraseDups.mp hv)
  · cases h

theorem loadUnits_ok {index : ℕ} {units result : Table} {items : List (Toml O)}
    (hunits : UnitTable units) (h : loadUnits index units items = .ok result) :
    UnitTable result := by
  induction items generalizing index units with
  | nil =>
    cases h
    exact hunits
  | cons item items ih =>
    unfold loadUnits at h
    obtain ⟨unit,hunit,h⟩ := ok_of_bind h
    obtain ⟨hname,honce,hverbs⟩ := loadUnit_ok hunit
    refine ih ⟨?_,?_,?_⟩ h
    · exact List.forall_mem_append.mpr ⟨hunits.names,by simpa using hname⟩
    · rw [List.map_append]
      refine List.Nodup.append hunits.once (List.nodup_singleton _) ?_
      simpa using honce
    · exact List.forall_mem_append.mpr ⟨hunits.verbs,by simpa using hverbs⟩

/-- Every grant names subjects of the policy only, one of them at least, and every action is
granted once. -/
structure GrantTable (subjects : List String) (grants : Table) : Prop where
  actions : ∀ grant ∈ grants, polkitAction grant.1 = true
  once : (grants.map Prod.fst).Nodup
  named : ∀ grant ∈ grants, grant.2 ≠ [] ∧ ∀ name ∈ grant.2, name ∈ subjects

theorem loadGrant_ok {path : String} {identity : Identity} {grants : Table} {item : Toml O}
    {grant : String × List String} (h : loadGrant path identity grants item = .ok grant) :
    polkitAction grant.1 = true ∧ grant.1 ∉ grants.map Prod.fst ∧ grant.2 ≠ [] ∧
      ∀ name ∈ grant.2, name ∈ identity.subjects := by
  unfold loadGrant at h
  obtain ⟨_,_,h⟩ := ok_of_bind h
  obtain ⟨action,_,h⟩ := ok_of_bind h
  obtain ⟨_,haction,h⟩ := ok_of_bind h
  obtain ⟨_,honce,h⟩ := ok_of_bind h
  obtain ⟨value,_,h⟩ := ok_of_bind h
  obtain ⟨identities,_,h⟩ := ok_of_bind h
  obtain ⟨_,hsome,h⟩ := ok_of_bind h
  split at h
  · cases h
  · next hnone =>
    cases h
    refine ⟨ensure_ok haction,by simpa using ensure_ok honce,by simpa using ensure_ok hsome,?_⟩
    intro name hname
    simpa using List.find?_eq_none.mp hnone name hname

theorem loadGrants_ok {identity : Identity} {index : ℕ} {grants result : Table}
    {items : List (Toml O)} (hgrants : GrantTable identity.subjects grants)
    (h : loadGrants identity index grants items = .ok result) :
    GrantTable identity.subjects result := by
  induction items generalizing index grants with
  | nil =>
    cases h
    exact hgrants
  | cons item items ih =>
    unfold loadGrants at h
    obtain ⟨grant,hgrant,h⟩ := ok_of_bind h
    obtain ⟨haction,honce,hnamed⟩ := loadGrant_ok hgrant
    refine ih ⟨?_,?_,?_⟩ h
    · exact List.forall_mem_append.mpr ⟨hgrants.actions,by simpa using haction⟩
    · rw [List.map_append]
      refine List.Nodup.append hgrants.once (List.nodup_singleton _) ?_
      simpa using honce
    · exact List.forall_mem_append.mpr ⟨hgrants.named,by simpa using hnamed⟩

/-- The texts under `shell.allow_commands`. -/
def listedCommands (data : List (String × Toml O)) : List String :=
  match tableOf data "shell" with
  | .table fields => listed (fields.lookup "allow_commands")
  | _ => []

/-- What holds of every policy that is accepted. -/
structure Policy.Accepted (p : Policy) : Prop where
  units : UnitTable p.units
  unitFiles : p.unitFileGrant = listsUnitFileVerb p.units
  grants : GrantTable p.subjects p.grants
  commands : ∀ c ∈ p.shellCommands, commandName c = true ∧ '/' ∉ c.toList
  risk : p.allowRiskyCommands = true ∨ ∀ c ∈ p.shellCommands, c ∉ riskyCommands

theorem loadShell_ok {shell : Toml O} {commands : List String} {allowRisky : Bool}
    (h : loadShell shell = .ok (commands,allowRisky)) :
    (∀ c ∈ commands, commandName c = true ∧ '/' ∉ c.toList) ∧
      (allowRisky = true ∨ ∀ c ∈ commands, c ∉ riskyCommands) ∧
      ∃ fields, shell = .table fields ∧ ∀ c, c ∈ commands ↔
        c ∈ listed (fields.lookup "allow_commands") := by
  unfold loadShell at h
  obtain ⟨_,_,h⟩ := ok_of_bind h
  obtain ⟨value,hvalue,h⟩ := ok_of_bind h
  obtain ⟨commands',hcommands,h⟩ := ok_of_bind h
  obtain ⟨_,hrisk,h⟩ := ok_of_bind h
  cases h
  obtain ⟨hnames,hlisted⟩ := stringList_ok hcommands
  refine ⟨hnames,?_,?_⟩
  · have hsafe := ensure_ok hrisk
    simp only [Bool.or_eq_true,List.isEmpty_iff,riskyOf,List.filter_eq_nil_iff,
      List.contains_iff_mem] at hsafe
    exact hsafe.symm
  · cases shell with
    | table fields =>
      cases hvalue
      exact ⟨fields,rfl,hlisted⟩
    | _ => cases hvalue

theorem loadPolkit_ok {identity : Identity} {polkit : Toml O} {grants : Table}
    (h : loadPolkit identity polkit = .ok grants) : GrantTable identity.subjects grants := by
  unfold loadPolkit at h
  obtain ⟨_,_,h⟩ := ok_of_bind h
  obtain ⟨_,_,h⟩ := ok_of_bind h
  obtain ⟨_,_,h⟩ := ok_of_bind h
  obtain ⟨items,_,h⟩ := ok_of_bind h
  exact loadGrants_ok ⟨by simp,by simp,by simp⟩ h

theorem loadData_ok {data : List (String × Toml O)} {p : Policy} (h : loadData data = .ok p) :
    p.Accepted ∧ ∀ c, c ∈ p.shellCommands ↔ c ∈ listedCommands data := by
  unfold loadData at h
  obtain ⟨identity,_,h⟩ := ok_of_bind h
  obtain ⟨items,_,h⟩ := ok_of_bind h
  obtain ⟨units,hunits,h⟩ := ok_of_bind h
  obtain ⟨grants,hgrants,h⟩ := ok_of_bind h
  obtain ⟨⟨commands,allowRisky⟩,hshell,h⟩ := ok_of_bind h
  obtain ⟨value,_,h⟩ := ok_of_bind h
  obtain ⟨tools,_,h⟩ := ok_of_bind h
  obtain ⟨defaultTimeout,_,h⟩ := ok_of_bind h
  obtain ⟨maxTimeout,_,h⟩ := ok_of_bind h
  obtain ⟨outputLimit,_,h⟩ := ok_of_bind h
  obtain ⟨polkitTimeout,_,h⟩ := ok_of_bind h
  cases h
  obtain ⟨hnames,hrisk,fields,hfields,hlisted⟩ := loadShell_ok hshell
  refine ⟨⟨?_,rfl,loadPolkit_ok hgrants,hnames,hrisk⟩,fun c => ?_⟩
  · exact loadUnits_ok ⟨by simp,by simp,by simp⟩ hunits
  · simp only [listedCommands,hfields,hlisted]

theorem loadPolicy_accepted {text : String} {p : Policy}
    (h : loadPolicy O text = .ok p) : p.Accepted := by
  unfold loadPolicy at h
  split at h
  · exact (loadData_ok h).1
  · cases h

end

end HostPolicy
end Atlas
