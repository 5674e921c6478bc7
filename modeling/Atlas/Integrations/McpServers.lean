import Atlas.Toml
import Atlas.Runtime.Evidence
import Atlas.Providers.Envelope

/-! Servers that the owner configures: what is accepted of their configuration, the operations
that their tools become, and the registration of these. -/
namespace Atlas
namespace Integrations

open JsonText

inductive EffectKind where
  | read
  | create
  | update
  | delete
  | execute
  deriving Repr, DecidableEq

def EffectKind.ofText : String → Option EffectKind
  | "read" => some .read
  | "create" => some .create
  | "update" => some .update
  | "delete" => some .delete
  | "execute" => some .execute
  | _ => none

inductive AuthorityMode where
  | auto
  | approvalRequired
  | forbidden
  deriving Repr, DecidableEq

def AuthorityMode.ofText : String → Option AuthorityMode
  | "auto" => some .auto
  | "approval_required" => some .approvalRequired
  | "forbidden" => some .forbidden
  | _ => none

/-- Why a configuration is not accepted. -/
inductive ConfigError where
  | valueError (message : String)
  | typeError (message : String)
  | decodeError
  deriving Repr, DecidableEq

/-- How values are read as numbers. -/
class ServerRuntime (O : Type) extends TomlRuntime O where
  isFloat : O → Bool
  int : Toml O → Except ConfigError ℤ

/-! Names. -/

/-- `SERVER_ID`. -/
def serverId (s : String) : Bool :=
  ((chop s.toList).splitOn '.').all
    (isName Char.isLower fun c => c.isLower || c.isDigit || c == '_')

/-- `TOOL_NAME`. -/
def toolName (s : String) : Bool :=
  let cs := chop s.toList
  !cs.isEmpty && cs.length ≤ 128 &&
    cs.all fun c => c.isAlphanum || c == '_' || c == '.' || c == '-'

def reservedPrefixes : List String :=
  ["atlas","openai","github","google","evidence","memory","storage","schedules","notifications"]

/-- `server_id.split(".", 1)[0]`. -/
def idPrefix (s : String) : String := String.ofList (s.toList.takeWhile (· != '.'))

/-! Configurations. -/

structure AuthorityRule where
  conditions : List (String × List String)
  authority : AuthorityMode
  deriving Repr, DecidableEq

structure ToolPolicy where
  effect : Option EffectKind := none
  authority : Option AuthorityMode := none
  rules : List AuthorityRule := []
  deriving Repr, DecidableEq

structure MCPServerConfig where
  id : String
  family : String
  description : String
  transport : String
  path : Option String
  command : Option String
  args : List String
  envFile : Option String
  trust : String
  tools : Option (List String)
  readOnlyAuthority : AuthorityMode
  destructiveAuthority : AuthorityMode
  nonDestructiveAuthority : AuthorityMode
  timeout : ℤ
  toolPolicies : List (String × ToolPolicy)
  deriving Repr, DecidableEq

section

variable {O : Type} [ServerRuntime O]

def require (condition : Bool) (error : ConfigError) : Except ConfigError Unit :=
  if condition then .ok () else .error error

/-- `_authority`. -/
def authorityOf (value : Option (Toml O)) (default : AuthorityMode) (path : String) :
    Except ConfigError AuthorityMode :=
  match value with
  | none => .ok default
  | some v =>
      match AuthorityMode.ofText v.shown with
      | some authority => .ok authority
      | none => .error (.valueError
          (path ++ ": authority must be auto, approval_required or forbidden"))

/-- `_effect`. -/
def effectOf (value : Option (Toml O)) (path : String) : Except ConfigError (Option EffectKind) :=
  match value with
  | none => .ok none
  | some v =>
      match EffectKind.ofText v.shown with
      | some effect => .ok (some effect)
      | none => .error (.valueError
          (path ++ ": effect must be read, create, update, delete or execute"))

/-- The values that a condition compares with. -/
def conditionValues (error : ConfigError) : Toml O → Except ConfigError (List String)
  | .array [] => .error error
  | .array items => .ok (items.map Toml.shown)
  | .text s => .ok [s]
  | .integer n => .ok [(Toml.integer n : Toml O).shown]
  | .boolean b => .ok [(Toml.boolean b : Toml O).shown]
  | .other o =>
      if ServerRuntime.isFloat o then .ok [(Toml.other o : Toml O).shown] else .error error
  | .table _ => .error error

def loadConditions (path : String) :
    List (String × Toml O) → Except ConfigError (List (String × List String))
  | [] => .ok []
  | (key,values) :: fields => do
      let values ← conditionValues
        (.valueError (path ++ ".when." ++ key ++ " must be a value or a list")) values
      let rest ← loadConditions path fields
      return (key,values) :: rest

def loadRule (path : String) : Toml O → Except ConfigError AuthorityRule
  | .table fields =>
      match fields.lookup "when" with
      | some (.table (condition :: conditions)) => do
          let conditions ← loadConditions path (condition :: conditions)
          let authority ← authorityOf (fields.lookup "authority") .approvalRequired path
          return {conditions := conditions, authority := authority}
      | _ => .error (.valueError (path ++ " needs a non-empty 'when' table"))
  | _ => .error (.valueError (path ++ " needs a non-empty 'when' table"))

def loadRules (path : String) (index : ℕ) : List (Toml O) → Except ConfigError (List AuthorityRule)
  | [] => .ok []
  | rule :: rules => do
      let rule ← loadRule (path ++ ": authority_rules[" ++ toString index ++ "]") rule
      let rest ← loadRules path (index + 1) rules
      return rule :: rest

/-- What a loop over a value passes over. -/
def iterated : Toml O → Except ConfigError (List (Toml O))
  | .array items => .ok items
  | .text s => .ok (s.toList.map fun c => .text (String.singleton c))
  | .table fields => .ok (fields.map fun f => .text f.1)
  | value => .error (.typeError (TomlRuntime.repr value ++ " is not iterable"))

/-- `_tool_policy`. -/
def loadToolPolicy (path : String) (fields : List (String × Toml O)) :
    Except ConfigError ToolPolicy := do
  let rules ← iterated (orElse (fields.lookup "authority_rules") (.array []))
  let rules ← loadRules path 0 rules
  let effect ← effectOf (fields.lookup "effect") path
  let authority ← match fields.lookup "authority" with
    | some value => (authorityOf (some value) .auto path).map some
    | none => .ok none
  return {effect := effect, authority := authority, rules := rules}

/-- The policies of the tools; values that are no tables are passed over. -/
def loadToolPolicies (path : String) :
    List (String × Toml O) → Except ConfigError (List (String × ToolPolicy))
  | [] => .ok []
  | (name,.table fields) :: rest => do
      let policy ← loadToolPolicy (path ++ "." ++ name) fields
      let policies ← loadToolPolicies path rest
      return (name,policy) :: policies
  | _ :: rest => loadToolPolicies path rest

/-- A path that a configuration names. -/
def pathOf (value : Option (Toml O)) : Option String := (value.filter Toml.truthy).map Toml.shown

def loadArgs (path : String) (value : Option (Toml O)) : Except ConfigError (List String) :=
  match orElse value (.array []) with
  | .array items =>
      match textItems items with
      | some args => .ok args
      | none => .error (.valueError (path ++ ": args must be a list of strings"))
  | _ => .error (.valueError (path ++ ": args must be a list of strings"))

def loadTools (path : String) (value : Option (Toml O)) :
    Except ConfigError (Option (List String)) :=
  let error := .valueError (path ++ ": tools must be a list of tool names")
  match value with
  | none => .ok none
  | some (.array items) =>
      match textItems items with
      | some tools => if tools.all toolName then .ok (some tools) else .error error
      | none => .error error
  | some _ => .error error

/-- A table, or the error. -/
def tableAt (value : Toml O) (error : String) : Except ConfigError (List (String × Toml O)) :=
  match value with
  | .table fields => .ok fields
  | _ => .error (.typeError error)

def timeoutOf : Toml O → Except ConfigError ℤ
  | .integer n => .ok n
  | value => ServerRuntime.int value

/-- One server of a configuration, after those with the given ids. -/
def loadServer (path : String) (seen : List String) (raw : Toml O) :
    Except ConfigError MCPServerConfig := do
  let raw ← tableAt raw (path ++ ": must be a table")
  let id := String.ofList
    (Providers.stripChars (orElse (raw.lookup "id") (.text "")).shown.toList)
  require (serverId id) (.valueError (path ++ ": id must look like host.systemd"))
  require (!reservedPrefixes.contains (idPrefix id)) (.valueError
    (path ++ ": id prefix '" ++ idPrefix id ++ "' is reserved for built-in capabilities"))
  require (!seen.contains id) (.valueError (path ++ ": duplicate id " ++ id))
  let transport := (orElse (raw.lookup "transport") (.text "socket")).shown
  require (transport == "socket" || transport == "stdio")
    (.valueError (path ++ ": transport must be socket or stdio"))
  let socket := pathOf (raw.lookup "path")
  let command := pathOf (raw.lookup "command")
  require (!(transport == "socket" && socket.isNone))
    (.valueError (path ++ ": socket transport needs 'path'"))
  require (!(transport == "stdio" && command.isNone))
    (.valueError (path ++ ": stdio transport needs 'command'"))
  let args ← loadArgs path (raw.lookup "args")
  let trust := (orElse (raw.lookup "trust") (.text "external")).shown
  require (trust == "internal" || trust == "external")
    (.valueError (path ++ ": trust must be internal or external"))
  let tools ← loadTools path (raw.lookup "tools")
  let defaults ← tableAt (orElse (raw.lookup "defaults") (.table []))
    (path ++ ": defaults must be a table")
  let policies ← tableAt (orElse (raw.lookup "tool") (orElse (raw.lookup "tools_policy") (.table [])))
    (path ++ ": tool policies must be a table keyed by tool name")
  let policies ← loadToolPolicies (path ++ ".tool") policies
  let timeout ← timeoutOf (orElse (raw.lookup "timeout_seconds") (.integer 45))
  let readOnly ← authorityOf (defaults.lookup "read_only_authority") .auto (path ++ ".defaults")
  let destructive ← authorityOf (defaults.lookup "destructive_authority") .approvalRequired
    (path ++ ".defaults")
  let nonDestructive ← authorityOf (defaults.lookup "non_destructive_authority") .auto
    (path ++ ".defaults")
  return {
    id := id
    family := (orElse (raw.lookup "family") (.text id)).shown
    description := (orElse (raw.lookup "description") (.text ("MCP server " ++ id ++ "."))).shown
    transport := transport
    path := socket
    command := command
    args := args
    envFile := pathOf (raw.lookup "env_file")
    trust := trust
    tools := tools
    readOnlyAuthority := readOnly
    destructiveAuthority := destructive
    nonDestructiveAuthority := nonDestructive
    timeout := max 5 (min timeout 600)
    toolPolicies := policies}

def loadServers (index : ℕ) (servers : List MCPServerConfig) :
    List (Toml O) → Except ConfigError (List MCPServerConfig)
  | [] => .ok servers
  | raw :: rest => do
      let server ← loadServer ("servers[" ++ toString index ++ "]") (servers.map (·.id)) raw
      loadServers (index + 1) (servers ++ [server]) rest

variable (O) in
/-- `parse_mcp_servers`. -/
def parseMcpServers (text : String) : Except ConfigError (List MCPServerConfig) :=
  match TomlRuntime.loads (O := O) text with
  | none => .error .decodeError
  | some data =>
      match data.lookup "servers" with
      | none => .ok []
      | some (.array servers) => loadServers 0 [] servers
      | some _ => .error (.typeError "mcp servers: 'servers' must be an array of tables")

end

/-! Operations. -/

section

variable {F : Type}

structure OperationDescriptor (F : Type) where
  id : String
  capabilityId : String
  family : String
  description : String
  inputSchema : List (String × Value F)
  effect : EffectKind
  authority : AuthorityMode
  trust : String

/-- What the registry knows of a capability. -/
structure CapabilityEntry where
  id : String
  family : String
  description : String
  enabled : Bool
  available : Bool
  executableOperations : List String
  trust : String

/-- What runs an operation: built-in code, or the named tool of a server. -/
inductive Executor where
  | builtIn (operation : String)
  | server (id tool : String)
  deriving Repr, DecidableEq

/-- How the authority of one call is found: by built-in code, or by the rules of a server's tool. -/
inductive Resolver where
  | builtIn (operation : String)
  | rules (server : String) (rules : List AuthorityRule) (authority : AuthorityMode)
  deriving Repr, DecidableEq

/-- The registry of capabilities and the runtime that calls their operations. -/
structure Environment (F : Type) where
  entries : String → Option CapabilityEntry
  listed : String → Option (OperationDescriptor F)
  operations : String → Option (OperationDescriptor F)
  executors : String → Option Executor
  resolvers : String → Option Resolver

/-- The outside of the registration: which files are there, and what the servers report. -/
class Servers (F : Type) where
  isSocket : String → Bool
  isFile : String → Bool
  listTools : MCPServerConfig → Except String (List (List (String × Value F)))

variable [Evidence.TextRuntime F]

def textAt (tool : List (String × Value F)) (key : String) : Option String :=
  match tool.lookup key with
  | some (.str s) => some s
  | _ => none

def boolAt (fields : List (String × Value F)) (key : String) : Option Bool :=
  match fields.lookup key with
  | some (.bool b) => some b
  | _ => none

def dictAt (tool : List (String × Value F)) (key : String) : Option (List (String × Value F)) :=
  match tool.lookup key with
  | some (.obj fields) => some fields
  | _ => none

/-- The policy of a tool of the server. -/
def MCPServerConfig.policyOf (server : MCPServerConfig) (name : String) : ToolPolicy :=
  (server.toolPolicies.lookup name).getD {}

/-- The text of a value, if it counts as one. -/
def descriptionOf (tool : List (String × Value F)) (default : String) : String :=
  match tool.lookup "description" with
  | none | some .null | some (.bool false) | some (.int 0) | some (.str "") | some (.arr [])
  | some (.obj []) => default
  | some (.float f) =>
      if Evidence.TextRuntime.isZero f then default else Evidence.TextRuntime.str (Value.float f)
  | some (.str s) => s
  | some value => Evidence.TextRuntime.str value

/-- Whether the server lets Atlas see a tool of the name. -/
def MCPServerConfig.sees (server : MCPServerConfig) (name : String) : Bool :=
  toolName name && (server.tools.map (·.contains name)).getD true

/-- `descriptor_for_tool`. -/
def descriptorForTool (server : MCPServerConfig) (tool : List (String × Value F)) :
    Option (OperationDescriptor F) :=
  match textAt tool "name" with
  | none => none
  | some name =>
      if !server.sees name then none
      else
        let annotations := (dictAt tool "annotations").getD []
        let readOnly := boolAt annotations "readOnlyHint" == some true
        let destructive := boolAt annotations "destructiveHint" != some false
        let policy := server.policyOf name
        let effect := if readOnly then .read else .execute
        let authority :=
          if readOnly then server.readOnlyAuthority
          else if destructive then server.destructiveAuthority
          else server.nonDestructiveAuthority
        let description := descriptionOf tool (server.family ++ " tool " ++ name ++ ".")
        some {
          id := server.id ++ "." ++ name
          capabilityId := server.id
          family := server.family
          description :=
            if policy.rules.isEmpty then description
            else description ++ " Authority depends on the arguments (owner policy)."
          inputSchema := (dictAt tool "inputSchema").getD
            [("type",.str "object"),("properties",.obj [])]
          effect := policy.effect.getD effect
          authority := policy.authority.getD authority
          trust := server.trust}

/-- `tool_name`. -/
def MCPServerConfig.toolOf (server : MCPServerConfig) (operation : String) : String :=
  String.ofList (operation.toList.drop (server.id.toList.length + 1))

/-- `authority_resolver`. -/
def authorityResolver (server : MCPServerConfig) (descriptor : OperationDescriptor F) :
    Option Resolver :=
  let rules := (server.policyOf (server.toolOf descriptor.id)).rules
  if rules.isEmpty then none else some (.rules server.id rules descriptor.authority)

/-- `discover_operations` of the tools that a server reports. -/
def descriptorsOf (server : MCPServerConfig) (tools : List (List (String × Value F))) :
    List (OperationDescriptor F) :=
  (tools.filterMap (descriptorForTool server)).insertionSort fun a b => a.id ≤ b.id

/-! Registration. -/

def put {α : Type} (table : String → Option α) (key : String) (value : Option α) :
    String → Option α :=
  fun k => if k = key then value else table k

/-- `registry.register_operation`. -/
def Environment.registerOperation (e : Environment F) (d : OperationDescriptor F) :
    Environment F :=
  match e.entries d.capabilityId with
  | some entry =>
      if entry.enabled && entry.available then
        {e with
          listed := put e.listed d.id (some d)
          entries := put e.entries d.capabilityId (some {entry with
            executableOperations :=
              if entry.executableOperations.contains d.id then entry.executableOperations
              else entry.executableOperations ++ [d.id]})}
      else e
  | none => e

/-- `runtime.register`. -/
def Environment.register (e : Environment F) (d : OperationDescriptor F) (executor : Executor)
    (resolver : Option Resolver) : Environment F :=
  {e with
    operations := put e.operations d.id (some d)
    executors := put e.executors d.id (some executor)
    resolvers := put e.resolvers d.id resolver}

/-- One operation of a server, in the registry and in the runtime. -/
def registerTool (server : MCPServerConfig) (e : Environment F) (d : OperationDescriptor F) :
    Environment F :=
  (e.registerOperation d).register d (.server server.id (server.toolOf d.id))
    (authorityResolver server d)

variable [Servers F]

variable (F) in
def MCPServerConfig.configured (server : MCPServerConfig) : Bool :=
  if server.transport == "socket" then (server.path.map (Servers.isSocket F)).getD false
  else (server.command.map (Servers.isFile F)).getD false

/-- The operations of a server, or the error of its discovery. -/
def discoverOperations (server : MCPServerConfig) : Except String (List (OperationDescriptor F)) :=
  (Servers.listTools server).map (descriptorsOf server)

structure ServerStatus where
  id : String
  label : String
  configured : Bool
  available : Bool
  operations : List String
  error : Option String
  deriving Repr, DecidableEq

/-- The capability of a server. -/
def addCapability (server : MCPServerConfig) (enabled : Bool) (e : Environment F) : Environment F :=
  {e with entries := put e.entries server.id (some {
    id := server.id
    family := server.family
    description := server.description
    enabled := enabled
    available := enabled
    executableOperations := []
    trust := server.trust})}

/-- One server: its capability, and its operations if it is there and answers. -/
def registerServer (e : Environment F) (server : MCPServerConfig) : Environment F × ServerStatus :=
  let configured := server.configured F
  let e := addCapability server configured e
  let status : ServerStatus := {
    id := server.id
    label := server.family
    configured := configured
    available := configured
    operations := []
    error := none}
  if configured then
    match discoverOperations server with
    | .ok descriptors =>
        (descriptors.foldl (registerTool server) e,
          {status with operations := descriptors.map (·.id)})
    | .error error =>
        (addCapability server false e,{status with available := false, error := some error})
  else (e,status)

/-- `register_mcp_servers` of an accepted configuration. -/
def registerMcpServers (e : Environment F) :
    List MCPServerConfig → Environment F × List ServerStatus
  | [] => (e,[])
  | server :: servers =>
      let (e,status) := registerServer e server
      let (e,statuses) := registerMcpServers e servers
      (e,status :: statuses)

end

end Integrations
end Atlas
