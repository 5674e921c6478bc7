import Atlas.Integrations.McpServers

/-! Which operations the registration of servers replaces, and when two tools have one name. -/
namespace Atlas
namespace Integrations

open JsonText

section

variable {F : Type} [Evidence.TextRuntime F]

/-- What there is under the operation id belongs to the server of the given id. -/
structure FreeFor (e : Environment F) (server key : String) : Prop where
  operation : ∀ d, e.operations key = some d → d.capabilityId = server
  executor : ∀ x, e.executors key = some x → ∃ tool, x = .server server tool
  resolver : ∀ x, e.resolvers key = some x → ∃ rules authority, x = .rules server rules authority

/-- Every registration of the server's operations, from the environment on, finds its id free. -/
def ToolsFree (server : MCPServerConfig) : Environment F → List (OperationDescriptor F) → Prop
  | _,[] => True
  | e,d :: ds => FreeFor e server.id d.id ∧ ToolsFree server (registerTool server e d) ds

variable [Servers F]

/-- The operations that are registered for a server. -/
def registered (server : MCPServerConfig) : List (OperationDescriptor F) :=
  if server.configured F then
    match discoverOperations server with
    | .ok descriptors => descriptors
    | .error _ => []
  else []

/-- No registration replaces what belongs to another server or to a built-in capability. -/
def NeverReplaces : Environment F → List MCPServerConfig → Prop
  | _,[] => True
  | e,server :: servers =>
      ToolsFree server (addCapability server (server.configured F) e) (registered server) ∧
        NeverReplaces (registerServer e server).1 servers

/-- The servers with the operations that are registered for them. -/
def registrations (servers : List MCPServerConfig) :
    List (MCPServerConfig × OperationDescriptor F) :=
  servers.flatMap fun server => (registered server).map fun d => (server,d)

omit [Evidence.TextRuntime F] [Servers F] in
/-- What is registered at one id, and what stays at the others. -/
theorem freeFor_registerTool {server : MCPServerConfig} {d : OperationDescriptor F}
    (hd : d.capabilityId = server.id) (e : Environment F) (i key : String) :
    FreeFor (registerTool server e d) i key ↔
      if key = d.id then server.id = i else FreeFor e i key := by
  have hregistry : (e.registerOperation d).operations = e.operations ∧
      (e.registerOperation d).executors = e.executors ∧
      (e.registerOperation d).resolvers = e.resolvers := by
    unfold Environment.registerOperation
    split
    · split_ifs <;> exact ⟨rfl,rfl,rfl⟩
    · exact ⟨rfl,rfl,rfl⟩
  by_cases hkey : key = d.id
  · rw [if_pos hkey]
    subst hkey
    constructor
    · intro h
      have hop := h.operation d (by simp [registerTool,Environment.register,put])
      rw [← hd,hop]
    · rintro rfl
      refine ⟨fun d' hd' => ?_,fun x hx => ?_,fun x hx => ?_⟩
      · simp only [registerTool,Environment.register,put,if_true,Option.some.injEq] at hd'
        rw [← hd',hd]
      · simp only [registerTool,Environment.register,put,if_true,Option.some.injEq] at hx
        exact ⟨_,hx.symm⟩
      · simp only [registerTool,Environment.register,put,if_true,authorityResolver] at hx
        split_ifs at hx
        exact ⟨_,_,(Option.some.inj hx).symm⟩
  · rw [if_neg hkey]
    constructor
    · rintro ⟨hop,hex,hre⟩
      simp only [registerTool,Environment.register,put,hkey,if_false,hregistry] at hop hex hre
      exact ⟨hop,hex,hre⟩
    · rintro ⟨hop,hex,hre⟩
      refine ⟨?_,?_,?_⟩ <;>
        simp only [registerTool,Environment.register,put,hkey,if_false,hregistry] <;> assumption

/-- Every id is free at first, and no two servers register one. -/
structure Apart (e : Environment F) (regs : List (MCPServerConfig × OperationDescriptor F)) :
    Prop where
  first : ∀ r ∈ regs, FreeFor e r.1.id r.2.id
  pairs : regs.Pairwise fun r r' => r.2.id = r'.2.id → r.1.id = r'.1.id

omit [Evidence.TextRuntime F] [Servers F] in
theorem apart_cons {server : MCPServerConfig} {d : OperationDescriptor F}
    (hd : d.capabilityId = server.id) (e : Environment F)
    (regs : List (MCPServerConfig × OperationDescriptor F)) :
    Apart e ((server,d) :: regs) ↔
      FreeFor e server.id d.id ∧ Apart (registerTool server e d) regs := by
  constructor
  · rintro ⟨hfirst,hpairs⟩
    rw [List.pairwise_cons] at hpairs
    refine ⟨hfirst _ List.mem_cons_self,⟨fun r hr => ?_,hpairs.2⟩⟩
    rw [freeFor_registerTool hd]
    split_ifs with hkey
    · exact hpairs.1 r hr hkey.symm
    · exact hfirst r (List.mem_cons_of_mem _ hr)
  · rintro ⟨hhead,hfirst,hpairs⟩
    have hservers : ∀ r ∈ regs, d.id = r.2.id → server.id = r.1.id := by
      intro r hr hkey
      have hfree := hfirst r hr
      rwa [freeFor_registerTool hd,if_pos hkey.symm] at hfree
    refine ⟨?_,List.pairwise_cons.mpr ⟨hservers,hpairs⟩⟩
    intro r hr
    rcases List.mem_cons.mp hr with rfl | hr
    · exact hhead
    · by_cases hkey : r.2.id = d.id
      · rw [hkey,← hservers r hr hkey.symm]
        exact hhead
      · have hfree := hfirst r hr
        rwa [freeFor_registerTool hd,if_neg hkey] at hfree

omit [Evidence.TextRuntime F] [Servers F] in
/-- The capabilities of the registry do not count. -/
theorem apart_congr {e e' : Environment F} (hop : e.operations = e'.operations)
    (hex : e.executors = e'.executors) (hre : e.resolvers = e'.resolvers)
    (regs : List (MCPServerConfig × OperationDescriptor F)) : Apart e regs ↔ Apart e' regs := by
  have hfree : ∀ i key, FreeFor e i key ↔ FreeFor e' i key := by
    intro i key
    constructor <;> rintro ⟨h,h',h''⟩
    · exact ⟨hop ▸ h,hex ▸ h',hre ▸ h''⟩
    · exact ⟨hop ▸ h,hex ▸ h',hre ▸ h''⟩
  constructor <;> rintro ⟨h,h'⟩
  · exact ⟨fun r hr => (hfree _ _).mp (h r hr),h'⟩
  · exact ⟨fun r hr => (hfree _ _).mpr (h r hr),h'⟩

omit [Evidence.TextRuntime F] [Servers F] in
theorem apart_addCapability (server : MCPServerConfig) (enabled : Bool) (e : Environment F)
    (regs : List (MCPServerConfig × OperationDescriptor F)) :
    Apart (addCapability server enabled e) regs ↔ Apart e regs :=
  @apart_congr _ (addCapability server enabled e) e rfl rfl rfl regs

omit [Evidence.TextRuntime F] [Servers F] in
theorem apart_tools {server : MCPServerConfig} {ds : List (OperationDescriptor F)}
    (hds : ∀ d ∈ ds, d.capabilityId = server.id) (e : Environment F)
    (regs : List (MCPServerConfig × OperationDescriptor F)) :
    Apart e (ds.map (fun d => (server,d)) ++ regs) ↔
      ToolsFree server e ds ∧ Apart (ds.foldl (registerTool server) e) regs := by
  induction ds generalizing e with
  | nil => simp [ToolsFree]
  | cons d ds ih =>
    rw [List.map_cons,List.cons_append,apart_cons (hds d List.mem_cons_self),
      ih (fun d hd => hds d (List.mem_cons_of_mem _ hd)),ToolsFree,List.foldl_cons,and_assoc]

omit [Servers F] in
theorem descriptorForTool_eq_some {server : MCPServerConfig} {tool : List (String × Value F)}
    {d : OperationDescriptor F} (h : descriptorForTool server tool = some d) :
    ∃ name, textAt tool "name" = some name ∧ server.sees name = true ∧
      d.id = server.id ++ "." ++ name ∧ d.capabilityId = server.id := by
  unfold descriptorForTool at h
  split at h
  · cases h
  · next name hname =>
    split_ifs at h with hsees
    cases h
    exact ⟨name,hname,by simpa using hsees,rfl,rfl⟩

theorem registered_capability (server : MCPServerConfig) :
    ∀ d ∈ (registered server : List (OperationDescriptor F)), d.capabilityId = server.id := by
  intro d hd
  unfold registered discoverOperations at hd
  split_ifs at hd
  · split at hd
    · next descriptors hdescriptors =>
      obtain ⟨tools,_,rfl⟩ : ∃ tools, Servers.listTools server = .ok tools ∧
          descriptorsOf server tools = descriptors := by
        cases htools : (Servers.listTools server : Except String (List (List (String × Value F)))) with
        | error e => rw [htools] at hdescriptors; cases hdescriptors
        | ok tools =>
          rw [htools] at hdescriptors
          exact ⟨tools,rfl,Except.ok.inj hdescriptors⟩
      obtain ⟨tool,_,htool⟩ := List.mem_filterMap.mp ((List.perm_insertionSort _ _).mem_iff.mp hd)
      obtain ⟨_,_,_,_,hcapability⟩ := descriptorForTool_eq_some htool
      exact hcapability
    · cases hd
  · cases hd

/-- The environment after one server. -/
theorem apart_registerServer (e : Environment F) (server : MCPServerConfig)
    (regs : List (MCPServerConfig × OperationDescriptor F)) :
    Apart (registerServer e server).1 regs ↔ Apart ((registered server).foldl (registerTool server)
      (addCapability server (server.configured F) e)) regs := by
  unfold registerServer registered
  by_cases hconfigured : server.configured F = true
  · simp only [hconfigured,if_true]
    cases (discoverOperations server : Except String (List (OperationDescriptor F))) with
    | ok descriptors => exact Iff.rfl
    | error error => exact apart_addCapability server false _ regs
  · simp only [hconfigured,Bool.false_eq_true,if_false]
    exact Iff.rfl

/-- Nothing is replaced exactly if the registrations are apart. -/
theorem neverReplaces_iff (e : Environment F) (servers : List MCPServerConfig) :
    NeverReplaces e servers ↔ Apart e (registrations servers) := by
  induction servers generalizing e with
  | nil => exact ⟨fun _ => ⟨by simp [registrations],by simp [registrations]⟩,fun _ => trivial⟩
  | cons server servers ih =>
    have hregs : (registrations (server :: servers) : List (MCPServerConfig × OperationDescriptor F)) =
        (registered server).map (fun d => (server,d)) ++ registrations servers := by
      simp [registrations]
    rw [NeverReplaces,ih,hregs,← apart_addCapability server (server.configured F) e,
      apart_tools (registered_capability server),apart_registerServer]

variable (F) in
/-- The names of the tools that are registered for a server. -/
def offeredTools (server : MCPServerConfig) : List String :=
  if server.configured F then
    match (Servers.listTools server : Except String (List (List (String × Value F)))) with
    | .ok tools => (tools.filterMap fun tool => textAt tool "name").filter server.sees
    | .error _ => []
  else []

def operationId (server : MCPServerConfig) (tool : String) : String := server.id ++ "." ++ tool

omit [Servers F] in
theorem descriptorForTool_isSome {server : MCPServerConfig} {tool : List (String × Value F)}
    {name : String} (hname : textAt tool "name" = some name) (hsees : server.sees name = true) :
    ∃ d, descriptorForTool server tool = some d := by
  simp only [descriptorForTool,hname,hsees,Bool.not_true,Bool.false_eq_true,if_false]
  exact ⟨_,rfl⟩

/-- The registered ids are those of the offered tools. -/
theorem mem_registered_ids (server : MCPServerConfig) (id : String) :
    (∃ d ∈ (registered server : List (OperationDescriptor F)), d.id = id) ↔
      ∃ tool ∈ offeredTools F server, id = operationId server tool := by
  unfold registered discoverOperations offeredTools
  by_cases hconfigured : server.configured F = true
  · simp only [hconfigured,if_true]
    cases (Servers.listTools server : Except String (List (List (String × Value F)))) with
    | error e => simp [Except.map]
    | ok tools =>
      simp only [Except.map,List.mem_filter,List.mem_filterMap]
      constructor
      · rintro ⟨d,hd,rfl⟩
        obtain ⟨tool,htool,hd⟩ := List.mem_filterMap.mp
          ((List.perm_insertionSort _ _).mem_iff.mp hd)
        obtain ⟨name,hname,hsees,hid,_⟩ := descriptorForTool_eq_some hd
        exact ⟨name,⟨⟨tool,htool,hname⟩,hsees⟩,hid⟩
      · rintro ⟨name,⟨⟨tool,htool,hname⟩,hsees⟩,rfl⟩
        obtain ⟨d,hd⟩ := descriptorForTool_isSome hname hsees
        obtain ⟨name',hname',_,hid,_⟩ := descriptorForTool_eq_some hd
        obtain rfl : name = name' := Option.some.inj (hname.symm.trans hname')
        exact ⟨d,(List.perm_insertionSort _ _).mem_iff.mpr (List.mem_filterMap.mpr ⟨tool,htool,hd⟩),
          hid⟩
  · simp [hconfigured]

end

/-! What an accepted configuration holds. -/

/-- Ids of the shape of `host.systemd`, none with a reserved prefix, each once. -/
structure ServerIds (servers : List MCPServerConfig) : Prop where
  shape : ∀ s ∈ servers, serverId s.id = true
  free : ∀ s ∈ servers, idPrefix s.id ∉ reservedPrefixes
  once : (servers.map (·.id)).Nodup

section

variable {O : Type} [ServerRuntime O]

omit [ServerRuntime O] in
theorem require_ok {condition : Bool} {error : ConfigError} {u : Unit}
    (h : require condition error = .ok u) : condition = true := by
  unfold require at h
  split at h
  · assumption
  · cases h

theorem loadServer_ok {path : String} {seen : List String} {raw : Toml O} {s : MCPServerConfig}
    (h : loadServer path seen raw = .ok s) :
    serverId s.id = true ∧ idPrefix s.id ∉ reservedPrefixes ∧ s.id ∉ seen := by
  unfold loadServer at h
  obtain ⟨fields,_,h⟩ := ok_of_bind h
  obtain ⟨_,hshape,h⟩ := ok_of_bind h
  obtain ⟨_,hfree,h⟩ := ok_of_bind h
  obtain ⟨_,honce,h⟩ := ok_of_bind h
  obtain ⟨_,_,h⟩ := ok_of_bind h
  obtain ⟨_,_,h⟩ := ok_of_bind h
  obtain ⟨_,_,h⟩ := ok_of_bind h
  obtain ⟨args,_,h⟩ := ok_of_bind h
  obtain ⟨_,_,h⟩ := ok_of_bind h
  obtain ⟨tools,_,h⟩ := ok_of_bind h
  obtain ⟨defaults,_,h⟩ := ok_of_bind h
  obtain ⟨table,_,h⟩ := ok_of_bind h
  obtain ⟨policies,_,h⟩ := ok_of_bind h
  obtain ⟨timeout,_,h⟩ := ok_of_bind h
  obtain ⟨readOnly,_,h⟩ := ok_of_bind h
  obtain ⟨destructive,_,h⟩ := ok_of_bind h
  obtain ⟨nonDestructive,_,h⟩ := ok_of_bind h
  rw [← Except.ok.inj h]
  exact ⟨require_ok hshape,by simpa using require_ok hfree,by simpa using require_ok honce⟩

theorem loadServers_ok {index : ℕ} {servers result : List MCPServerConfig} {raw : List (Toml O)}
    (hservers : ServerIds servers) (h : loadServers index servers raw = .ok result) :
    ServerIds result := by
  induction raw generalizing index servers with
  | nil =>
    cases h
    exact hservers
  | cons first raw ih =>
    unfold loadServers at h
    obtain ⟨s,hs,h⟩ := ok_of_bind h
    obtain ⟨hshape,hfree,honce⟩ := loadServer_ok hs
    refine ih ⟨?_,?_,?_⟩ h
    · exact List.forall_mem_append.mpr ⟨hservers.shape,by simpa using hshape⟩
    · exact List.forall_mem_append.mpr ⟨hservers.free,by simpa using hfree⟩
    · rw [List.map_append]
      refine List.Nodup.append hservers.once (List.nodup_singleton _) ?_
      simpa using honce

theorem parseMcpServers_ok {text : String} {servers : List MCPServerConfig}
    (h : parseMcpServers O text = .ok servers) : ServerIds servers := by
  have hnil : ServerIds [] := ⟨by simp,by simp,by simp⟩
  unfold parseMcpServers at h
  split at h
  · cases h
  · split at h
    · cases h
      exact hnil
    · exact loadServers_ok hnil h
    · cases h

end

/-! Ids that are joined with a dot. -/

theorem dotted_eq {i j t u : String} (h : i ++ "." ++ t = j ++ "." ++ u) :
    (i = j ∧ t = u) ∨ (∃ m, j = i ++ "." ++ m ∧ t = m ++ "." ++ u) ∨
      ∃ m, i = j ++ "." ++ m ∧ u = m ++ "." ++ t := by
  have hlists : i.toList ++ '.' :: t.toList = j.toList ++ '.' :: u.toList := by
    simpa using congrArg String.toList h
  have hofList : ∀ {s : String} {cs : List Char}, s.toList = cs → s = String.ofList cs :=
    fun hs => by rw [← hs,String.ofList_toList]
  have hjoin : ∀ {a b : String} {w : List Char}, b.toList = a.toList ++ '.' :: w →
      b = a ++ "." ++ String.ofList w := by
    intro a b w hb
    rw [hofList hb]
    apply String.toList_injective
    simp
  rcases List.append_eq_append_iff.mp hlists with ⟨w,hj,ht⟩ | ⟨w,hi,hu⟩
  · cases w with
    | nil =>
      simp only [List.append_nil,List.nil_append,List.cons.injEq,true_and] at hj ht
      exact .inl ⟨(String.toList_injective hj).symm,String.toList_injective ht⟩
    | cons c w =>
      simp only [List.cons_append,List.cons.injEq] at ht
      obtain ⟨rfl,ht⟩ := ht
      refine .inr (.inl ⟨String.ofList w,hjoin hj,?_⟩)
      apply String.toList_injective
      simpa using ht
  · cases w with
    | nil =>
      simp only [List.append_nil,List.nil_append,List.cons.injEq,true_and] at hi hu
      exact .inl ⟨String.toList_injective hi,(String.toList_injective hu).symm⟩
    | cons c w =>
      simp only [List.cons_append,List.cons.injEq] at hu
      obtain ⟨rfl,hu⟩ := hu
      refine .inr (.inr ⟨String.ofList w,hjoin hi,?_⟩)
      apply String.toList_injective
      simpa using hu

/-! The operations of built-in capabilities. -/

/-- The operations that the registry lists before the servers. -/
def builtInOperations (openai google : Bool) : List String :=
  ["evidence.task.read","evidence.read","evidence.resource.acquire","memory.search",
    "memory.remember","memory.correct","memory.retire","memory.restore","memory.delete",
    "memory.commands.list","memory.obligations.list","memory.obligations.resolve",
    "storage.local.list","storage.projects.list","storage.local.acquire","schedules.list",
    "schedules.create","schedules.update","notifications.list","notifications.emit",
    "schedules.delete","storage.projects.acquire","storage.projects.status",
    "storage.projects.diff","storage.projects.preview","storage.projects.apply",
    "storage.projects.move","storage.projects.delete"] ++
  (if openai then ["image.generate","image.edit"] else []) ++
  (if google then ["drive.files.list"] else [])

/-- The environment before the servers are registered: the built-in operations, all of them of
capabilities with a reserved prefix, and executors for some of them. -/
structure BuiltIn {F : Type} (openai google : Bool) (e : Environment F) : Prop where
  operations : ∀ key, (∃ d, e.operations key = some d) ↔ key ∈ builtInOperations openai google
  capabilities : ∀ key d, e.operations key = some d → idPrefix d.capabilityId ∈ reservedPrefixes
  executors : ∀ key x, e.executors key = some x → key ∈ builtInOperations openai google
  resolvers : ∀ key, e.resolvers key = none

/-- How a built-in id is split by a server whose prefix is not reserved. -/
def unreserved : List (String × String) :=
  [("image","generate"),("image","edit"),("drive","files.list"),("drive.files","list")]

/-- What stands before and after each dot of a text. -/
def dotSplits : List Char → List (List Char × List Char)
  | [] => []
  | c :: cs => (if c = '.' then [([],cs)] else []) ++ (dotSplits cs).map fun p => (c :: p.1,p.2)

theorem mem_dotSplits (before after : List Char) :
    (before,after) ∈ dotSplits (before ++ '.' :: after) := by
  induction before with
  | nil => simp [dotSplits]
  | cons c cs ih =>
    simp only [List.cons_append,dotSplits,List.mem_append,List.mem_map]
    exact .inr ⟨_,ih,rfl⟩

theorem builtIn_splits : ∀ key ∈ builtInOperations true true, ∀ p ∈ dotSplits key.toList,
    idPrefix (String.ofList p.1) ∉ reservedPrefixes →
      (String.ofList p.1,String.ofList p.2) ∈ unreserved := by
  simp only [idPrefix,String.toList_ofList]
  simp only [← bytewise_eq]
  decide +kernel

theorem builtInOperations_subset (openai google : Bool) :
    builtInOperations openai google ⊆ builtInOperations true true := by
  intro key hkey
  simp only [builtInOperations,List.mem_append] at hkey ⊢
  rcases hkey with (hkey | hkey) | hkey
  · exact .inl (.inl hkey)
  · split_ifs at hkey
    · exact .inl (.inr hkey)
    · cases hkey
  · split_ifs at hkey
    · exact .inr hkey
    · cases hkey

theorem split_of_builtIn {i t : String} (h : i ++ "." ++ t ∈ builtInOperations true true)
    (hi : idPrefix i ∉ reservedPrefixes) : (i,t) ∈ unreserved := by
  have hkey : (i ++ "." ++ t).toList = i.toList ++ '.' :: t.toList := by simp
  have hmem : (i.toList,t.toList) ∈ dotSplits (i ++ "." ++ t).toList := by
    rw [hkey]
    exact mem_dotSplits i.toList t.toList
  simpa using builtIn_splits _ h _ hmem (by simpa using hi)

section

variable {F : Type} [Evidence.TextRuntime F] [Servers F]

variable (F) in
/-- No id of a server starts with the id of another one that offers the rest of it with a tool. -/
def NoNested (servers : List MCPServerConfig) : Prop :=
  ∀ s ∈ servers, ∀ s' ∈ servers, ∀ tool ∈ offeredTools F s, ∀ tool' ∈ offeredTools F s',
    ∀ m, s'.id = s.id ++ "." ++ m → tool ≠ m ++ "." ++ tool'

variable (F) in
/-- No server has the id and the tool of an image or file operation that is built in. -/
def NoBuiltIn (openai google : Bool) (servers : List MCPServerConfig) : Prop :=
  ∀ s ∈ servers, ∀ tool ∈ offeredTools F s, (s.id,tool) ∈ unreserved →
    operationId s tool ∉ builtInOperations openai google

/-- Tools of servers have ids of their own, and their registration replaces nothing. -/
structure IdentityKept (e : Environment F) (servers : List MCPServerConfig) : Prop where
  injective : ∀ s ∈ servers, ∀ s' ∈ servers, ∀ tool ∈ offeredTools F s, ∀ tool' ∈ offeredTools F s',
    operationId s tool = operationId s' tool' → s = s' ∧ tool = tool'
  neverReplaces : NeverReplaces e servers

theorem mem_registrations {servers : List MCPServerConfig}
    {r : MCPServerConfig × OperationDescriptor F} (h : r ∈ registrations servers) :
    r.1 ∈ servers ∧ ∃ tool ∈ offeredTools F r.1, r.2.id = operationId r.1 tool := by
  simp only [registrations,List.mem_flatMap,List.mem_map] at h
  obtain ⟨s,hs,d,hd,rfl⟩ := h
  exact ⟨hs,(mem_registered_ids s d.id).mp ⟨d,hd,rfl⟩⟩

theorem exists_registration {servers : List MCPServerConfig} {s : MCPServerConfig}
    (hs : s ∈ servers) {tool : String} (ht : tool ∈ offeredTools F s) :
    ∃ d : OperationDescriptor F, (s,d) ∈ registrations servers ∧ d.id = operationId s tool := by
  obtain ⟨d,hd,hid⟩ := (mem_registered_ids (F := F) s _).mpr ⟨tool,ht,rfl⟩
  exact ⟨d,List.mem_flatMap.mpr ⟨s,hs,List.mem_map.mpr ⟨d,hd,rfl⟩⟩,hid⟩

/-- Operations keep their identity exactly if no id is nested in another and none is built in. -/
theorem identity_kept_iff {O : Type} [ServerRuntime O] {text : String}
    {servers : List MCPServerConfig} (h : parseMcpServers O text = .ok servers)
    {openai google : Bool} {e : Environment F} (he : BuiltIn openai google e) :
    IdentityKept e servers ↔ NoNested F servers ∧ NoBuiltIn F openai google servers := by
  have hids := parseMcpServers_ok h
  have hsame : ∀ s ∈ servers, ∀ s' ∈ servers, s.id = s'.id → s = s' :=
    fun s hs s' hs' => List.inj_on_of_nodup_map hids.once hs hs'
  constructor
  · rintro ⟨hinjective,hnever⟩
    refine ⟨?_,?_⟩
    · intro s hs s' hs' tool ht tool' ht' m hm heq
      have hid : operationId s tool = operationId s' tool' := by
        rw [operationId,operationId,hm,heq]
        simp [String.append_assoc]
      obtain ⟨rfl,_⟩ := hinjective s hs s' hs' tool ht tool' ht' hid
      have hlength := congrArg (fun i => i.toList.length) hm
      simp at hlength
    · intro s hs tool ht _ hbuilt
      obtain ⟨d,hd,hid⟩ := exists_registration hs ht
      have hfree := ((neverReplaces_iff e servers).mp hnever).first _ hd
      rw [hid] at hfree
      obtain ⟨d',hd'⟩ := (he.operations _).mpr hbuilt
      have hprefix := he.capabilities _ _ hd'
      rw [hfree.operation d' hd'] at hprefix
      exact hids.free s hs hprefix
  · rintro ⟨hnested,hbuilt⟩
    have hinjective : ∀ s ∈ servers, ∀ s' ∈ servers, ∀ tool ∈ offeredTools F s,
        ∀ tool' ∈ offeredTools F s', operationId s tool = operationId s' tool' →
          s = s' ∧ tool = tool' := by
      intro s hs s' hs' tool ht tool' ht' heq
      rcases dotted_eq heq with ⟨hid,htool⟩ | ⟨m,hid,htool⟩ | ⟨m,hid,htool⟩
      · exact ⟨hsame s hs s' hs' hid,htool⟩
      · exact absurd htool (hnested s hs s' hs' tool ht tool' ht' m hid)
      · exact absurd htool (hnested s' hs' s hs tool' ht' tool ht m hid)
    have hfresh : ∀ s ∈ servers, ∀ tool ∈ offeredTools F s,
        operationId s tool ∉ builtInOperations openai google := by
      intro s hs tool ht hmem
      have hall := builtInOperations_subset openai google hmem
      exact hbuilt s hs tool ht (split_of_builtIn hall (hids.free s hs)) hmem
    refine ⟨hinjective,(neverReplaces_iff e servers).mpr ⟨fun r hr => ?_,?_⟩⟩
    · obtain ⟨hs,tool,ht,hid⟩ := mem_registrations hr
      have hnone := hfresh _ hs tool ht
      rw [← hid] at hnone
      refine ⟨fun d hd => ?_,fun x hx => ?_,fun x hx => ?_⟩
      · exact absurd ((he.operations _).mp ⟨d,hd⟩) hnone
      · exact absurd (he.executors _ x hx) hnone
      · rw [he.resolvers] at hx
        cases hx
    · refine List.pairwise_of_forall_mem_list fun r hr r' hr' heq => ?_
      obtain ⟨hs,tool,ht,hid⟩ := mem_registrations hr
      obtain ⟨hs',tool',ht',hid'⟩ := mem_registrations hr'
      rw [hid,hid'] at heq
      rw [(hinjective _ hs _ hs' tool ht tool' ht' heq).1]

end

/-- Reads one text as the given values. -/
@[reducible] def readsServers (text : String) (data : List (String × Toml Unit)) :
    ServerRuntime Unit :=
  {readsAs text data with
    isFloat := fun _ => false
    int := fun value => .error (.typeError (readsAs text data |>.repr value))}

/-- Servers that are all there, and report tools by their names. -/
@[reducible] def reports (tools : String → List String) : Servers Unit where
  isSocket _ := true
  isFile _ := true
  listTools server := .ok ((tools server.id).map fun name => [("name",.str name)])

/-- The operations of the registry, all of them of one capability. -/
def listedEnvironment : Environment Unit where
  entries _ := none
  listed key := if key ∈ builtInOperations true true then some (builtInDescriptor key) else none
  operations key := if key ∈ builtInOperations true true then some (builtInDescriptor key) else none
  executors key := if key ∈ builtInOperations true true then some (.builtIn key) else none
  resolvers _ := none
where
  builtInDescriptor (key : String) : OperationDescriptor Unit := {
    id := key
    capabilityId := "atlas.memory"
    family := "Memory"
    description := ""
    inputSchema := []
    effect := .read
    authority := .auto
    trust := "internal"}

theorem builtIn_listedEnvironment : BuiltIn true true listedEnvironment where
  operations key := by
    by_cases hkey : key ∈ builtInOperations true true <;> simp [listedEnvironment,hkey]
  capabilities key d hd := by
    simp only [listedEnvironment] at hd
    split_ifs at hd
    cases hd
    have hatlas : idPrefix "atlas.memory" ∈ reservedPrefixes := by decide
    exact hatlas
  executors key x hx := by
    simp only [listedEnvironment] at hx
    split_ifs at hx with hkey
    exact hkey
  resolvers _ := rfl

/-- A server with a socket and nothing else. -/
def plainServer (id : String) : MCPServerConfig where
  id := id
  family := id
  description := "MCP server " ++ id ++ "."
  transport := "socket"
  path := some "/run/mcp.sock"
  command := none
  args := []
  envFile := none
  trust := "external"
  tools := none
  readOnlyAuthority := .auto
  destructiveAuthority := .approvalRequired
  nonDestructiveAuthority := .auto
  timeout := 45
  toolPolicies := []

def serverText (id : String) : String :=
  "[[servers]]\nid = \"" ++ id ++ "\"\npath = \"/run/mcp.sock\"\n"

def serverData (id : String) : Toml Unit :=
  .table [("id",.text id),("path",.text "/run/mcp.sock")]

theorem identity_kept_systemd :
    letI := Evidence.plainTexts
    letI := reports fun _ => ["list_log","change_unit_state"]
    IdentityKept listedEnvironment [plainServer "host.systemd"] := by
  let _ := Evidence.plainTexts
  let _ := reports fun _ => ["list_log","change_unit_state"]
  let _ := readsServers (serverText "host.systemd") [("servers",.array [serverData "host.systemd"])]
  have hservers : parseMcpServers Unit (serverText "host.systemd") =
      .ok [plainServer "host.systemd"] := by decide +kernel
  refine (identity_kept_iff hservers builtIn_listedEnvironment).mpr ⟨?_,?_⟩
  · intro s hs s' hs' tool _ tool' _ m hm
    rw [List.mem_singleton] at hs hs'
    subst hs hs'
    have hlength := congrArg (fun i => i.toList.length) hm
    simp at hlength
  · intro s hs tool _ hmem
    rw [List.mem_singleton] at hs
    subst hs
    simp [unreserved,plainServer] at hmem

/-- Two servers, both of them with an operation `host.shell.run`. -/
theorem operation_shared :
    letI := Evidence.plainTexts
    letI := reports fun id => if id = "host" then ["shell.run"] else ["run"]
    letI := readsServers (serverText "host" ++ serverText "host.shell")
      [("servers",.array [serverData "host",serverData "host.shell"])]
    parseMcpServers Unit (serverText "host" ++ serverText "host.shell") =
        .ok [plainServer "host",plainServer "host.shell"] ∧
      BuiltIn true true listedEnvironment ∧
      ¬IdentityKept listedEnvironment [plainServer "host",plainServer "host.shell"] := by
  refine ⟨by decide +kernel,builtIn_listedEnvironment,?_⟩
  rintro ⟨hinjective,_⟩
  have hsame := hinjective (plainServer "host") (by simp) (plainServer "host.shell") (by simp)
    "shell.run" (by decide +kernel) "run" (by decide +kernel) (by decide +kernel)
  exact absurd hsame.2 (by decide)

end Integrations
end Atlas
