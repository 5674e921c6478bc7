import Atlas.Control.PolicyLoading
import Atlas.Lib.JsonRoundTrip
import Atlas.Lib.Lines
import Atlas.Python

/-! The environment of the shell server as it is rendered from a host policy and read back. -/
namespace Atlas
namespace HostPolicy

/-- The variables that are rendered, in their order. -/
def shellVariables (p : Policy) : List (List Char × List Char) :=
  [("ALLOW_COMMANDS".toList,[','].intercalate (p.shellCommands.map String.toList)),
    ("MCP_SHELL_DEFAULT_TIMEOUT_SECONDS".toList,JsonText.intText p.defaultTimeoutSeconds),
    ("MCP_SHELL_MAX_TIMEOUT_SECONDS".toList,JsonText.intText p.maxTimeoutSeconds),
    ("MCP_SHELL_OUTPUT_LIMIT_BYTES".toList,JsonText.intText p.outputLimitBytes),
    ("MCP_SHELL_CHILD_ENV_ALLOWLIST".toList,[]),
    ("MCP_SHELL_SAFE_PATH".toList,"/usr/local/bin:/usr/bin:/bin:/usr/sbin:/sbin".toList)]

/-- `render_shell_env`. -/
def renderShellEnv (p : Policy) : List Char :=
  ("# Generated by Atlas from /etc/atlas-v5/config/host-policy.toml. " ++
    "Do not edit.").toList ++ '\n' :: (shellVariables p).flatMap fun v => v.1 ++ '=' :: (v.2 ++ ['\n'])

/-- The variable that a line defines; comments and lines without a sign define none. -/
def readLine (line : List Char) : Option (List Char × List Char) :=
  if line.head? = some '#' ∨ line.head? = some ';' ∨ '=' ∉ line then none
  else some (line.takeWhile (· != '='),(line.dropWhile (· != '=')).drop 1)

/-- The variables of an environment file. -/
def readEnv (text : List Char) : List (List Char × List Char) :=
  (text.splitOn '\n').filterMap readLine

/-- The names between the commas of a value; an empty value has none. -/
def splitNames (value : List Char) : List String :=
  ((value.splitOn ',').filter fun name => !name.isEmpty).map String.ofList

/-- The commands that the reader of the rendered environment finds. -/
def commandsRead (p : Policy) : List String :=
  splitNames (((readEnv (renderShellEnv p)).lookup "ALLOW_COMMANDS".toList).getD [])

/-- What is read back is what was accepted, and risky only if that was asked for. -/
structure Policy.ShellFaithful (p : Policy) : Prop where
  commands : commandsRead p = p.shellCommands
  defined : (readEnv (renderShellEnv p)).map Prod.fst = (shellVariables p).map Prod.fst
  risk : p.allowRiskyCommands = true ∨ ∀ c ∈ commandsRead p, c ∉ riskyCommands

def endsLine (s : String) : Bool := s.toList.getLast? == some '\n'

/-! Lines of an environment. -/

theorem not_mem_of_mem_splitOn {sep : Char} {l line : List Char} (h : line ∈ l.splitOn sep) :
    sep ∉ line := by
  induction l generalizing line with
  | nil =>
    obtain rfl : line = [] := by simpa using h
    simp
  | cons c l ih =>
    rw [List.splitOn_cons_eq_if_modifyHead] at h
    split at h
    · rcases List.mem_cons.mp h with rfl | h
      · simp
      · exact ih h
    · next hc =>
      obtain ⟨q,qs,hq⟩ := List.exists_cons_of_ne_nil (List.splitOn_ne_nil sep l)
      rw [hq,List.modifyHead_cons] at h
      rcases List.mem_cons.mp h with rfl | h
      · have hsep : sep ≠ c := fun heq => hc (by simp [heq])
        rw [List.mem_cons,not_or]
        exact ⟨hsep,ih (hq ▸ List.mem_cons_self)⟩
      · exact ih (hq ▸ List.mem_cons_of_mem _ h)

/-- A variable with its name and its value on one line. -/
structure OneLine (v : List Char × List Char) : Prop where
  start : v.1.head? ≠ some '#' ∧ v.1.head? ≠ some ';' ∧ v.1 ≠ []
  name : '=' ∉ v.1 ∧ '\n' ∉ v.1
  value : '\n' ∉ v.2

theorem readLine_variable {v : List Char × List Char} (h : OneLine v) :
    readLine (v.1 ++ '=' :: v.2) = some v := by
  obtain ⟨name,value⟩ := v
  obtain ⟨c,cs,rfl⟩ := List.exists_cons_of_ne_nil h.start.2.2
  have hname : ∀ d ∈ c :: cs, (d != '=') = true := fun d hd =>
    bne_iff_ne.mpr fun heq => h.name.1 (heq ▸ hd)
  have hne : ¬(((c :: cs) ++ '=' :: value).head? = some '#' ∨
      ((c :: cs) ++ '=' :: value).head? = some ';' ∨ '=' ∉ (c :: cs) ++ '=' :: value) := by
    rintro (hs | hs | hs)
    · exact h.start.1 hs
    · exact h.start.2.1 hs
    · exact hs (by simp)
  rw [readLine,if_neg hne,List.takeWhile_append_of_pos hname,List.dropWhile_append_of_pos hname]
  simp

theorem readEnv_variables {env : List (List Char × List Char)}
    (h : ∀ v ∈ env, OneLine v) :
    readEnv (env.flatMap fun v => v.1 ++ '=' :: (v.2 ++ ['\n'])) = env := by
  induction env with
  | nil => rfl
  | cons v env ih =>
    have hv := h v List.mem_cons_self
    have hline : '\n' ∉ v.1 ++ '=' :: v.2 := by
      simp [hv.name.2,hv.value]
    have htext : (v :: env).flatMap (fun v => v.1 ++ '=' :: (v.2 ++ ['\n'])) =
        (v.1 ++ '=' :: v.2) ++
          '\n' :: env.flatMap fun v => v.1 ++ '=' :: (v.2 ++ ['\n']) := by
      simp
    rw [htext,readEnv,List.splitOn_append_cons_self,List.splitOn_eq_singleton hline,
      List.filterMap_append]
    have hmore := ih fun v hv => h v (List.mem_cons_of_mem _ hv)
    rw [readEnv] at hmore
    rw [hmore]
    simp [readLine_variable hv]

theorem splitNames_intercalate {names : List String}
    (h : ∀ name ∈ names, ',' ∉ name.toList ∧ name.toList ≠ []) :
    splitNames ([','].intercalate (names.map String.toList)) = names := by
  by_cases hnames : names = []
  · subst hnames
    rfl
  · have hcomma : ∀ l ∈ names.map String.toList, ',' ∉ l := by
      simpa using fun name hname => (h name hname).1
    rw [splitNames,List.splitOn_intercalate ',' hcomma (by simpa using hnames),
      List.filter_eq_self.mpr (by simpa using fun name hname => (h name hname).2)]
    simp [Function.comp_def]

/-! What the values hold. -/

/-- A command that does not end a line is one name of the file. -/
theorem commandName_clean {s : String} (h : commandName s = true) (hline : endsLine s = false) :
    '\n' ∉ s.toList ∧ ',' ∉ s.toList ∧ s.toList ≠ [] := by
  have hchop : chop s.toList = s.toList := if_neg (by simpa [endsLine] using hline)
  simp only [commandName,hchop,Bool.and_eq_true] at h
  obtain ⟨hne,hall⟩ := mem_of_isName h.1
  refine ⟨fun hmem => ?_,fun hmem => ?_,hne⟩
  · exact absurd (hall _ hmem) (by decide)
  · exact absurd (hall _ hmem) (by decide)

theorem intText_clean (n : ℤ) : '\n' ∉ JsonText.intText n := by
  obtain ⟨_,hdigits⟩ := JsonText.isWhole_digits (JsonText.isWhole_toDigits n.natAbs)
  rw [JsonText.intText,List.mem_append,not_or]
  refine ⟨by split_ifs <;> simp,fun hmem => ?_⟩
  exact absurd (hdigits _ hmem) (by decide)

theorem not_mem_intercalate {a sep : Char} (hsep : a ≠ sep) {parts : List (List Char)}
    (h : ∀ part ∈ parts, a ∉ part) : a ∉ [sep].intercalate parts := by
  induction parts with
  | nil => simp
  | cons part parts ih =>
    have hmore := ih fun p hp => h p (List.mem_cons_of_mem _ hp)
    cases parts with
    | nil => simpa using h part
    | cons next parts =>
      rw [List.intercalate_cons_cons,List.mem_append,List.mem_append,List.mem_singleton]
      rintro ((hmem | hmem) | hmem)
      · exact h part List.mem_cons_self hmem
      · exact hsep hmem
      · exact hmore hmem

theorem oneLine {n value : List Char}
    (h : (n.head? ≠ some '#' ∧ n.head? ≠ some ';' ∧ n ≠ []) ∧ '=' ∉ n ∧ '\n' ∉ n)
    (hvalue : '\n' ∉ value) : OneLine (n,value) :=
  ⟨h.1,h.2,hvalue⟩

theorem names_clean : ∀ n ∈ ["ALLOW_COMMANDS","MCP_SHELL_DEFAULT_TIMEOUT_SECONDS",
    "MCP_SHELL_MAX_TIMEOUT_SECONDS","MCP_SHELL_OUTPUT_LIMIT_BYTES",
    "MCP_SHELL_CHILD_ENV_ALLOWLIST","MCP_SHELL_SAFE_PATH"],
    (n.toList.head? ≠ some '#' ∧ n.toList.head? ≠ some ';' ∧ n.toList ≠ []) ∧
      '=' ∉ n.toList ∧ '\n' ∉ n.toList := by
  simp only [← bytewise_eq]
  decide +kernel

theorem safePath_clean : '\n' ∉ "/usr/local/bin:/usr/bin:/bin:/usr/sbin:/sbin".toList := by
  rw [← bytewise_eq]
  decide +kernel

theorem shellVariables_oneLine {p : Policy} (h : ∀ c ∈ p.shellCommands, '\n' ∉ c.toList) :
    ∀ v ∈ shellVariables p, OneLine v := by
  have hcommands : '\n' ∉ [','].intercalate (p.shellCommands.map String.toList) :=
    not_mem_intercalate (by decide) (by simpa using h)
  intro v hv
  simp only [shellVariables,List.mem_cons,List.not_mem_nil,or_false] at hv
  rcases hv with rfl | rfl | rfl | rfl | rfl | rfl
  · exact oneLine (names_clean _ (by simp)) hcommands
  · exact oneLine (names_clean _ (by simp)) (intText_clean p.defaultTimeoutSeconds)
  · exact oneLine (names_clean _ (by simp)) (intText_clean p.maxTimeoutSeconds)
  · exact oneLine (names_clean _ (by simp)) (intText_clean p.outputLimitBytes)
  · exact oneLine (names_clean _ (by simp)) List.not_mem_nil
  · exact oneLine (names_clean _ (by simp)) safePath_clean

/-- The first line is a comment. -/
def shellHeader : List Char :=
  ("# Generated by Atlas from /etc/atlas-v5/config/host-policy.toml. " ++ "Do not edit.").toList

theorem readEnv_header : readEnv shellHeader = [] := by
  unfold shellHeader
  rw [← bytewise_eq]
  decide +kernel

theorem readEnv_append (header text : List Char) :
    readEnv (header ++ '\n' :: text) = readEnv header ++ readEnv text := by
  simp only [readEnv,List.splitOn_append_cons_self,List.filterMap_append]

/-- The comment is skipped. -/
theorem readEnv_renderShellEnv (p : Policy) : readEnv (renderShellEnv p) =
    readEnv ((shellVariables p).flatMap fun v => v.1 ++ '=' :: (v.2 ++ ['\n'])) := by
  have htext : renderShellEnv p = shellHeader ++ '\n' :: (shellVariables p).flatMap fun v =>
      v.1 ++ '=' :: (v.2 ++ ['\n']) := rfl
  rw [htext,readEnv_append,readEnv_header,List.nil_append]

theorem readEnv_render {p : Policy} (h : ∀ c ∈ p.shellCommands, '\n' ∉ c.toList) :
    readEnv (renderShellEnv p) = shellVariables p := by
  rw [readEnv_renderShellEnv]
  exact readEnv_variables (shellVariables_oneLine h)

/-- Nothing that is read back spans two lines. -/
theorem commandsRead_clean (p : Policy) : ∀ c ∈ commandsRead p, '\n' ∉ c.toList := by
  intro c hc
  simp only [commandsRead,splitNames,List.mem_map,List.mem_filter] at hc
  obtain ⟨name,⟨hname,_⟩,rfl⟩ := hc
  rw [String.toList_ofList]
  intro hmem
  have hvalue := Lines.subset_of_mem_splitOn hname hmem
  cases hlookup : (readEnv (renderShellEnv p)).lookup "ALLOW_COMMANDS".toList with
  | none =>
    rw [hlookup] at hvalue
    simp at hvalue
  | some value =>
    rw [hlookup,Option.getD_some] at hvalue
    obtain ⟨before,after,henv,_⟩ := List.lookup_eq_some_iff.mp hlookup
    have hmem : ("ALLOW_COMMANDS".toList,value) ∈ readEnv (renderShellEnv p) := by
      rw [henv]
      simp
    obtain ⟨line,hline,hread⟩ := List.mem_filterMap.mp hmem
    rw [readLine] at hread
    split_ifs at hread
    obtain ⟨_,rfl⟩ := Prod.mk.inj (Option.some.inj hread)
    exact not_mem_of_mem_splitOn hline
      ((List.dropWhile_suffix _).subset ((List.drop_suffix 1 _).subset hvalue))

/-- What is read back of the rendered environment is what was accepted, with its risk asked for,
exactly if no listed command ends with a line break. -/
theorem shell_faithful_iff {O : Type} [TomlRuntime O] {text : String}
    {data : List (String × Toml O)} {p : Policy} (hdata : TomlRuntime.loads text = some data)
    (h : loadPolicy O text = .ok p) :
    p.ShellFaithful ↔ ∀ c ∈ listedCommands data, endsLine c = false := by
  rw [loadPolicy,hdata] at h
  obtain ⟨hp,hlisted⟩ := loadData_ok h
  constructor
  · intro hfaithful c hc
    have hread : c ∈ commandsRead p := by
      rw [hfaithful.commands]
      exact (hlisted c).mpr hc
    have hclean := commandsRead_clean p c hread
    by_contra hends
    have hlast : c.toList.getLast? = some '\n' := by simpa [endsLine] using hends
    exact hclean (List.mem_of_getLast? hlast)
  · intro hends
    have hclean : ∀ c ∈ p.shellCommands, '\n' ∉ c.toList ∧ ',' ∉ c.toList ∧ c.toList ≠ [] :=
      fun c hc => commandName_clean (hp.commands c hc).1 (hends c ((hlisted c).mp hc))
    have henv := readEnv_render fun c hc => (hclean c hc).1
    have hcommands : commandsRead p = p.shellCommands := by
      rw [commandsRead,henv]
      exact splitNames_intercalate fun c hc => (hclean c hc).2
    exact ⟨hcommands,by rw [henv],hcommands ▸ hp.risk⟩

def escapedText : String := "[shell]\nallow_commands = [\"bash\\n\"]\n"

def escapedData : List (String × Toml Unit) :=
  [("shell",.table [("allow_commands",.array [.text "bash\n"])])]

/-- A policy that lists the commands. -/
def shellPolicy (commands : List String) : Policy where
  user := "atlas-tools"
  owner := none
  groups := ["systemd-journal"]
  units := []
  unitFileGrant := false
  grants := []
  shellCommands := commands
  allowRiskyCommands := false
  defaultTimeoutSeconds := 20
  maxTimeoutSeconds := 60
  outputLimitBytes := 262144
  systemdTools := defaultSystemdTools
  polkitTimeoutSeconds := 5
  warnings := []

theorem shell_faithful_ls :
    (shellPolicy ["ls"]).ShellFaithful := by
  let text := "[shell]\nallow_commands = [\"ls\"]\n"
  let data : List (String × Toml Unit) :=
    [("shell",.table [("allow_commands",.array [.text "ls"])])]
  let _ := readsAs text data
  exact (@shell_faithful_iff Unit _ text data _ rfl (by decide +kernel)).mpr
    (by decide +kernel)

/-- The policy does not ask for risky commands, and the reader finds `bash`. -/
theorem shell_risk_unseen :
    letI := readsAs escapedText escapedData
    loadPolicy Unit escapedText = .ok (shellPolicy ["bash\n"]) ∧
      commandsRead (shellPolicy ["bash\n"]) = ["bash"] ∧ "bash" ∈ riskyCommands ∧
      ¬(shellPolicy ["bash\n"]).ShellFaithful := by
  have hread : commandsRead (shellPolicy ["bash\n"]) = ["bash"] := by
    rw [commandsRead,readEnv_renderShellEnv]
    decide +kernel
  refine ⟨by decide +kernel,hread,by decide,fun h => ?_⟩
  have hcommands := h.commands
  rw [hread] at hcommands
  exact absurd hcommands (by decide)

end HostPolicy
end Atlas
