import Atlas.Control.HostFiles

/-! The staging of host policy and server configuration by Control, and the apply script that
makes the staged files effective. -/
namespace Atlas
namespace Control

open Actions Dialogue

abbrev Script (α : Type) := Prog FileStep FileStep.Answer Failure α

def fileStep (q : FileStep) : Script q.Answer := Prog.request q

/-- The checks that Control makes of a text: the error, if it refuses it. -/
class ControlRuntime where
  policyError : String → Option String
  serversError : String → Option String

def maxText : ℕ := 256 * 1024

/-- `host policy note: ` at the start of a line of the renderer's output. -/
def notePrefix : String := "host policy note:"

def outputLines (output : String) : List String := (output.toList.splitOn '\n').map String.ofList

/-- `${output##*$'\n'}`. -/
def lastLine (output : String) : String := (outputLines output).getLastD ""

/-- The notes among the lines of the renderer's output. -/
def notesOf (output : String) : List String :=
  (outputLines output).filterMap fun line =>
    if line.toList.take notePrefix.length = notePrefix.toList then
      some (String.ofList ((line.toList.drop notePrefix.length).dropWhile (· == ' ')))
    else none

/-- What a run of the script reports. -/
structure Report where
  applied : List String := []
  errors : List String := []
  notes : List String := []
  restartRequired : Bool := false

section

variable [ControlRuntime]

/-- `validate_policy`, up to its error. -/
def validatePolicy (text : String) : Option String :=
  if text.utf8ByteSize > maxText then some "policy is too large"
  else ControlRuntime.policyError text

/-- `validate_servers`, up to its error. -/
def validateServers (text : String) : Option String :=
  if text.utf8ByteSize > maxText then some "configuration is too large"
  else ControlRuntime.serversError text

/-- What `stage` refuses before it writes anything. -/
def refusal (policyText serversText : Option String) : Option Failure :=
  match policyText.bind validatePolicy,serversText.bind validateServers with
  | some error,_ => some (valueError ("host policy rejected: " ++ error))
  | none,some error => some (valueError ("MCP server configuration rejected: " ++ error))
  | none,none =>
      if policyText.isNone && serversText.isNone then some (valueError "nothing to apply")
      else none

def stageText (kind : Kind) (text : Option String) : Script Unit :=
  match text with
  | some text => fileStep (.stage kind text)
  | none => return ()

/-- `HostPolicyControl.stage`. -/
def stage (policyText serversText : Option String) : Script Unit := do
  match refusal policyText serversText with
  | some error => Prog.raise error
  | none =>
      stageText .policy policyText
      stageText .servers serversText
      let now ← fileStep .now
      fileStep (.writeRequest {
        requestedAt := now
        kinds := (policyText.map fun _ => "policy").toList ++
          (serversText.map fun _ => "servers").toList})

end

/-- The target of the policy is kept aside if there is one. -/
def keepPrevious : Script Unit := do
  if ← fileStep .hasTarget then fileStep .backup else return ()

/-- What the script does when the envelope cannot be rendered. -/
def restorePrevious (report : Report) (output : String) : Script Report := do
  let errors := report.errors ++ ["envelope apply failed: " ++ lastLine output]
  if ← fileStep .hasPrevious then
    fileStep .restore
    return {report with errors := errors, notes := report.notes ++ ["previous host policy restored"]}
  else return {report with errors := errors}

/-- Step 1 of the script. -/
def applyPolicy (report : Report) : Script Report := do
  if ← fileStep (.hasStaged .policy) then
    let verdict ← fileStep (.check .policy)
    if verdict.1 then
      keepPrevious
      fileStep (.install .policy)
      let report := {report with notes := report.notes ++ notesOf verdict.2}
      let rendered ← fileStep .envelope
      if rendered.1 then return {report with applied := report.applied ++ ["host-policy.toml"]}
      else restorePrevious report rendered.2
    else return {report with
      errors := report.errors ++ ["host policy rejected: " ++ lastLine verdict.2]}
  else return report

/-- Step 2 of the script. -/
def applyServers (report : Report) : Script Report := do
  if ← fileStep (.hasStaged .servers) then
    let verdict ← fileStep (.check .servers)
    if verdict.1 then
      fileStep (.install .servers)
      return {report with
        applied := report.applied ++ ["mcp-servers.toml"]
        restartRequired := true
        notes := report.notes ++
          ["restart atlas-v5.service to load the new server configuration"]}
    else return {report with
      errors := report.errors ++ ["MCP server configuration rejected: " ++ lastLine verdict.2]}
  else return report

/-- The lines of the texts that are not empty. -/
def nonEmptyLines (texts : List String) : List String :=
  (texts.flatMap outputLines).filter (· != "")

/-- `finish`. -/
def finish (status : String) (report : Report) : Script Unit := do
  let now ← fileStep .now
  fileStep (.writeResult {
    status := status
    finishedAt := now
    applied := nonEmptyLines report.applied
    errors := nonEmptyLines report.errors
    notes := nonEmptyLines report.notes
    restartRequired := report.restartRequired})
  fileStep .publish
  fileStep .unlinkRequest
  fileStep (.unlink .policy)
  fileStep (.unlink .servers)

/-- `apply-host-policy.sh`; the unit runs one script at a time. -/
def applyHostPolicy : Script Unit := do
  fileStep .activate
  if ← fileStep .hasRequest then
    let report ← applyPolicy {}
    let report ← applyServers report
    if report.errors.isEmpty then finish "applied" report else finish "failed" report
  else return ()

inductive Caller where
  | stage (policyText serversText : Option String)
  | applyScript

/-- The calls of `stage` and the runs of the script on one host. -/
abbrev HostControl := Crowd Files Caller FileStep FileStep.Answer Failure Unit

section

variable [ControlRuntime] [ScriptRuntime]

def serve : Caller → Script Unit
  | .stage policyText serversText => stage policyText serversText
  | .applyScript => applyHostPolicy

def step (m : HostControl) (a : Move HostEvent Caller) : HostControl := m.step shared serve a

end

end Control
end Atlas
