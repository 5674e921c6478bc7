import Atlas.Lib.Crowd
import Atlas.Python
import Atlas.Actions.Rows

/-! The files that Control and the apply script share: the staged texts, the apply request, the
result and the effective files, changed by one file-system step at a time. -/
namespace Atlas
namespace Control

open Actions

inductive Kind where
  | policy
  | servers
  deriving Repr, DecidableEq

/-- A text that was staged, with the number of its kind's texts up to it. -/
structure Stamp where
  kind : Kind
  version : ℕ
  text : String
  deriving Repr, DecidableEq

structure ApplyRequest where
  requestedAt : Instant
  kinds : List String
  deriving Repr, DecidableEq

structure ApplyResult where
  status : String
  finishedAt : Instant
  applied : List String
  errors : List String
  notes : List String
  restartRequired : Bool
  deriving Repr, DecidableEq

/-- What a call or a run of the script has done so far: the texts it wrote, the version of each
kind it read last, the policy it installed and the texts it found at fault. -/
structure Progress where
  wrote : List Stamp := []
  seen : Kind → Option ℕ := fun _ => none
  installed : Option ℕ := none
  rejected : List (Kind × ℕ) := []

/-- The files, and the history of what was staged, accepted, made effective and reported. -/
structure Files where
  clock : Instant := 0
  staged : Kind → Option (ℕ × String) := fun _ => none
  request : Option ApplyRequest := none
  resultTmp : Option ApplyResult := none
  result : Option ApplyResult := none
  target : Kind → Option String := fun _ => none
  previous : Option String := none
  envelope : Bool × String := (true,"")
  active : Option ℕ := none
  writes : Kind → ℕ := fun _ => 0
  progress : ℕ → Progress := fun _ => {}
  accepted : List Stamp := []
  effective : List (Kind × ℕ) := []
  failed : List (Kind × ℕ) := []

/-- The checks that the script has other programs make of a text. -/
class ScriptRuntime where
  check : Kind → String → Bool × String
  noFile : String

inductive FileStep where
  | now
  | stage (kind : Kind) (text : String)
  | writeRequest (request : ApplyRequest)
  | activate
  | hasRequest
  | hasStaged (kind : Kind)
  | check (kind : Kind)
  | hasTarget
  | backup
  | install (kind : Kind)
  | hasPrevious
  | restore
  | envelope
  | writeResult (result : ApplyResult)
  | publish
  | unlinkRequest
  | unlink (kind : Kind)

@[reducible] def FileStep.Answer : FileStep → Type
  | .now => Instant
  | .stage _ _ => Unit
  | .writeRequest _ => Unit
  | .activate => Unit
  | .hasRequest => Bool
  | .hasStaged _ => Bool
  | .check _ => Bool × String
  | .hasTarget => Bool
  | .backup => Unit
  | .install _ => Unit
  | .hasPrevious => Bool
  | .restore => Unit
  | .envelope => Bool × String
  | .writeResult _ => Unit
  | .publish => Unit
  | .unlinkRequest => Unit
  | .unlink _ => Unit

inductive HostEvent where
  | tick (clock : Instant)
  | envelope (ok : Bool) (output : String)

namespace Files

def stir (h : Files) : HostEvent → Files
  | .tick clock => {h with clock := max h.clock clock}
  | .envelope ok output => {h with envelope := (ok,output)}

def note (h : Files) (i : ℕ) (p : Progress) : Files :=
  {h with progress := Function.update h.progress i p}

/-- A call or a run begins, or ends wherever it is. -/
def clear (h : Files) (i : ℕ) : Files :=
  {h.note i {} with active := if h.active = some i then none else h.active}

def sees (p : Progress) (kind : Kind) (version : ℕ) : Progress :=
  {p with seen := Function.update p.seen kind (some version)}

/-- The run has read what is staged of a kind. -/
def look (h : Files) (i : ℕ) (kind : Kind) : Progress := sees (h.progress i) kind (h.writes kind)

/-- An atomic replacement of a staged file. -/
def replace (h : Files) (i : ℕ) (kind : Kind) (text : String) : Files :=
  let version := h.writes kind + 1
  let p := h.progress i
  {h.note i {p with wrote := p.wrote ++ [⟨kind,version,text⟩]} with
    staged := Function.update h.staged kind (some (version,text))
    writes := Function.update h.writes kind version}

/-- A text that the checking program refuses is at fault. -/
def rejects (p : Progress) (kind : Kind) (version : ℕ) : Progress :=
  {p with rejected := p.rejected ++ [(kind,version)]}

/-- `install` copies what is staged at that moment. Servers are effective then, a policy only once
the envelope has been rendered from it. -/
def install (h : Files) (i : ℕ) (kind : Kind) : Files :=
  match h.staged kind with
  | none => h.note i (h.look i kind)
  | some (version,text) =>
      match kind with
      | .policy => {h.note i {h.look i kind with installed := some version} with
          target := Function.update h.target kind (some text)}
      | .servers => {h.note i (h.look i kind) with
          target := Function.update h.target kind (some text)
          effective := h.effective ++ [(kind,version)]}

/-- The outcome of rendering the envelope settles the policy that the run installed, or puts it
at fault. -/
def render (h : Files) (i : ℕ) : Files :=
  match (h.progress i).installed with
  | none => h
  | some version =>
      if h.envelope.1 then {h with effective := h.effective ++ [(.policy,version)]}
      else h.note i (rejects (h.progress i) .policy version)

variable [ScriptRuntime]

def answer (h : Files) (i : ℕ) : (q : FileStep) → Option (q.Answer × Files)
  | .now => some (h.clock,h)
  | .stage kind text => some ((),h.replace i kind text)
  | .writeRequest request => some ((),{h with
      request := some request
      accepted := h.accepted ++ (h.progress i).wrote})
  | .activate =>
      match h.active with
      | some j => if j = i then some ((),h) else none
      | none => some ((),{h with active := some i})
  | .hasRequest => some (h.request.isSome,h)
  | .hasStaged kind => some ((h.staged kind).isSome,h.note i (h.look i kind))
  | .check kind =>
      match h.staged kind with
      | none => some ((false,ScriptRuntime.noFile),h.note i (h.look i kind))
      | some (version,text) =>
          let verdict := ScriptRuntime.check kind text
          some (verdict,h.note i
            (if verdict.1 then h.look i kind else rejects (h.look i kind) kind version))
  | .hasTarget => some ((h.target .policy).isSome,h)
  | .backup => some ((),{h with previous := h.target .policy})
  | .install kind => some ((),h.install i kind)
  | .hasPrevious => some (h.previous.isSome,h)
  | .restore => some ((),{h with target := Function.update h.target .policy h.previous})
  | .envelope => some (h.envelope,h.render i)
  | .writeResult result => some ((),{h with resultTmp := some result})
  | .publish => some ((),{h with
      result := h.resultTmp
      failed := if h.resultTmp.any (·.status == "failed") then
          h.failed ++ (h.progress i).rejected
        else h.failed})
  | .unlinkRequest => some ((),{h with request := none})
  | .unlink kind => some ((),{h with staged := Function.update h.staged kind none})

end Files

def shared [ScriptRuntime] : Dialogue.Shared Files HostEvent FileStep FileStep.Answer where
  stir := Files.stir
  enter := Files.clear
  answer := Files.answer
  leave := Files.clear

end Control
end Atlas
