import Atlas.Actions.Rows
import Atlas.Memory.Intake
import Mathlib.Algebra.Ring.Nat
import Mathlib.Data.List.Infix

/-! The registered operations: their descriptors, the check of the arguments of a call and the
search for operations. The schema validator is the one third-party part and stays open. -/
namespace Atlas
namespace Capabilities

open Actions (Refusal)
open Memory (strip)

inductive EffectKind where
  | read
  | create
  | update
  | delete
  | execute
  deriving Repr, DecidableEq

inductive AuthorityMode where
  | auto
  | approvalRequired
  | forbidden
  deriving Repr, DecidableEq

def AuthorityMode.value : AuthorityMode → String
  | .auto => "auto"
  | .approvalRequired => "approval_required"
  | .forbidden => "forbidden"

/-- `AuthorityMode(value)`. -/
def AuthorityMode.ofValue (value : String) : Option AuthorityMode :=
  [AuthorityMode.auto,.approvalRequired,.forbidden].find? fun mode => mode.value == value

theorem AuthorityMode.ofValue_value (mode : AuthorityMode) : ofValue mode.value = some mode := by
  cases mode <;> simp [ofValue,value]

structure OperationDescriptor where
  id : String
  capabilityId : String
  family : String
  description : String
  inputSchema : Dict := []
  effect : EffectKind := .read
  authority : AuthorityMode := .auto

/-- The operations under their identifiers, those of them that have an executor or a resolver of
their own, and the schema validator: the path of the first error and the rule that failed. -/
structure CapabilityRuntime where
  operations : List OperationDescriptor
  executors : List String
  authorityResolvers : List String
  schemaError : Dict → Dict → Except Refusal (Option (List Json × String))
  ids : (operations.map (·.id)).Nodup

/-- The lifecycle of managed tasks, which no grant hands out. -/
def nonDelegableManagedOperations : List String :=
  ["workspace.tasks.create","workspace.tasks.cancel","workspace.tasks.resume"]

namespace CapabilityRuntime

/-- `descriptor`. -/
def descriptor (rt : CapabilityRuntime) (operationId : String) : Option OperationDescriptor :=
  rt.operations.find? (·.id == operationId)

theorem descriptor_id {rt : CapabilityRuntime} {operationId : String} {d : OperationDescriptor}
    (h : rt.descriptor operationId = some d) : d.id = operationId := by
  simpa using List.find?_some h

theorem descriptor_of_mem {rt : CapabilityRuntime} {d : OperationDescriptor}
    (h : d ∈ rt.operations) : rt.descriptor d.id = some d := by
  cases hd : rt.descriptor d.id with
  | none => simpa using List.find?_eq_none.mp hd d h
  | some x => rw [List.inj_on_of_nodup_map rt.ids (List.mem_of_find?_eq_some hd) h (descriptor_id hd)]

/-- `operations`. -/
def sorted (rt : CapabilityRuntime) : List OperationDescriptor :=
  rt.operations.insertionSort fun a b => a.id ≤ b.id

section

variable [Actions.ActionRuntime]

/-- The required arguments that are missing. -/
def missingArguments (required : List Json) (arguments : Dict) : List String :=
  (required.filter fun key => match key with
    | .str k => (Dict.get arguments k).isNone
    | _ => true).map Actions.ActionRuntime.str

/-- The required text arguments that are blank. -/
def emptyStrings (required : List Json) (properties arguments : Dict) : List String :=
  required.filterMap fun key => match key with
    | .str k =>
        match Dict.get properties k,Dict.get arguments k with
        | some (.obj property),some (.str text) =>
            if Dict.text property "type" = some "string" ∧ strip text = "" then some k else none
        | _,_ => none
    | _ => none

/-- The properties that a schema names. -/
def schemaProperties (schema : Dict) : Dict :=
  match Dict.get schema "properties" with
  | some (.obj properties) => properties
  | _ => []

/-- The check that the schema names every argument it requires. -/
def requiredError (schema arguments : Dict) : Option String :=
  match Dict.get schema "required" with
  | some (.arr required) =>
      match missingArguments required arguments with
      | [] =>
          match emptyStrings required (schemaProperties schema) arguments with
          | [] => none
          | empty => some ("Required argument(s) cannot be empty: " ++ ", ".intercalate empty)
      | missing => some ("Missing required argument(s): " ++ ", ".intercalate missing)
  | _ => none

/-- The check that no argument is given that the schema does not name. -/
def unexpectedError (schema arguments : Dict) : Option String :=
  match Dict.get schema "additionalProperties" with
  | some (.bool false) =>
      match ((arguments.map Prod.fst).filter fun key =>
          (Dict.get (schemaProperties schema) key).isNone).insertionSort (· ≤ ·) with
      | [] => none
      | extras => some ("Unexpected argument(s): " ++ ", ".intercalate extras)
  | _ => none

/-- `validate_arguments`: what is wrong with the arguments of a call, if anything. -/
def validateArguments (rt : CapabilityRuntime) (operationId : String) (arguments : Dict) :
    Except Refusal (Option String) :=
  match rt.descriptor operationId with
  | none => .ok (some "Operation is not registered or enabled.")
  | some d =>
      match (requiredError d.inputSchema arguments).or (unexpectedError d.inputSchema arguments) with
      | some error => .ok (some error)
      | none =>
          match rt.schemaError d.inputSchema arguments with
          | .error e => .error e
          | .ok none => .ok none
          | .ok (some (path,validator)) =>
              let path := (orNone (".".intercalate (path.map Actions.ActionRuntime.str))).getD
                "arguments"
              .ok (some ("Invalid " ++ path ++ ": schema rule " ++ validator ++ " failed"))

end

section

variable [PyRuntime]

/-- The words of a query. -/
def searchTerms (query : String) : List String :=
  (words (String.ofList ((PyRuntime.casefold query).toList.map fun c =>
    if c = '/' ∨ c = '.' then ' ' else c))).dedup

/-- How well an operation matches the words of a query. -/
def searchScore (terms : List String) (d : OperationDescriptor) : ℕ :=
  let haystack := PyRuntime.casefold (d.id ++ " " ++ d.family ++ " " ++ d.description)
  ((terms.filter fun term => decide (term.toList <:+: haystack.toList)).map fun term =>
    if term.toList <:+: (PyRuntime.casefold d.id).toList then 3 else 1).sum

/-- The order of the results: the better match first, then by identifier. -/
def ranksBefore (terms : List String) (a b : OperationDescriptor) : Prop :=
  searchScore terms b < searchScore terms a ∨
    searchScore terms a = searchScore terms b ∧ a.id ≤ b.id

instance (terms : List String) : DecidableRel (ranksBefore terms) := fun _ _ =>
  inferInstanceAs (Decidable (_ ∨ _))

/-- Whether an operation is found at all. -/
def found (terms enabled : List String) (d : OperationDescriptor) : Bool :=
  decide (d.capabilityId ∈ enabled) && (decide (0 < searchScore terms d) || terms.isEmpty)

/-- `search`, for the capabilities that are enabled. -/
def search (rt : CapabilityRuntime) (query : String) (limit : ℤ) (enabled : List String) :
    List OperationDescriptor :=
  let terms := searchTerms query
  let scored := (rt.sorted.filter (found terms enabled)).insertionSort (ranksBefore terms)
  scored.take (max 1 (min limit 20)).toNat

end

end CapabilityRuntime

end Capabilities
end Atlas
