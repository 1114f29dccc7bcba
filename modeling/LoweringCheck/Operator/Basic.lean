import LoweringCheck.Decimal.Layout
import LoweringCheck.Graph.Basic
import LoweringCheck.Tensor.Basic
/-!
# Operators

An operator checks attributes and maps tensors to tensors. Nodes name their operator, which is looked up
in a set of operators, one to a name.
-/
namespace LoweringCheck

def Attribute.description : Attribute → String
  | int i => "Int(" ++ toString i.toInt ++ ")"
  | float x => "Float(" ++ real x ++ ")"
  | text s => "String(" ++ Text.quoted s ++ ")"
  | ints is => "IntArray(" ++ Text.integers (is.map Int64.toInt) ++ ")"
  | floats xs => "FloatArray(" ++ Text.listing (xs.map real) ++ ")"
where
  real (x : Binary .double) : String := String.ofList (Decimal.Layout.description.render x)

/-- What is wrong with an attribute. -/
inductive AttributeFault where
  | absent (op : String)
  | notIntegers (found : Attribute)
  | unequalLengths (starts stops axes : Nat)
  | unevenSteps (steps : List Int64)
  | missingAxis (axis : Int) (rank : Nat)
deriving DecidableEq, Repr

def AttributeFault.message : AttributeFault → String
  | absent op => s!"{op} requires this attribute"
  | notIntegers found => "expected an integer list, found " ++ found.description
  | unequalLengths starts stops axes =>
    s!"length mismatch: {starts} starts, {stops} ends, {axes} axes"
  | unevenSteps steps =>
    "only unit steps are supported, got " ++ Text.integers (steps.map Int64.toInt)
  | missingAxis axis rank => s!"axis {axis} out of range for rank {rank}"

inductive OperatorError where
  | unsupported (op : String)
  | inputCount (op : String) (given : Nat)
  | invalidAttribute (name : String) (fault : AttributeFault)
  | tensor (fault : Tensor.Fault)
deriving DecidableEq, Repr

namespace OperatorError

/-- The name of the kind of an error. -/
def kind : OperatorError → String
  | unsupported _ => "unsupported_operator"
  | inputCount .. => "invalid_graph"
  | invalidAttribute .. => "invalid_attribute"
  | tensor _ => "tensor"

def message : OperatorError → String
  | unsupported op => s!"Unsupported operator: {op}"
  | inputCount op given => s!"Invalid graph: {op} expects 1 input, got {given}"
  | invalidAttribute name fault =>
    let reason := fault.message
    s!"Invalid attribute '{name}': {reason}"
  | tensor fault => "Tensor error: " ++ fault.message

/-- The message and those of its causes, outermost first. -/
def chain : OperatorError → List String
  | tensor fault => (OperatorError.tensor fault).message :: fault.chain
  | e => [e.message]

end OperatorError

structure Operator where
  name : String
  check : Attributes → Except OperatorError Unit := fun _ => .ok ()
  execute : List Tensor → Attributes → Except OperatorError (List Tensor)

/-- Operators by their names. -/
abbrev OperatorSet := Dictionary Operator

namespace OperatorSet

/-- Adds an operator, in place of one with the same name. -/
def register (ops : OperatorSet) (op : Operator) : OperatorSet := ops.insert op.name op

def find (ops : OperatorSet) (name : String) : Except OperatorError Operator :=
  match ops.get? name with
  | some op => .ok op
  | none => .error (.unsupported name)

def supports (ops : OperatorSet) (name : String) : Bool := (ops.get? name).isSome

def names (ops : OperatorSet) : List String := ops.entries.map (·.1)

def description (ops : OperatorSet) : String :=
  Text.record "OperatorRegistry" [("operators", Text.quotedList (names ops))]

end OperatorSet
end LoweringCheck
