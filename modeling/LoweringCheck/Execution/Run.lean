import LoweringCheck.Execution.Fault
import LoweringCheck.Target
/-!
# Running graphs

A graph runs its nodes in schedule order on named values. Inputs are cast to the element type of the
precision, outputs to single precision. Of tensors with one name the last value counts.
-/
namespace LoweringCheck.Graph

/-- Puts tensors under the names of the terminals that accept them. -/
def bindInputs (dtype : DType) : List (Terminal × Tensor) → Values → Except ExecutionFault Values
  | [], values => .ok values
  | (x, t) :: rest, values =>
    if x.accepts t.shape then bindInputs dtype rest ((x.name, t.toDType dtype) :: values)
    else .error (.shape x.name t.shape x.shape)

/-- The values of tensors. -/
def gather (values : Values) : List String → Except ExecutionFault (List Tensor)
  | [] => .ok []
  | tensor :: rest =>
    match values.lookup tensor with
    | none => .error (.unavailable tensor)
    | some t =>
      match gather values rest with
      | .ok ts => .ok (t :: ts)
      | .error fault => .error fault

/-- Adds the values that a node computes. -/
def runNode (ops : OperatorSet) (n : Node) (values : Values) : Except ExecutionFault Values :=
  match ops.find n.op with
  | .error e => .error (.unsupported e)
  | .ok op =>
    match gather values n.inputs with
    | .error fault => .error fault
    | .ok inputs =>
      match op.execute inputs n.attributes with
      | .error e => .error (.nodeFailed n.op n.name e)
      | .ok results =>
        if results.length = n.outputs.length then .ok ((n.outputs.zip results).reverse ++ values)
        else .error (.outputCount n.op results.length n.outputs.length)

/-- Runs nodes by their numbers, in the order given. -/
def runNodes (ops : OperatorSet) (g : Graph) : List Nat → Values → Except ExecutionFault Values
  | [], values => .ok values
  | id :: rest, values =>
    match g.node? id with
    | none => .error (.missingNode id)
    | some n =>
      match runNode ops n values with
      | .error fault => .error fault
      | .ok values => runNodes ops g rest values

/-- The values that leave the graph. -/
def collect (values : Values) : List Terminal → Except ExecutionFault (List Tensor)
  | [] => .ok []
  | x :: rest =>
    match values.lookup x.name with
    | none => .error (.neverProduced x.name)
    | some t =>
      if x.accepts t.shape then
        match collect values rest with
        | .ok ts => .ok (t.toDType .f32 :: ts)
        | .error fault => .error fault
      else .error (.shape x.name t.shape x.shape)

/-- Runs the nodes in the order given, between the inputs and the outputs. -/
def runInOrder (g : Graph) (ops : OperatorSet) (order : List Nat) (values : Values) :
    Except ExecutionFault (List Tensor) :=
  match runNodes ops g order values with
  | .error fault => .error fault
  | .ok values => collect values g.outputs

/-- Runs a graph at a precision, its nodes in the order given. -/
def runAlong (g : Graph) (ops : OperatorSet) (precision : Precision) (inputs : List Tensor)
    (order : List Nat) : Except ExecutionFault (List Tensor) :=
  if inputs.length = g.inputs.length then
    match bindInputs precision.dtype (g.inputs.zip inputs) [] with
    | .error fault => .error fault
    | .ok values => g.runInOrder ops order values
  else .error (.inputCount g.inputs.length inputs.length)

/-- Runs a graph at a precision. -/
def run (g : Graph) (ops : OperatorSet) (precision : Precision) (inputs : List Tensor) :
    Except ExecutionFault (List Tensor) :=
  if inputs.length = g.inputs.length then
    match bindInputs precision.dtype (g.inputs.zip inputs) [] with
    | .error fault => .error fault
    | .ok values =>
      match g.schedule with
      | .error fault => .error (.schedule fault)
      | .ok order => g.runInOrder ops order values
  else .error (.inputCount g.inputs.length inputs.length)

end LoweringCheck.Graph
