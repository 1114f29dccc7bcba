import LoweringCheck.Model.Basic
/-!
# Running models

A model runs its layers in order on named values. Of inputs with one name the last value counts.
-/
namespace LoweringCheck

namespace Model

/-- Puts tensors under the names of declared inputs whose shapes they fit. -/
def bindInputs : List (Symbolic × Tensor) → Values → Except ModelError Values
  | [], values => .ok values
  | (declared, t) :: rest, values =>
    if fits declared.shape t.shape then bindInputs rest ((declared.name, t) :: values)
    else .error (.shape (.input declared.name declared.shape t.shape))

def runLayers : List Layer → Values → Except ModelError Values
  | [], values => .ok values
  | layer :: rest, values =>
    match values.lookup layer.input with
    | none => .error (.unknownTensor layer.input)
    | some t =>
      match layer.spec.execute layer.name t with
      | .error e => .error e
      | .ok output => runLayers rest ((layer.output, output) :: values)

def collect (values : Values) : List Symbolic → Except ModelError (List Tensor)
  | [] => .ok []
  | x :: rest =>
    match values.lookup x.name with
    | none => .error (.unknownTensor x.name)
    | some t =>
      match collect values rest with
      | .ok ts => .ok (t :: ts)
      | .error e => .error e

def predict (m : Model) (inputs : List Tensor) : Except ModelError (List Tensor) :=
  if inputs.length = m.inputs.length then
    match bindInputs (m.inputs.zip inputs) [] with
    | .error e => .error e
    | .ok values =>
      match runLayers m.layers values with
      | .error e => .error e
      | .ok values => collect values m.outputs
  else .error (.shape (.inputCount m.name m.inputs.length inputs.length))

end Model
end LoweringCheck
