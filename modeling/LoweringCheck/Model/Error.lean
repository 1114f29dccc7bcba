import LoweringCheck.Layer.Cropping
import LoweringCheck.Tensor.Basic
/-!
# Model errors

The causes for which a model cannot be built or run, with their messages.
-/
namespace LoweringCheck

/-- Why a layer may not crop its input. -/
inductive CroppingFault where
  | channelsFirst
  | nothingLeft (margin : Margin) (axis extent : Nat)
deriving DecidableEq, Repr

def CroppingFault.message : CroppingFault → String
  | channelsFirst => "Cropping1D only supports channels_last inputs"
  | nothingLeft margin axis extent =>
    let pair := margin.description
    s!"cropping {pair} on spatial axis {axis} leaves nothing of size {extent}"

/-- Which shape does not fit what. -/
inductive ShapeFault where
  | zeroExtent (input : String) (shape : List Nat)
  | layerRank (kind layer : String) (rank : Nat) (shape : List Nat)
  | missingAxis (layer : String) (rank axis : Nat)
  | cannotCrop (layer : String) (margin : Margin) (axis extent : Nat)
  | changed (layer : String) (before after : List Nat)
  | inputCount (model : String) (expected given : Nat)
  | input (name : String) (declared given : List Nat)
deriving DecidableEq, Repr

def ShapeFault.message : ShapeFault → String
  | zeroExtent name shape =>
    let axes := Text.naturals shape
    s!"input '{name}' has a zero-sized dimension: {axes}"
  | layerRank kind layer rank shape =>
    let axes := Text.naturals shape
    s!"{kind} '{layer}' expects an input of rank {rank} (batch excluded), got {axes}"
  | missingAxis layer rank axis => s!"'{layer}' received rank-{rank} input, axis {axis} missing"
  | cannotCrop layer margin axis extent =>
    let pair := margin.description
    s!"'{layer}' cannot crop {pair} from axis {axis} of size {extent}"
  | changed layer before after =>
    let old := Text.naturals before
    let new := Text.naturals after
    s!"Lambda '{layer}' changed shape {old} -> {new}"
  | inputCount model expected given => s!"model '{model}' expects {expected} inputs, got {given}"
  | input name declared given =>
    let own := Text.naturals declared
    let other := Text.naturals given
    s!"input '{name}' expects (batch, {own}), got {other}"

/-- Why some tensors do not bound a model. -/
inductive ModelFault where
  | incomplete
  | producedInput (name : String)
  | missingInput (name : String)
deriving DecidableEq, Repr

def ModelFault.message : ModelFault → String
  | incomplete => "a model needs at least one input and one output"
  | producedInput name => s!"'{name}' is a layer output, not an input"
  | missingInput name => s!"outputs depend on '{name}', which is not a model input"

inductive ModelError where
  | invalidCropping (layer : String) (fault : CroppingFault)
  | shape (fault : ShapeFault)
  | unknownTensor (name : String)
  | duplicateName (name : String)
  | invalidModel (fault : ModelFault)
  | tensor (fault : Tensor.Fault)
deriving DecidableEq, Repr

namespace ModelError

/-- The name of the kind of an error. -/
def kind : ModelError → String
  | invalidCropping .. => "invalid_cropping"
  | shape _ => "shape"
  | unknownTensor _ => "unknown_tensor"
  | duplicateName _ => "duplicate_name"
  | invalidModel _ => "invalid_model"
  | tensor _ => "tensor"

def message : ModelError → String
  | invalidCropping layer fault =>
    let reason := fault.message
    s!"Invalid cropping for layer '{layer}': {reason}"
  | shape fault => "Shape error: " ++ fault.message
  | unknownTensor name => s!"Unknown tensor '{name}'"
  | duplicateName name => s!"Duplicate name '{name}'"
  | invalidModel fault => "Invalid model: " ++ fault.message
  | tensor fault => "Tensor error: " ++ fault.message

/-- The message and those of its causes, outermost first. -/
def chain : ModelError → List String
  | tensor fault => (ModelError.tensor fault).message :: fault.chain
  | e => [e.message]

end ModelError
end LoweringCheck
