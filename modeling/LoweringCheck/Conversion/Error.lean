import LoweringCheck.Artifact.Basic
import LoweringCheck.Operator.Basic
/-!
# Conversion errors

The causes for which a model has no artifact.
-/
namespace LoweringCheck

/-- How given input shapes fail to fit a model. -/
inductive InputShapeFault where
  | count (model : String) (inputs given : Nat)
  | override (input : String) (declared given : List Nat)
deriving DecidableEq, Repr

def InputShapeFault.message : InputShapeFault → String
  | count model inputs given => s!"model '{model}' has {inputs} inputs, {given} shapes given"
  | override input declared given =>
    let own := Text.naturals declared
    let other := Text.naturals given
    s!"input '{input}' is (batch, {own}), override is {other}"

inductive ConversionError where
  | inputShape (fault : InputShapeFault)
  | unsupportedLayer (layer kind : String)
  | operator (e : OperatorError)
  | invalidGraph (fault : Graph.Fault)
  | artifact (e : ArtifactError)
deriving DecidableEq, Repr

namespace ConversionError

/-- The name of the kind of an error. -/
def kind : ConversionError → String
  | inputShape _ => "invalid_input_shape"
  | unsupportedLayer .. => "unsupported_layer"
  | operator e => e.kind
  | invalidGraph _ => "invalid_graph"
  | artifact e => e.kind

def message : ConversionError → String
  | inputShape fault => "Invalid input shape: " ++ fault.message
  | unsupportedLayer layer kind => s!"Layer '{layer}' of class {kind} cannot be converted"
  | operator e => e.message
  | invalidGraph fault => "Invalid graph: " ++ fault.message
  | artifact e => e.message

end ConversionError
end LoweringCheck
