import LoweringCheck.Comparison.Outputs
import LoweringCheck.Conversion.Error
import LoweringCheck.Equivalence.Config
import LoweringCheck.Equivalence.Params
import LoweringCheck.Equivalence.Reference
import LoweringCheck.Provider.Basic
/-!
# Failures of equivalence checks

The stages that a case goes through, and the causes for which it stops.
-/
namespace LoweringCheck

inductive Stage where
  | pending
  | built
  | converted
  | executedNative
  | executedConverted
  | compared
deriving DecidableEq, Repr

namespace Stage

/-- The stages in the order in which they are reached. -/
def all : List Stage :=
  [pending, built, converted, executedNative, executedConverted, compared]

def name : Stage → String
  | pending => "pending"
  | built => "built"
  | converted => "converted"
  | executedNative => "executed_native"
  | executedConverted => "executed_converted"
  | compared => "compared"

def tag : Stage → String
  | pending => "Pending"
  | built => "Built"
  | converted => "Converted"
  | executedNative => "ExecutedNative"
  | executedConverted => "ExecutedConverted"
  | compared => "Compared"

def compare (a b : Stage) : Ordering := Ord.compare (all.idxOf a) (all.idxOf b)

end Stage

inductive EquivalenceError where
  | params (fault : ParamsFault)
  | inputs (fault : Tensor.Fault)
  | config (e : ConfigError)
  | construction (e : ModelError)
  | conversion (e : ConversionError)
  | unavailable (device : Device) (e : ProviderError)
  | nativeExecution (e : ModelError)
  | convertedExecution (fault : ExecutionFault)
  | comparison (fault : ComparisonFault)
  | structural (fault : ReferenceFault)
  | file (e : FileError)
deriving DecidableEq, Repr

namespace EquivalenceError

/-- The name of the kind of a failure. -/
def kind : EquivalenceError → String
  | params _ | inputs _ => "precondition"
  | config _ => "config"
  | construction _ => "model_construction"
  | conversion _ => "conversion"
  | unavailable .. => "device_unavailable"
  | nativeExecution _ | convertedExecution _ => "execution"
  | comparison (.values _) => "mismatch"
  | comparison _ => "shape_mismatch"
  | structural _ => "structural_mismatch"
  | file _ => "io"

/-- The message of an execution that failed on the way to a stage. -/
private def stopped (stage : Stage) (cause : String) : String :=
  "Execution failed while reaching " ++ stage.name ++ ": " ++ cause

def message : EquivalenceError → String
  | params fault => "Precondition failed: " ++ fault.message
  | inputs fault => "Precondition failed: cannot generate inputs: " ++ fault.message
  | config e => "Invalid configuration: " ++ e.message
  | construction e => "Model construction failed: " ++ e.message
  | conversion e => "Conversion failed: " ++ e.message
  | unavailable device e => "Device " ++ device.name ++ " not available: " ++ e.message
  | nativeExecution e => stopped .executedNative e.message
  | convertedExecution fault => stopped .executedConverted fault.message
  | comparison fault => fault.message
  | structural fault => "Structural mismatch: " ++ fault.message
  | file e => "IO error: " ++ e.message

end EquivalenceError
end LoweringCheck
