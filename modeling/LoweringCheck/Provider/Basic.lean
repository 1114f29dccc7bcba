import LoweringCheck.Execution.Run
import LoweringCheck.Operator.Standard
/-!
# Providers

A provider runs graphs on one device at one precision. Only the processor is at hand; there is no
provider for a graphics device.
-/
namespace LoweringCheck

structure Provider where
  device : Device
  precision : Precision
  supports : String → Bool
  execute : Graph → List Tensor → Except ExecutionFault (List Tensor)

inductive ProviderError where
  | noGpu
  | alreadyRegistered (device : Device) (precision : Precision)
  | notRegistered (device : Device) (precision : Precision)
deriving DecidableEq, Repr

def ProviderError.message : ProviderError → String
  | noGpu => "GPU not available: device 0 requested but GPU support is not compiled in"
  | alreadyRegistered device precision =>
    let target := device.name ++ " " ++ precision.name
    s!"Provider for {target} is already registered"
  | notRegistered device precision =>
    "No provider registered for " ++ device.name ++ " " ++ precision.name

namespace Provider

def cpu (precision : Precision) (ops : OperatorSet) : Provider where
  device := .cpu
  precision := precision
  supports := ops.supports
  execute g := g.run ops precision

def create (device : Device) (precision : Precision) : Except ProviderError Provider :=
  match device with
  | .cpu => .ok (cpu precision .standard)
  | .gpu => .error .noGpu

/-- Whether each node of a graph can be run. -/
def canHandle (p : Provider) (g : Graph) : List Bool := g.nodes.map fun n => p.supports n.op

end Provider
end LoweringCheck
