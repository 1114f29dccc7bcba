import LoweringCheck.Operator.Slice
/-!
# The standard operators

Slicing, and passing a tensor on unchanged.
-/
namespace LoweringCheck.Operator

def slice : Operator where
  name := Slice.name
  check := Slice.check
  execute := Slice.execute

def identity : Operator where
  name := "Identity"
  execute inputs _ :=
    match inputs with
    | [t] => .ok [t]
    | _ => .error (.inputCount "Identity" inputs.length)

end LoweringCheck.Operator

namespace LoweringCheck.OperatorSet

def standard : OperatorSet := register (register .empty .slice) .identity

end LoweringCheck.OperatorSet
