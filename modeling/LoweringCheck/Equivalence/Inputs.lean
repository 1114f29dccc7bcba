import LoweringCheck.Equivalence.Params
import LoweringCheck.Random.Stream
/-!
# Generated inputs

Inputs are filled with integers from -255 to 254, which every floating-point type holds exactly. One
stream goes through all of them.
-/
namespace LoweringCheck

/-- The next integers of a stream as values. -/
def drawValues (count : Nat) (s : Random.Stream) : List Single × Random.Stream :=
  let (is, s) := s.draws (-255) 510 count
  (is.map (Binary.ofInt .single), s)

def fillInputs : List InputSpec → Random.Stream → Except Tensor.Fault (List Tensor)
  | [], _ => .ok []
  | spec :: rest, s =>
    let (values, s) := drawValues (Shape.volume spec.shape) s
    match Tensor.ofValues values.toArray spec.shape spec.dtype with
    | .error fault => .error fault
    | .ok t =>
      match fillInputs rest s with
      | .ok ts => .ok (t :: ts)
      | .error fault => .error fault

def generateInputs (specs : List InputSpec) (seed : UInt64) : Except Tensor.Fault (List Tensor) :=
  fillInputs specs (.ofSeed seed)

end LoweringCheck
