import LoweringCheck.Binary.Arithmetic
import LoweringCheck.Binary.Convert
import LoweringCheck.Target
/-!
# Tolerances

A value may deviate from the expected one by an absolute term and a term in proportion to the expected
value. All arithmetic is in single precision.
-/
namespace LoweringCheck

structure Tolerance where
  absolute : Single
  relative : Single
deriving DecidableEq, Repr

namespace Tolerance

/-- `digits * 10 ^ -places` for both terms. -/
private def even (digits places : Nat) : Tolerance :=
  let term := Binary.ofDecimal .single false digits (-places)
  ⟨term, term⟩

def fp32 : Tolerance := even 1 4
def fp16 : Tolerance := even 5 2

def ofPrecision : Precision → Tolerance
  | .fp32 => fp32
  | .fp16 => fp16

/-- NaN goes with NaN only, and infinity only with itself. -/
def allows (t : Tolerance) (expected actual : Single) : Bool :=
  if expected.isNaN || actual.isNaN then expected.isNaN && actual.isNaN
  else if expected.equals actual then true
  else if expected.isInfinite || actual.isInfinite then false
  else (actual.sub expected).abs.atMost (t.absolute.add (t.relative.mul expected.abs))

end Tolerance
end LoweringCheck
