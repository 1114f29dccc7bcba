import LoweringCheck.Comparison.Tolerance
/-!
# Comparing values

Two lists of values are compared pair by pair: how many pairs a tolerance rejects, which rejected pair
deviates most, and how large the deviations are.
-/
namespace LoweringCheck

/-- How far two values are apart: not at all if both are NaN or they are equal, infinitely if one of
them is NaN. -/
def deviation (expected actual : Single) : Single :=
  if expected.isNaN || actual.isNaN then
    if expected.isNaN && actual.isNaN then .zero else .infinite false
  else if expected.equals actual then .zero
  else (actual.sub expected).abs

structure Difference where
  /-- the first of the rejected pairs that deviate most; 0 if none is rejected -/
  worst : Nat
  /-- the largest deviation, accepted pairs included -/
  maxAbsolute : Single
  /-- the largest deviation in proportion to an expected value beyond the absolute term -/
  maxRelative : Single
  /-- the number of rejected pairs -/
  rejected : Nat
deriving DecidableEq, Repr

namespace Difference

/-- A comparison on its way: what was found so far, how far the worst pair deviates, and how many
pairs were seen. -/
structure Progress where
  found : Difference
  worstDeviation : Single
  seen : Nat
deriving DecidableEq, Repr

def start : Progress := ⟨⟨0, .zero, .zero, 0⟩, .infinite true, 0⟩

/-- Counts a pair that is rejected. -/
def reject (p : Progress) (far : Single) : Progress :=
  let found := { p.found with rejected := p.found.rejected + 1 }
  if p.worstDeviation.less far then
    { p with found := { found with worst := p.seen }, worstDeviation := far }
  else { p with found := found }

/-- Takes the deviation of a pair into the maxima. -/
def widen (t : Tolerance) (d : Difference) (expected far : Single) : Difference :=
  { d with
    maxAbsolute := d.maxAbsolute.max far
    maxRelative :=
      if t.absolute.less expected.abs then d.maxRelative.max (far.div expected.abs)
      else d.maxRelative }

def step (t : Tolerance) (p : Progress) (pair : Single × Single) : Progress :=
  let far := deviation pair.1 pair.2
  let p := if t.allows pair.1 pair.2 then p else reject p far
  { p with found := widen t p.found pair.1 far, seen := p.seen + 1 }

end Difference

/-- Compares values pair by pair; those beyond the shorter list are left out. -/
def compareValues (t : Tolerance) (expected actual : List Single) : Difference :=
  ((expected.zip actual).foldl (Difference.step t) Difference.start).found

end LoweringCheck
