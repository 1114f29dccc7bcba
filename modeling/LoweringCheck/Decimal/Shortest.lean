import LoweringCheck.Binary.Format
/-!
# The fewest digits that read back

The decimals that read back as a magnitude are those between the midpoints to its two neighbours, the
midpoints included when the code is even. The search tries ever finer powers of ten and stops at the
first one with a multiple in that interval; of two multiples it takes the nearer.
-/
namespace LoweringCheck

/-- The number `digits * 10 ^ exponent`. -/
structure Decimal where
  digits : Nat
  exponent : Int
deriving DecidableEq, Repr

namespace Decimal
open Binary (Format)

/-- Which of two equally near multiples is taken. -/
inductive Tie where
  | up
  | even
deriving DecidableEq, Repr

/-- An interval around a value, all three doubled, so that midpoints are whole. -/
structure Interval where
  low : Nat
  value : Nat
  high : Nat
  closed : Bool

def Interval.contains (i : Interval) (x : Nat) : Bool :=
  if i.closed then decide (i.low ≤ x ∧ x ≤ i.high) else decide (i.low < x ∧ x < i.high)

/-- The number of `10 ^ power` that lies in the interval, nearest to its value. -/
def Interval.multiple? (i : Interval) (tie : Tie) (power : Nat) : Option Nat :=
  let step := 2 * Nat.pow 10 power
  let q := i.value / step
  match i.contains (q * step), i.contains ((q + 1) * step) with
  | false, false => none
  | true, false => some q
  | false, true => some (q + 1)
  | true, true =>
    let r := i.value % step
    if 2 * r < step then some q
    else if step < 2 * r then some (q + 1)
    else match tie with
      | .up => some (q + 1)
      | .even => some (q + q % 2)

/-- The coarsest power of ten, at most the given one, with a multiple in the interval. At power 0 the
value itself is one. -/
def Interval.search (i : Interval) (tie : Tie) : Nat → Nat × Nat
  | 0 => (i.value / 2, 0)
  | power + 1 =>
    match i.multiple? tie (power + 1) with
    | some d => (d, power + 1)
    | none => i.search tie power

/-- The decimals that read back as a finite, positive code, counted in `10 ^ -f.places`. -/
def Interval.ofCode (f : Format) (code : Nat) : Interval :=
  let scale := Nat.pow 5 f.places
  { low := (f.grains (code - 1) + f.grains code) * scale
    value := 2 * f.grains code * scale
    high := (f.grains code + f.grains (code + 1)) * scale
    closed := code % 2 == 0 }

/-- The shortest decimal that reads back as a finite, positive code. The search starts at a power of
ten above the value, as `2 ^ 13 ≤ 10 ^ 4`. -/
def shortest (f : Format) (tie : Tie) (code : Nat) : Decimal :=
  let i := Interval.ofCode f code
  let (digits, power) := i.search tie ((4 * i.value.log2 + 16) / 13)
  ⟨digits, power - f.places⟩

end Decimal
end LoweringCheck
