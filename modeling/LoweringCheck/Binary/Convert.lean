import LoweringCheck.Binary.Basic
/-!
# Conversions of floating-point values

Between formats and from integers a value is rounded once, to nearest with ties to even; to an integer
it is cut toward zero and held within the bounds of the target.
-/
namespace LoweringCheck.Binary
variable {f : Format}

/-- To its own format a value is kept as it is. -/
def convert (g : Format) (x : Binary f) : Binary g :=
  if h : f = g then h ▸ x
  else match x with
    | .nan => .nan
    | .signed negative code =>
      if code = f.infinity then infinite negative
      else ofGrains negative (f.grains code * Nat.pow 2 g.places) (Nat.pow 2 f.places)

def ofInt (f : Format) (i : Int) : Binary f :=
  ofGrains (decide (i < 0)) (i.natAbs * Nat.pow 2 f.places) 1

/-- The value cut toward zero and clamped to `low … high`. NaN becomes 0. -/
def toIntWithin (low high : Int) : Binary f → Int
  | .nan => 0
  | .signed negative code =>
    if code = f.infinity then if negative then low else high
    else
      let whole : Int := (f.grains code / Nat.pow 2 f.places : Nat)
      min high (Max.max low (if negative then -whole else whole))

/-- The value with the lowest bits of its code cleared, which moves it toward zero. -/
def clearLow (bits : Nat) : Binary f → Binary f
  | .nan => .nan
  | .signed negative code => ofCode negative (code - code % Nat.pow 2 bits)

/-- The value nearest to `digits * 10 ^ exponent`. Exponents far outside every format are decided
without computing the power. -/
def ofDecimal (f : Format) (negative : Bool) (digits : Nat) (exponent : Int) : Binary f :=
  if digits = 0 then ofCode negative 0
  else if exponent > 400 then infinite negative
  else if exponent + digits.log2 < -400 then ofCode negative 0
  else
    ofGrains negative (digits * Nat.pow 10 exponent.toNat * Nat.pow 2 f.places)
      (Nat.pow 10 (-exponent).toNat)

end LoweringCheck.Binary
