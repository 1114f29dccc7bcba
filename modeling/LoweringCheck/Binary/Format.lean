/-!
# Binary formats

A floating-point format is given by the widths of its two fields. The magnitudes of a format are
numbered by codes, biased exponent and fraction read as one number, so that larger codes are larger
magnitudes. Every finite magnitude is a natural number of grains, the least positive magnitude; exact
arithmetic on values is arithmetic on naturals, and rounding is `Format.nearest`.
-/
namespace LoweringCheck.Binary

structure Format where
  exponentBits : Nat
  fractionBits : Nat
deriving DecidableEq, Repr

namespace Format

def half : Format := ⟨5, 10⟩
def brain : Format := ⟨8, 7⟩
def single : Format := ⟨8, 23⟩
def double : Format := ⟨11, 52⟩

/-- A grain is `2 ^ -f.places`. -/
def places (f : Format) : Nat :=
  Nat.pow 2 (f.exponentBits - 1) - 2 + f.fractionBits

/-- The code of infinity, one more than that of the largest finite magnitude. -/
def infinity (f : Format) : Nat :=
  (Nat.pow 2 f.exponentBits - 1) * Nat.pow 2 f.fractionBits

/-- The magnitude of a code, counted in grains. -/
def grains (f : Format) (code : Nat) : Nat :=
  let shift := code / Nat.pow 2 f.fractionBits - 1
  (code - shift * Nat.pow 2 f.fractionBits) * Nat.pow 2 shift

end Format

/-- The quotient rounded to the nearest natural number, a tie to the even one. -/
def roundQuotient (num den : Nat) : Nat :=
  let q := num / den
  let r := num % den
  if 2 * r < den then q else if den < 2 * r then q + 1 else q + q % 2

/-- The code whose magnitude is nearest to `num / den` grains, a tie to the even code. It may lie at
or beyond infinity. -/
def Format.nearest (f : Format) (num den : Nat) : Nat :=
  let shift := (num / den).log2 - f.fractionBits
  shift * Nat.pow 2 f.fractionBits + roundQuotient num (den * Nat.pow 2 shift)

end LoweringCheck.Binary
