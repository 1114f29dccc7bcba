import LoweringCheck.Binary.Basic
import LoweringCheck.Decimal.Shortest
/-!
# Writing floating-point values

A layout fixes what the digits leave open: where positional writing ends, whether a whole number keeps
a point, and how an exponent is signed.
-/
namespace LoweringCheck.Decimal

structure Layout where
  /-- whether a whole number ends in `.0` -/
  pointZero : Bool
  /-- the exponents of the leading digit that are written positionally, from the first and below the
  second; `none` means all -/
  positional : Option (Int × Int)
  /-- whether a positive exponent has its sign -/
  exponentPlus : Bool
  tie : Tie
  nan : String
  infinity : String
  negativeInfinity : String

/-- Natural numbers in decimal. -/
def digitsOf (n : Nat) : List Char := Nat.toDigits 10 n

private def zeros (n : Nat) : List Char := List.replicate n '0'

/-- Digits with the point `exponent` places after the last one. -/
def positional (pointZero : Bool) (digits : List Char) (exponent : Int) : List Char :=
  if 0 ≤ exponent then
    digits ++ zeros exponent.toNat ++ (if pointZero then ['.', '0'] else [])
  else
    let behind := (-exponent).toNat
    if behind < digits.length then
      digits.take (digits.length - behind) ++ '.' :: digits.drop (digits.length - behind)
    else '0' :: '.' :: zeros (behind - digits.length) ++ digits

/-- One digit before the point, and the exponent of that digit. -/
def scientific (plus : Bool) (digits : List Char) (leading : Int) : List Char :=
  digits.take 1 ++ (if digits.length = 1 then [] else '.' :: digits.drop 1) ++
    'e' :: (if leading < 0 then ['-'] else if plus then ['+'] else []) ++ digitsOf leading.natAbs

namespace Layout

def magnitude (layout : Layout) (d : Decimal) : List Char :=
  let digits := digitsOf d.digits
  let leading := d.exponent + digits.length - 1
  let plain := match layout.positional with
    | none => true
    | some (low, below) => decide (low ≤ leading ∧ leading < below)
  if plain then Decimal.positional layout.pointZero digits d.exponent
  else scientific layout.exponentPlus digits leading

def render {f : Binary.Format} (layout : Layout) : Binary f → List Char
  | .nan => layout.nan.toList
  | .signed negative code =>
    if code = f.infinity then
      (if negative then layout.negativeInfinity else layout.infinity).toList
    else
      (if negative then ['-'] else []) ++
        layout.magnitude (if (code : Nat) = 0 then ⟨0, 0⟩ else shortest f layout.tie code)

/-- Messages and reports: every value positional, a whole number without a point. -/
def message : Layout where
  pointZero := false
  positional := none
  exponentPlus := false
  tie := .up
  nan := "NaN"
  infinity := "inf"
  negativeInfinity := "-inf"

/-- Descriptions of records: whole numbers keep a point, `1e-5` and `1e16` have exponents. -/
def description : Layout where
  pointZero := true
  positional := some (-4, 16)
  exponentPlus := false
  tie := .up
  nan := "NaN"
  infinity := "inf"
  negativeInfinity := "-inf"

/-- JSON numbers: whole numbers keep a point. In single precision `1e-7` and `1e+13` have exponents, in
every other format `1e-6` and `1e+16`. -/
def json (f : Binary.Format) : Layout where
  pointZero := true
  positional := some (if f = .single then (-6, 13) else (-5, 16))
  exponentPlus := true
  tie := .even
  nan := "null"
  infinity := "null"
  negativeInfinity := "null"

end Layout
end LoweringCheck.Decimal
