import LoweringCheck.Binary.Arithmetic
import LoweringCheck.Json.Token
/-!
# Numbers in JSON text

A numeral without fraction and exponent is an integer as long as it fits 64 bits; any other one is a
double. The digits of a double are gathered in a 64-bit significand, which is then scaled by a power of
ten, each step rounded.
-/
namespace LoweringCheck.Json

/-- The parts of a numeral, digit by digit; an absent fraction or exponent is `none`. -/
structure Numeral where
  negative : Bool
  whole : List Nat
  fraction : Option (List Nat)
  /-- whether the exponent is negative, and its digits -/
  exponent : Option (Bool × List Nat)
deriving DecidableEq, Repr

namespace Numeral

def natLimit : Nat := 18446744073709551615
def exponentLimit : Nat := 2147483647

/-- A significand that still takes digits, or is full. -/
structure Significand where
  value : Nat
  full : Bool
  /-- the power of ten that the digits left out or taken behind the point amount to -/
  shift : Int

/-- A digit before the point. From the first one that does not fit on, digits only scale. -/
def Significand.whole (s : Significand) (digit : Nat) : Significand :=
  if s.full || natLimit < s.value * 10 + digit then { s with full := true, shift := s.shift + 1 }
  else { s with value := s.value * 10 + digit }

/-- The digits behind the point, up to the first one that does not fit. -/
def Significand.fraction (s : Significand) : List Nat → Significand
  | [] => s
  | digit :: digits =>
    if natLimit < s.value * 10 + digit then s
    else { s with value := s.value * 10 + digit, shift := s.shift - 1 }.fraction digits

private def powerOfTen (n : Nat) : Binary .double := .ofDecimal .double false 1 n

/-- The significand times a power of ten; `none` if it is beyond the doubles. A power below `-308` is
applied in two steps, and below `-616` nothing is left. -/
def scale (significand : Nat) (exponent : Int) : Option (Binary .double) :=
  let x := Binary.ofInt .double significand
  if 0 ≤ exponent then
    if significand = 0 then some x
    else if exponent ≤ 308 then
      let y := x.mul (powerOfTen exponent.toNat)
      if y.isInfinite then none else some y
    else none
  else
    let n := exponent.natAbs
    if n ≤ 308 then some (x.div (powerOfTen n))
    else if n ≤ 616 then some ((x.div (powerOfTen 308)).div (powerOfTen (n - 308)))
    else some Binary.zero

private def digitsValue (digits : List Nat) : Nat := digits.foldl (fun n d => 10 * n + d) 0

/-- The number denoted; `none` if it is beyond the doubles. Minus zero is a double. -/
def number? (numeral : Numeral) : Option Number :=
  let signed (x : Binary .double) : Number := .real .double (if numeral.negative then x.neg else x)
  let s := numeral.whole.foldl Significand.whole ⟨0, false, 0⟩
  match numeral.fraction, numeral.exponent with
  | none, none =>
    if s.full then (scale s.value s.shift).map signed
    else if !numeral.negative then some (.integer s.value)
    else if s.value = 0 ∨ 9223372036854775808 < s.value then
      some (signed (.ofInt .double s.value))
    else some (.integer (-s.value))
  | fraction, exponent =>
    let s := s.fraction (fraction.getD [])
    match exponent with
    | none => (scale s.value s.shift).map signed
    | some (down, digits) =>
      let n := digitsValue digits
      if n ≤ exponentLimit then
        (scale s.value (if down then s.shift - n else s.shift + n)).map signed
      else if s.value = 0 ∨ down then some (signed Binary.zero)
      else none

end Numeral
end LoweringCheck.Json
