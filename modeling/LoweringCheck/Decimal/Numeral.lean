import LoweringCheck.Binary.Convert
import LoweringCheck.Text.Integer
/-!
# Reading floating-point values

A value is written as a decimal with an optional sign, fraction and exponent, or by a word for NaN and
infinity, and is rounded once.
-/
namespace LoweringCheck.Decimal

private def natural (digits : List Char) : Nat := Text.digitsValue digits

/-- An exponent with an optional sign. -/
private def exponent? : List Char → Option Int
  | '-' :: digits => (unsigned? digits).map (-·)
  | '+' :: digits => unsigned? digits
  | digits => unsigned? digits
where
  unsigned? (digits : List Char) : Option Int :=
    if digits.isEmpty || !digits.all Char.isDigit then none else some (natural digits)

private def unsigned? (f : Binary.Format) (negative : Bool) (cs : List Char) : Option (Binary f) :=
  let whole := cs.takeWhile Char.isDigit
  let rest := cs.dropWhile Char.isDigit
  let (fraction, rest) := match rest with
    | '.' :: rest => (rest.takeWhile Char.isDigit, rest.dropWhile Char.isDigit)
    | _ => ([], rest)
  let digits := whole ++ fraction
  let value (exponent : Int) : Binary f :=
    .ofDecimal f negative (natural digits) (exponent - fraction.length)
  if digits.isEmpty then none
  else match rest with
    | [] => some (value 0)
    | c :: rest => if c = 'e' ∨ c = 'E' then (exponent? rest).map value else none

private def magnitude? (f : Binary.Format) (negative : Bool) (cs : List Char) : Option (Binary f) :=
  let word := String.ofList (cs.map Char.toLower)
  if word = "nan" then some .nan
  else if word = "inf" ∨ word = "infinity" then some (.infinite negative)
  else unsigned? f negative cs

/-- The value nearest to the number that a text denotes. -/
def parse? (f : Binary.Format) (s : String) : Option (Binary f) :=
  match s.toList with
  | '-' :: cs => magnitude? f true cs
  | '+' :: cs => magnitude? f false cs
  | cs => magnitude? f false cs

end LoweringCheck.Decimal
