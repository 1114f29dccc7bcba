/-!
# Reading natural numbers

One or more ASCII digits after an optional plus sign, up to a limit.
-/
namespace LoweringCheck.Text

def digitValue (c : Char) : Nat := c.toNat - '0'.toNat

/-- The number that digits denote; the caller checks that they are digits. -/
def digitsValue (cs : List Char) : Nat :=
  cs.foldl (fun n c => 10 * n + digitValue c) 0

def natural? (limit : Nat) (cs : List Char) : Option Nat :=
  let digits := match cs with
    | '+' :: rest => rest
    | _ => cs
  if digits.isEmpty || !digits.all Char.isDigit then none
  else
    let n := digitsValue digits
    if n ≤ limit then some n else none

end LoweringCheck.Text
