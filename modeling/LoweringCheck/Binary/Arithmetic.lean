import LoweringCheck.Binary.Basic
/-!
# Floating-point arithmetic

Each operation on finite values is exact on grains and rounded once. The exceptional cases come first.
-/
namespace LoweringCheck.Binary
variable {f : Format}

/-- A magnitude in grains under its sign. -/
private def signedGrains (f : Format) (negative : Bool) (code : Nat) : Int :=
  if negative then -(f.grains code : Int) else f.grains code

/-- A sum that vanishes is negative only if both operands are. -/
def add : Binary f → Binary f → Binary f
  | .signed m a, .signed n b =>
    if a = f.infinity then
      if b = f.infinity ∧ m ≠ n then .nan else .signed m a
    else if b = f.infinity then .signed n b
    else
      let sum := signedGrains f m a + signedGrains f n b
      ofGrains (if sum = 0 then m && n else decide (sum < 0)) sum.natAbs 1
  | _, _ => .nan

def sub (x y : Binary f) : Binary f := x.add y.neg

def mul : Binary f → Binary f → Binary f
  | .signed m a, .signed n b =>
    if a = f.infinity ∨ b = f.infinity then
      if a = 0 ∨ b = 0 then .nan else infinite (m ^^ n)
    else ofGrains (m ^^ n) (f.grains a * f.grains b) (Nat.pow 2 f.places)
  | _, _ => .nan

def div : Binary f → Binary f → Binary f
  | .signed m a, .signed n b =>
    if a = f.infinity then
      if b = f.infinity then .nan else infinite (m ^^ n)
    else if b = f.infinity then ofCode (m ^^ n) 0
    else if b = 0 then
      if a = 0 then .nan else infinite (m ^^ n)
    else ofGrains (m ^^ n) (f.grains a * Nat.pow 2 f.places) (f.grains b)
  | _, _ => .nan

end LoweringCheck.Binary
