import LoweringCheck.Binary.Format
/-!
# Floating-point values

A value is one NaN or a sign and a magnitude code. Comparison reads the sign and the code as one
integer, the rank, in which both zeros are 0.
-/
namespace LoweringCheck

inductive Binary (f : Binary.Format) where
  | nan
  | signed (negative : Bool) (code : Fin (f.infinity + 1))
deriving DecidableEq, Repr

abbrev Single := Binary .single

namespace Binary
variable {f : Format}

/-- A magnitude by its code; codes beyond infinity are infinity. -/
def ofCode (negative : Bool) (code : Nat) : Binary f :=
  .signed negative ⟨min code f.infinity, by omega⟩

/-- The value nearest to `num / den` grains under the given sign. -/
def ofGrains (negative : Bool) (num den : Nat) : Binary f :=
  ofCode negative (f.nearest num den)

def zero : Binary f := ofCode false 0
def infinite (negative : Bool) : Binary f := ofCode negative f.infinity

def isNaN : Binary f → Bool
  | .nan => true
  | .signed .. => false

def isInfinite : Binary f → Bool
  | .nan => false
  | .signed _ code => code == f.infinity

/-- The place of a value in the order of the numbers; NaN has none. -/
def rank : Binary f → Option Int
  | .nan => none
  | .signed negative code => some (if negative then -(code : Int) else code)

/-- Comparison by rank. A comparison with NaN fails. -/
def compares (test : Int → Int → Bool) (x y : Binary f) : Bool :=
  match x.rank, y.rank with
  | some a, some b => test a b
  | _, _ => false

def equals (x y : Binary f) : Bool := compares (fun a b => decide (a = b)) x y
def less (x y : Binary f) : Bool := compares (fun a b => decide (a < b)) x y
def atMost (x y : Binary f) : Bool := compares (fun a b => decide (a ≤ b)) x y

def neg : Binary f → Binary f
  | .nan => .nan
  | .signed negative code => .signed (!negative) code

def abs : Binary f → Binary f
  | .nan => .nan
  | .signed _ code => .signed false code

/-- The larger number; NaN gives way to the other operand. -/
def max (x y : Binary f) : Binary f :=
  if x.isNaN then y else if y.isNaN then x else if x.less y then y else x

end Binary
end LoweringCheck
