import LoweringCheck.Graph.Schedule
import LoweringCheck.Text.Quoted
/-!
# Structural references

What a converted graph has to look like: its operators in execution order and, unless none are given,
the declared shapes of its outputs.
-/
namespace LoweringCheck

structure Reference where
  ops : List String
  outputShapes : List (List Nat) := []
deriving DecidableEq, Repr

/-- The first divergence of a graph from its reference. -/
inductive ReferenceFault where
  | schedule (fault : Graph.ScheduleFault)
  | op (position : Nat) (expected found : String)
  | opCount (expected found : List String)
  | outputCount (expected found : Nat)
  | outputShape (index : Nat) (expected found : List Nat)
deriving DecidableEq, Repr

def ReferenceFault.message : ReferenceFault → String
  | schedule fault => fault.message
  | op position expected found => s!"node {position}: expected {expected}, found {found}"
  | opCount expected found =>
    let few := expected.length
    let many := found.length
    let own := Text.quotedList expected
    let other := Text.quotedList found
    s!"expected {few} nodes ({own}), found {many} ({other})"
  | outputCount expected found => s!"expected {expected} outputs, found {found}"
  | outputShape index expected found =>
    let own := Text.naturals expected
    let other := Text.naturals found
    s!"output {index}: expected shape {own}, found {other}"

namespace Reference

/-- The first position at which two lists differ, with both items there. Items beyond the shorter list
are left out. -/
def firstDifference {α : Type} [DecidableEq α] :
    (position : Nat) → List α → List α → Option (Nat × α × α)
  | position, x :: xs, y :: ys =>
    if x = y then firstDifference (position + 1) xs ys else some (position, x, y)
  | _, _, _ => none

def checkOps (expected found : List String) : Except ReferenceFault Unit :=
  match firstDifference 0 expected found with
  | some (position, x, y) => .error (.op position x y)
  | none => if expected.length = found.length then .ok () else .error (.opCount expected found)

def checkOutputs (expected found : List (List Nat)) : Except ReferenceFault Unit :=
  if expected.isEmpty then .ok ()
  else if expected.length = found.length then
    match firstDifference 0 expected found with
    | some (index, x, y) => .error (.outputShape index x y)
    | none => .ok ()
  else .error (.outputCount expected.length found.length)

def check (r : Reference) (g : Graph) : Except ReferenceFault Unit :=
  match g.opSequence with
  | .error fault => .error (.schedule fault)
  | .ok ops =>
    match checkOps r.ops ops with
    | .error fault => .error fault
    | .ok () => checkOutputs r.outputShapes (g.outputs.map (·.shape))

end Reference
end LoweringCheck
