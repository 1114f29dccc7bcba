import LoweringCheck.Comparison.Values
import LoweringCheck.Decimal.Layout
import LoweringCheck.Tensor.Basic
/-!
# Comparing outputs

The outputs of two runs are compared in order. The first one that differs is reported with the place
and the values of its worst pair.
-/
namespace LoweringCheck

/-- Where and how far an output is off. -/
structure MismatchReport where
  index : Nat
  name : String
  coordinate : List Nat
  expected : Single
  actual : Single
  difference : Difference
  total : Nat
  tolerance : Tolerance
deriving DecidableEq, Repr

def MismatchReport.message (r : MismatchReport) : String :=
  let write (x : Single) : String := String.ofList (Decimal.Layout.message.render x)
  let atol := write r.tolerance.absolute
  let rtol := write r.tolerance.relative
  let place := Text.naturals r.coordinate
  let expected := write r.expected
  let actual := write r.actual
  let maxAbs := write r.difference.maxAbsolute
  let maxRel := write r.difference.maxRelative
  let index := r.index
  let name := r.name
  let rejected := r.difference.rejected
  let total := r.total
  s!"output {index} ('{name}'): {rejected} of {total} elements outside atol={atol} rtol={rtol}; " ++
    s!"worst offender at {place}: expected {expected}, got {actual} " ++
    s!"(max abs {maxAbs}, max rel {maxRel})"

inductive ComparisonFault where
  | outputCount (expected actual : Nat)
  | shape (index : Nat) (name : String) (expected actual : List Nat)
  | values (report : MismatchReport)
deriving DecidableEq, Repr

def ComparisonFault.message : ComparisonFault → String
  | outputCount expected actual =>
    s!"Shape mismatch: native model produced {expected} outputs, converted model {actual}"
  | shape index name expected actual =>
    let own := Text.naturals expected
    let other := Text.naturals actual
    s!"Shape mismatch: output {index} ('{name}'): native shape {own}, converted shape {other}"
  | values report => "Output mismatch: " ++ report.message

/-- What a comparison without fault has looked at. -/
structure Agreement where
  outputs : Nat
  elements : Nat
  maxAbsolute : Single
deriving DecidableEq, Repr

/-- Compares one output. -/
def compareOutput (t : Tolerance) (index : Nat) (name : String) (expected actual : Tensor) :
    Except ComparisonFault Difference :=
  if expected.shape = actual.shape then
    let difference := compareValues t expected.values.toList actual.values.toList
    if difference.rejected = 0 then .ok difference
    else
      .error (.values {
        index := index
        name := name
        coordinate := Shape.coordinate expected.shape difference.worst
        expected := expected.values.getD difference.worst .zero
        actual := actual.values.getD difference.worst .zero
        difference := difference
        total := expected.size
        tolerance := t })
  else .error (.shape index name expected.shape actual.shape)

/-- An output without a name of its own is named by its position. -/
def outputName (names : List String) (index : Nat) : String :=
  names.getD index s!"output_{index}"

/-- Compares outputs from position `index` on. -/
def compareFrom (t : Tolerance) (names : List String) :
    Nat → Agreement → List (Tensor × Tensor) → Except ComparisonFault Agreement
  | _, agreement, [] => .ok agreement
  | index, agreement, (expected, actual) :: rest =>
    match compareOutput t index (outputName names index) expected actual with
    | .error fault => .error fault
    | .ok difference =>
      compareFrom t names (index + 1)
        { agreement with
          elements := agreement.elements + expected.size
          maxAbsolute := agreement.maxAbsolute.max difference.maxAbsolute } rest

def compareOutputs (t : Tolerance) (names : List String) (expected actual : List Tensor) :
    Except ComparisonFault Agreement :=
  if expected.length = actual.length then
    compareFrom t names 0 ⟨expected.length, 0, .zero⟩ (expected.zip actual)
  else .error (.outputCount expected.length actual.length)

end LoweringCheck
