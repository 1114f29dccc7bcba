import LoweringCheck.Operator.Basic
/-!
# The slice operator

A slice keeps a range of indices on each of some axes. Axes and bounds below zero count from the end;
bounds are clamped to the axis, so a range that would end before it starts is empty.
-/
namespace LoweringCheck.Slice

def name : String := "Slice"

/-- The indices to keep on one axis, as an attribute gives them. -/
structure Cut where
  axis : Int64
  start : Int64
  stop : Int64
deriving DecidableEq, Repr

/-- The integers of a list attribute, if there is one of that name. -/
def integers? (attributes : Attributes) (name : String) :
    Except OperatorError (Option (List Int64)) :=
  match attributes.get? name with
  | none => .ok none
  | some (.ints is) => .ok (some is)
  | some other => .error (.invalidAttribute name (.notIntegers other))

/-- The integers of a list attribute that has to be given. -/
def integers (attributes : Attributes) (name : String) : Except OperatorError (List Int64) :=
  match integers? attributes name with
  | .ok (some is) => .ok is
  | .ok none => .error (.invalidAttribute name (.absent Slice.name))
  | .error e => .error e

/-- The first axes, as many as there are bounds. -/
def defaultAxes (count : Nat) : List Int64 := (List.range count).map Int64.ofNat

/-- Steps may be given, but must all be 1. -/
def checkSteps (attributes : Attributes) (count : Nat) : Except OperatorError Unit :=
  match integers? attributes "steps" with
  | .error e => .error e
  | .ok none => .ok ()
  | .ok (some steps) =>
    if steps.length = count ∧ steps.all (· == 1) then .ok ()
    else .error (.invalidAttribute "steps" (.unevenSteps steps))

/-- Puts bounds and axes together, one of each for every cut. -/
def pair (starts stops axes : List Int64) : List Cut :=
  List.zipWith (fun axis (start, stop) => ⟨axis, start, stop⟩) axes (starts.zip stops)

/-- The cuts that attributes describe. -/
def cuts (attributes : Attributes) : Except OperatorError (List Cut) :=
  match integers attributes "starts" with
  | .error e => .error e
  | .ok starts =>
    match integers attributes "ends" with
    | .error e => .error e
    | .ok stops =>
      match integers? attributes "axes" with
      | .error e => .error e
      | .ok axes =>
        let axes := axes.getD (defaultAxes starts.length)
        if starts.length = stops.length ∧ starts.length = axes.length then
          match checkSteps attributes starts.length with
          | .error e => .error e
          | .ok () => .ok (pair starts stops axes)
        else
          .error (.invalidAttribute "starts/ends/axes"
            (.unequalLengths starts.length stops.length axes.length))

/-- An index on an axis of the given extent. -/
def resolve (index : Int64) (extent : Nat) : Nat :=
  let i := if index < 0 then index.toInt + extent else index.toInt
  min i.toNat extent

/-- The range that a cut keeps of a tensor of the given shape. -/
def Cut.range (cut : Cut) (shape : List Nat) : Except OperatorError Tensor.Range :=
  let axis := if cut.axis < 0 then cut.axis.toInt + shape.length else cut.axis.toInt
  match if axis < 0 then none else shape[axis.toNat]? with
  | none => .error (.invalidAttribute "axes" (.missingAxis axis shape.length))
  | some extent =>
    let start := resolve cut.start extent
    .ok ⟨axis.toNat, start, max (resolve cut.stop extent) start⟩

def ranges (shape : List Nat) : List Cut → Except OperatorError (List Tensor.Range)
  | [] => .ok []
  | cut :: rest =>
    match cut.range shape with
    | .error e => .error e
    | .ok range =>
      match ranges shape rest with
      | .ok rest => .ok (range :: rest)
      | .error e => .error e

def apply (cuts : List Cut) (t : Tensor) : Except OperatorError Tensor :=
  match ranges t.shape cuts with
  | .error e => .error e
  | .ok ranges =>
    match t.slice ranges with
    | .ok output => .ok output
    | .error fault => .error (.tensor fault)

def check (attributes : Attributes) : Except OperatorError Unit :=
  match cuts attributes with
  | .ok _ => .ok ()
  | .error e => .error e

def execute (inputs : List Tensor) (attributes : Attributes) :
    Except OperatorError (List Tensor) :=
  match inputs with
  | [t] =>
    match cuts attributes with
    | .error e => .error e
    | .ok cuts =>
      match apply cuts t with
      | .ok output => .ok [output]
      | .error e => .error e
  | _ => .error (.inputCount name inputs.length)

end LoweringCheck.Slice
