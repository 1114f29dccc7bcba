import LoweringCheck.Model.Basic
/-!
# Case parameters

The inputs of a case: their names, their shapes with the batch extents, and one element type for all.
-/
namespace LoweringCheck

/-- An input as it is fed. -/
structure InputSpec where
  name : String
  shape : List Nat
  dtype : DType
deriving DecidableEq, Repr

/-- The label of a case that gives none of its own. -/
def defaultLabel (names : List String) (shapes : List (List Nat)) (dtype : DType) : String :=
  Text.record "CaseParams"
    [("names", Text.quotedList names), ("shapes", Text.listing (shapes.map Text.naturals)),
      ("dtype", dtype.tag)]

/-- What a case says of its inputs. Type, label and the inputs as they are fed may be left to defaults. -/
structure CaseParams where
  names : List String
  shapes : List (List Nat)
  dtype : DType := .f32
  label : String := defaultLabel names shapes dtype
  specs : List InputSpec := names.zipWith (⟨·, ·, dtype⟩) shapes
deriving DecidableEq, Repr

/-- Why parameters are refused. -/
inductive ParamsFault where
  | noShape
  | nameCount (names shapes : Nat)
  | emptyShape (input : String) (shape : List Nat)
  | notFloat (dtype : DType)
  | inputCount (names : Nat) (model : String) (inputs : Nat)
  | unfit (shape : List Nat) (input : String) (declared : List Nat)
deriving DecidableEq, Repr

def ParamsFault.message : ParamsFault → String
  | noShape => "at least one input shape is required"
  | nameCount names shapes => s!"{names} input names for {shapes} input shapes"
  | emptyShape input shape =>
    let axes := Text.naturals shape
    s!"input '{input}' needs a non-empty shape of positive dimensions, got {axes}"
  | notFloat dtype => "input type " ++ dtype.name ++ " is not a floating point type"
  | inputCount names model inputs =>
    s!"{names} input names given, model '{model}' has {inputs} inputs"
  | unfit shape input declared =>
    let given := Text.naturals shape
    let own := Text.naturals declared
    s!"shape {given} does not fit input '{input}' of shape (batch, {own})"

namespace CaseParams

/-- The inputs are fed as names, shapes and type zipped together. This is asked of every case. -/
def Zipped (p : CaseParams) : Prop := p.specs = p.names.zipWith (⟨·, ·, p.dtype⟩) p.shapes

/-- The first fault of the parameters by themselves. -/
def fault? (p : CaseParams) : Option ParamsFault :=
  if p.shapes.isEmpty then some .noShape
  else if p.names.length ≠ p.shapes.length then
    some (.nameCount p.names.length p.shapes.length)
  else
    match (p.names.zip p.shapes).find? fun (_, shape) => shape.isEmpty || shape.contains 0 with
    | some (name, shape) => some (.emptyShape name shape)
    | none => if p.dtype.isFloat then none else some (.notFloat p.dtype)

def check (p : CaseParams) : Except ParamsFault Unit :=
  match p.fault? with
  | some fault => .error fault
  | none => .ok ()

/-- Whether the parameters describe the inputs of a model. -/
def checkAgainst (p : CaseParams) (m : Model) : Except ParamsFault Unit :=
  if p.names.length ≠ m.inputs.length then
    .error (.inputCount p.names.length m.name m.inputs.length)
  else
    match (p.shapes.zip m.inputs).find? fun (shape, x) => !Model.fits x.shape shape with
    | some (shape, x) => .error (.unfit shape x.name x.shape)
    | none => .ok ()

end CaseParams
end LoweringCheck
