import LoweringCheck.Model.Error
/-!
# Layers

A layer crops its input or applies a function to it. What a cropping does is said twice: on declared
shapes, which leave out the batch axis, and on tensors.
-/
namespace LoweringCheck

inductive LayerSpec where
  | cropping (margins : List Margin) (format : DataFormat)
  | lambda (function : Tensor → Except Tensor.Fault Tensor)

namespace LayerSpec

/-- The kind of a layer; croppings of more than two axes are called three-dimensional. -/
def kind : LayerSpec → String
  | cropping margins _ =>
    match margins.length with
    | 1 => "Cropping1D"
    | 2 => "Cropping2D"
    | _ => "Cropping3D"
  | lambda _ => "Lambda"

def description : LayerSpec → String
  | cropping margins format =>
    Text.record (kind (cropping margins format))
      [("cropping", Text.listing (margins.map Margin.description)), ("data_format", format.tag)]
  | lambda _ => "Lambda \x7b .. \x7d"

/-- Crops a declared shape axis by axis; `axis` counts the spatial axes and `places` are their places in
the shape. -/
def cropShape (layer : String) : (axis : Nat) → List (Nat × Margin) → List Nat →
    Except ModelError (List Nat)
  | _, [], shape => .ok shape
  | axis, (place, margin) :: rest, shape =>
    let extent := shape.getD place 0
    if margin.exhausts extent then
      .error (.invalidCropping layer (.nothingLeft margin axis extent))
    else
      cropShape layer (axis + 1) rest (shape.set place (extent - margin.before - margin.after))

/-- The declared shape of the output. -/
def outputShape (spec : LayerSpec) (layer : String) (shape : List Nat) :
    Except ModelError (List Nat) :=
  match spec with
  | cropping margins format =>
    let rank := margins.length
    if shape.length = rank + 1 then
      cropShape layer 0 (((format.spatialAxes rank).map (· - 1)).zip margins) shape
    else .error (.shape (.layerRank spec.kind layer (rank + 1) shape))
  | lambda _ => .ok shape

/-- The ranges that a cropping keeps of a tensor of the given shape. -/
def keptRanges (layer : String) (shape : List Nat) :
    List (Nat × Margin) → Except ModelError (List Tensor.Range)
  | [] => .ok []
  | (axis, margin) :: rest =>
    match shape[axis]? with
    | none => .error (.shape (.missingAxis layer shape.length axis))
    | some extent =>
      if margin.exhausts extent then .error (.shape (.cannotCrop layer margin axis extent))
      else match keptRanges layer shape rest with
        | .ok ranges => .ok (⟨axis, margin.before, extent - margin.after⟩ :: ranges)
        | .error e => .error e

/-- Applies the layer to a tensor. A function may not change the shape. -/
def execute (spec : LayerSpec) (layer : String) (input : Tensor) : Except ModelError Tensor :=
  match spec with
  | cropping margins format =>
    match keptRanges layer input.shape ((format.spatialAxes margins.length).zip margins) with
    | .error e => .error e
    | .ok ranges =>
      match input.slice ranges with
      | .ok output => .ok output
      | .error fault => .error (.tensor fault)
  | lambda function =>
    match function input with
    | .error fault => .error (.tensor fault)
    | .ok output =>
      if output.shape = input.shape then .ok output
      else .error (.shape (.changed layer input.shape output.shape))

end LayerSpec

/-- A layer in place: its name, what it does, and the tensors it reads and writes. -/
structure Layer where
  name : String
  spec : LayerSpec
  input : String
  output : String

end LoweringCheck
