import LoweringCheck.Conversion.Error
import LoweringCheck.Graph.Connect
import LoweringCheck.Model.Basic
import LoweringCheck.Operator.Standard
/-!
# Lowering

A model is lowered to a graph with one slice node for each cropping layer. What a layer takes off the
end of an axis becomes a bound that counts from the end, so a node does not depend on extents. Batch
extents are passed on from the inputs; 0 stands for any.
-/
namespace LoweringCheck

/-- The tool that artifacts are attributed to. -/
def producerName : String := "convcheck-ir"

structure ConversionOptions where
  version : Version := .latest
  /-- input shapes with their batch extents -/
  inputShapes : Option (List (List Nat)) := none

namespace Lowering

/-- Attribute integers have 64 bits; larger numbers wrap around. -/
def startOf (m : Margin) : Int64 := Int64.ofNat m.before

/-- The bound that leaves a margin at the end of an axis. -/
def stopOf (m : Margin) : Int64 := if m.after = 0 then Int64.maxValue else -Int64.ofNat m.after

def sliceAttributes (margins : List Margin) (format : DataFormat) : Attributes :=
  .ofList [("starts", .ints (margins.map startOf)), ("ends", .ints (margins.map stopOf)),
    ("axes", .ints ((format.spatialAxes margins.length).map Int64.ofNat))]

/-- The node of a layer. -/
def lowerLayer (id : Nat) (layer : Layer) : Except ConversionError Node :=
  match layer.spec with
  | .cropping margins format =>
    .ok { id := id
          op := Slice.name
          name := some layer.name
          inputs := [layer.input]
          outputs := [layer.output]
          attributes := sliceAttributes margins format }
  | .lambda _ => .error (.unsupportedLayer layer.name layer.spec.kind)

/-- Accepts a node whose operator exists and takes its attributes. -/
def checkNode (ops : OperatorSet) (n : Node) : Except ConversionError Unit :=
  match ops.find n.op with
  | .error e => .error (.operator e)
  | .ok op =>
    match op.check n.attributes with
    | .error e => .error (.operator e)
    | .ok () => .ok ()

/-- The nodes of layers, numbered from `id` on. -/
def lowerLayers (ops : OperatorSet) (id : Nat) : List Layer → Except ConversionError (List Node)
  | [] => .ok []
  | layer :: rest =>
    match lowerLayer id layer with
    | .error e => .error e
    | .ok n =>
      match checkNode ops n with
      | .error e => .error e
      | .ok () =>
        match lowerLayers ops (id + 1) rest with
        | .ok ns => .ok (n :: ns)
        | .error e => .error e

/-- The shapes of the inputs with their batch extents. -/
def inputShapes (m : Model) (options : ConversionOptions) :
    Except ConversionError (List (List Nat)) :=
  match options.inputShapes with
  | none => .ok (m.inputs.map fun x => 0 :: x.shape)
  | some shapes =>
    if shapes.length = m.inputs.length then
      match (m.inputs.zip shapes).find? fun (x, shape) => !Model.fits x.shape shape with
      | some (x, shape) => .error (.inputShape (.override x.name x.shape shape))
      | none => .ok shapes
    else .error (.inputShape (.count m.name m.inputs.length shapes.length))

/-- The batch extents of tensors, the latest first. -/
abbrev Batches := List (String × Nat)

def Batches.of (batches : Batches) (tensor : String) : Nat := (batches.lookup tensor).getD 0

def inputBatches (terminals : List Terminal) : Batches :=
  (terminals.map fun p => (p.name, p.shape.headD 0)).reverse

/-- A layer passes the batch extent of its input on to its output. -/
def layerBatches (batches : Batches) (layers : List Layer) : Batches :=
  layers.foldl (fun batches layer => (layer.output, batches.of layer.input) :: batches) batches

def inputTerminal (x : Symbolic) (shape : List Nat) : Terminal := ⟨x.name, shape, x.dtype⟩

def outputTerminal (batches : Batches) (x : Symbolic) : Terminal :=
  ⟨x.name, batches.of x.name :: x.shape, x.dtype⟩

def metadata (m : Model) (options : ConversionOptions) : Dictionary String :=
  .ofList [("producer", producerName), ("source_model", m.name),
    ("ir_version", toString options.version.number)]

/-- The graph of a model before it is connected. -/
def unconnected (m : Model) (options : ConversionOptions) (shapes : List (List Nat))
    (nodes : List Node) : Graph :=
  let inputs := m.inputs.zipWith inputTerminal shapes
  { nodes := nodes
    edges := []
    inputs := inputs
    outputs := m.outputs.map (outputTerminal (layerBatches (inputBatches inputs) m.layers))
    metadata := metadata m options }

end Lowering

open Lowering in
/-- Lowers a model to a valid graph. -/
def Model.lower (m : Model) (ops : OperatorSet) (options : ConversionOptions) :
    Except ConversionError Graph :=
  match inputShapes m options with
  | .error e => .error e
  | .ok shapes =>
    match lowerLayers ops 0 m.layers with
    | .error e => .error e
    | .ok nodes =>
      match (unconnected m options shapes nodes).connect with
      | (.error fault, _) => .error (.invalidGraph fault)
      | (.ok (), g) =>
        match g.validate with
        | .error fault => .error (.invalidGraph fault)
        | .ok () => .ok g

end LoweringCheck
