import LoweringCheck.Layer.Spec
import LoweringCheck.Text.Blank
/-!
# Sessions

A session records the symbolic tensors and the layers of models under construction. Layers read recorded
tensors only, so their order is an order of execution. A step that changes a session gives back the session
that it leaves, failed or not.
-/
namespace LoweringCheck

/-- A declared tensor. The shape leaves out the batch axis. -/
structure Symbolic where
  name : String
  shape : List Nat
  dtype : DType
deriving DecidableEq, Repr

/-- A recorded tensor with the position of the layer that produces it. -/
structure Record where
  tensor : Symbolic
  producer : Option Nat
deriving DecidableEq, Repr

structure Session where
  /-- how often a name was generated from each base, the latest count first -/
  counts : List (String × Nat)
  tensors : List Record
  layers : List Layer

namespace Session

def empty : Session := ⟨[], [], []⟩

/-- Forgets all tensors, layers and generated names. -/
def clear (_ : Session) : Session := empty

/-- A name generated from a base: the base itself at first, numbered from then on. -/
def uniqueName (s : Session) (base : String) : String × Session :=
  let count := (s.counts.lookup base).getD 0
  (if count = 0 then base else s!"{base}_{count}", { s with counts := (base, count + 1) :: s.counts })

def record? (s : Session) (name : String) : Option Record :=
  s.tensors.find? (·.tensor.name == name)

def tensor? (s : Session) (name : String) : Option Symbolic := (s.record? name).map (·.tensor)

/-- The position of the layer that produces a tensor, if it is no input. -/
def producerIndex (s : Session) (name : String) : Except ModelError (Option Nat) :=
  match s.record? name with
  | some r => .ok r.producer
  | none => .error (.unknownTensor name)

def producer (s : Session) (name : String) : Except ModelError (Option Layer) :=
  match s.producerIndex name with
  | .ok index => .ok (index.bind (s.layers[·]?))
  | .error e => .error e

/-- Accepts a tensor that is recorded as it is. -/
def checkKnown (s : Session) (x : Symbolic) : Except ModelError Unit :=
  match s.record? x.name with
  | some r => if r.tensor = x then .ok () else .error (.unknownTensor x.name)
  | none => .error (.unknownTensor x.name)

/-- Records a tensor under a name that no other has. -/
def addRecord (s : Session) (r : Record) : Except ModelError Unit × Session :=
  if (s.record? r.tensor.name).isSome then (.error (.duplicateName r.tensor.name), s)
  else (.ok (), { s with tensors := s.tensors ++ [r] })

/-- Declares an input. -/
def input (s : Session) (shape : List Nat) (dtype : DType) (name : String) :
    Except ModelError Symbolic × Session :=
  if shape.contains 0 then (.error (.shape (.zeroExtent name shape)), s)
  else
    let x : Symbolic := ⟨name, shape, dtype⟩
    match s.addRecord ⟨x, none⟩ with
    | (.error e, s) => (.error e, s)
    | (.ok (), s) => (.ok x, s)

def addLayer (s : Session) (layer : Layer) (output : Symbolic) : Except ModelError Unit × Session :=
  if s.layers.any (·.name == layer.name) then (.error (.duplicateName layer.name), s)
  else match s.addRecord ⟨output, some s.layers.length⟩ with
    | (.error e, s) => (.error e, s)
    | (.ok (), s) => (.ok (), { s with layers := s.layers ++ [layer] })

/-- Registers a layer on a recorded tensor. Its output is called after it. -/
def register (s : Session) (name : String) (spec : LayerSpec) (x : Symbolic) :
    Except ModelError Symbolic × Session :=
  match s.checkKnown x with
  | .error e => (.error e, s)
  | .ok () =>
    match spec.outputShape name x.shape with
    | .error e => (.error e, s)
    | .ok shape =>
      let output : Symbolic := ⟨name ++ ":0", shape, x.dtype⟩
      match s.addLayer ⟨name, spec, x.name, output.name⟩ output with
      | (.error e, s) => (.error e, s)
      | (.ok (), s) => (.ok output, s)

/-- The name asked for, or else one generated from a base. -/
def chooseName (s : Session) (name : Option String) (base : String) : String × Session :=
  match name with
  | some name => (name, s)
  | none => s.uniqueName base

end Session

/-- A cropping layer to be applied. -/
structure CroppingLayer (rank : Nat) where
  margins : Vector Margin rank
  format : DataFormat := .channelsLast
  name : Option String := none

namespace CroppingLayer
variable {rank : Nat}

def ofCropping (cropping : Cropping rank) : CroppingLayer rank := { margins := cropping.margins }

def spec (l : CroppingLayer rank) : LayerSpec := .cropping l.margins.toList l.format

/-- Applies the layer. A generated name is spent even if the layer is refused. -/
def apply (l : CroppingLayer rank) (s : Session) (x : Symbolic) :
    Except ModelError Symbolic × Session :=
  let (name, s) := s.chooseName l.name (Text.lower l.spec.kind)
  if rank = 1 ∧ l.format = .channelsFirst then (.error (.invalidCropping name .channelsFirst), s)
  else s.register name l.spec x

end CroppingLayer

/-- A layer that applies a function, to be applied. -/
structure LambdaLayer where
  function : Tensor → Except Tensor.Fault Tensor
  name : Option String := none

/-- Applies the layer. A generated name is spent even if the layer is refused. -/
def LambdaLayer.apply (l : LambdaLayer) (s : Session) (x : Symbolic) :
    Except ModelError Symbolic × Session :=
  let (name, s) := s.chooseName l.name "lambda"
  s.register name (.lambda l.function) x

end LoweringCheck
