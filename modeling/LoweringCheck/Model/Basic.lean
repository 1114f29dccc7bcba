import LoweringCheck.Session
/-!
# Models

A model is cut out of a session between input and output tensors. It keeps exactly the layers on the
chains from its outputs back to its inputs, in the order of the session.
-/
namespace LoweringCheck

structure Model where
  name : String
  inputs : List Symbolic
  outputs : List Symbolic
  layers : List Layer

namespace Model

/-- The tensors seen and the layers found while outputs are traced back. -/
structure Trace where
  seen : List String
  found : List Nat
deriving DecidableEq, Repr

/-- Follows the chain of producing layers from a tensor back to an input or to a tensor already seen.
Every step sees another recorded tensor, so the chain is no longer than their list. -/
def follow (s : Session) (inputs : List String) : Nat → String → Trace → Except ModelError Trace
  | 0, _, trace => .ok trace
  | fuel + 1, name, trace =>
    if trace.seen.contains name then .ok trace
    else
      let seen := name :: trace.seen
      match s.producerIndex name with
      | .error e => .error e
      | .ok none =>
        if inputs.contains name then .ok { trace with seen := seen }
        else .error (.invalidModel (.missingInput name))
      | .ok (some index) =>
        match s.layers[index]? with
        | none => .ok { trace with seen := seen }
        | some layer => follow s inputs fuel layer.input ⟨seen, index :: trace.found⟩

/-- Traces tensors back one after the other. -/
def followAll (s : Session) (inputs : List String) :
    List String → Trace → Except ModelError Trace
  | [], trace => .ok trace
  | name :: rest, trace =>
    match follow s inputs (s.tensors.length + 1) name trace with
    | .error e => .error e
    | .ok trace => followAll s inputs rest trace

def checkAllKnown (s : Session) : List Symbolic → Except ModelError Unit
  | [] => .ok ()
  | x :: rest =>
    match s.checkKnown x with
    | .error e => .error e
    | .ok () => checkAllKnown s rest

/-- No input may be produced by a layer. -/
def checkInputs (s : Session) : List Symbolic → Except ModelError Unit
  | [] => .ok ()
  | x :: rest =>
    match s.producerIndex x.name with
    | .error e => .error e
    | .ok (some _) => .error (.invalidModel (.producedInput x.name))
    | .ok none => checkInputs s rest

/-- The layers between the tensors. The last output is traced back first. -/
def layersBetween (s : Session) (inputs outputs : List Symbolic) :
    Except ModelError (List Layer) :=
  match followAll s (inputs.map (·.name)) (outputs.map (·.name)).reverse ⟨[], []⟩ with
  | .error e => .error e
  | .ok trace =>
    .ok (((List.range s.layers.length).filter trace.found.contains).filterMap (s.layers[·]?))

/-- Cuts a model out of a session. The name of the model is generated last. -/
def assemble (s : Session) (inputs outputs : List Symbolic) :
    Except ModelError Model × Session :=
  if inputs.isEmpty || outputs.isEmpty then (.error (.invalidModel .incomplete), s)
  else match checkAllKnown s (inputs ++ outputs) with
    | .error e => (.error e, s)
    | .ok () =>
      match checkInputs s inputs with
      | .error e => (.error e, s)
      | .ok () =>
        match layersBetween s inputs outputs with
        | .error e => (.error e, s)
        | .ok layers =>
          let (name, s) := s.uniqueName "model"
          (.ok ⟨name, inputs, outputs, layers⟩, s)

/-- Whether a shape is a batch extent followed by the declared shape. -/
def fits (declared shape : List Nat) : Bool :=
  match shape with
  | _ :: rest => rest == declared
  | [] => false

end Model
end LoweringCheck
