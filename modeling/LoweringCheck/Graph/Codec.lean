import LoweringCheck.Graph.Basic
import LoweringCheck.Json.Value
/-!
# Graphs as JSON

Records are written as objects with their parts in a fixed order. They are read from objects, in any
order and with unknown names skipped, or from lists of their parts.
-/
namespace LoweringCheck
open Json (Reader)

/-- The largest extent, number or index that a file may hold. -/
def naturalLimit : Nat := 18446744073709551615

namespace Json.Reader

def size : Reader Nat := natural naturalLimit

def int64 : Reader Int64 :=
  (integer (-9223372036854775808) 9223372036854775807).map Int64.ofInt

/-- A dictionary from the members of an object. -/
def dictionary {α : Type} (value : Reader α) : Reader (Dictionary α)
  | n, .openBrace :: rest =>
    enter (fun n => members (fun name d => afterColon (value.map (d.insert name)) n) .empty) n rest
  | _, ts => .error (unexpected ts)

/-- A part that fills one place of a draft. -/
def part {α σ : Type} (name : String) (get : σ → Option α) (set : σ → α → σ) (r : Reader α) :
    Field σ where
  name := name
  filled s := (get s).isSome
  read s := r.map (set s)

end Json.Reader

def Json.ofDictionary {α : Type} (value : α → Json) (d : Dictionary α) : Json :=
  .object (d.entries.map fun e => (e.1, value e.2))

def DType.read : Reader DType := Reader.choice (DType.all.map fun t => (t.code, t))

namespace Attribute

inductive Kind where
  | int
  | float
  | text
  | ints
  | floats
deriving DecidableEq, Repr

def Kind.names : List (String × Kind) :=
  [("int", .int), ("float", .float), ("string", .text), ("int_array", .ints),
    ("float_array", .floats)]

/-- The value of an attribute whose kind is known. -/
def Kind.read : Kind → Reader Attribute
  | .int => Reader.int64.map .int
  | .float => (Reader.real .double).map .float
  | .text => Reader.text.map .text
  | .ints => (Reader.list Reader.int64).map .ints
  | .floats => (Reader.list (Reader.real .double)).map .floats

/-- An attribute that is being read. A value that comes before its kind is kept as JSON. -/
inductive Draft where
  | empty
  | kind (k : Kind)
  | value (x : Json)
  | complete (a : Attribute)

private def readType (name : Reader Kind) : Draft → Reader Draft
  | .empty => name.map .kind
  | .value x => (name.filterMap fun k => x.as? k.read).map .complete
  | _ => fun _ _ => .error .mistyped

private def readValue : Draft → Reader Draft
  | .empty => Json.read.map .value
  | .kind k => k.read.map .complete
  | _ => fun _ _ => .error .mistyped

/-- The two parts of an attribute; each may be read once. In a list the kind is a name alone. -/
private def parts : List (Reader.Field Draft) :=
  [{ name := "type"
     filled := fun
       | .kind _ | .complete _ => true
       | _ => false
     read := readType (Reader.choice Kind.names)
     readItem := readType (Reader.bareChoice Kind.names) },
   { name := "value"
     filled := fun
       | .value _ | .complete _ => true
       | _ => false
     read := readValue }]

def read : Reader Attribute :=
  (Reader.record parts false Draft.empty).filterMap fun
    | .complete a => some a
    | _ => none

def toJson : Attribute → Json
  | int i => tagged "int" (.integer i.toInt)
  | float x => tagged "float" (.number (.real .double x))
  | text s => tagged "string" (.text s)
  | ints is => tagged "int_array" (.array (is.map fun i => .integer i.toInt))
  | floats xs => tagged "float_array" (.array (xs.map fun x => .number (.real .double x)))
where
  tagged (kind : String) (value : Json) : Json := .object [("type", .text kind), ("value", value)]

end Attribute

def Json.ofOptional : Option String → Json
  | some s => .text s
  | none => .null

def Json.ofTexts (xs : List String) : Json := .array (xs.map .text)
def Json.ofNaturals (xs : List Nat) : Json := .array (xs.map .natural)

namespace Node

private structure Draft where
  id : Option Nat := none
  op : Option String := none
  name : Option (Option String) := none
  inputs : Option (List String) := none
  outputs : Option (List String) := none
  attributes : Option Attributes := none

open Json.Reader in
def read : Reader Node :=
  (record (σ := Draft)
    [part "id" (·.id) (fun d x => { d with id := some x }) size,
     part "op_type" (·.op) (fun d x => { d with op := some x }) text,
     part "name" (·.name) (fun d x => { d with name := some x }) (optional text),
     part "inputs" (·.inputs) (fun d x => { d with inputs := some x }) (list text),
     part "outputs" (·.outputs) (fun d x => { d with outputs := some x }) (list text),
     part "attributes" (·.attributes) (fun d x => { d with attributes := some x })
       (dictionary Attribute.read)] false {}).filterMap fun d => do
    return ⟨← d.id, ← d.op, d.name.getD none, ← d.inputs, ← d.outputs, ← d.attributes⟩

def toJson (n : Node) : Json :=
  .object [("id", .natural n.id), ("op_type", .text n.op),
    ("name", .ofOptional n.name), ("inputs", .ofTexts n.inputs), ("outputs", .ofTexts n.outputs),
    ("attributes", .ofDictionary Attribute.toJson n.attributes)]

end Node

namespace Edge

private structure Draft where
  source : Option Nat := none
  target : Option Nat := none
  tensor : Option String := none

open Json.Reader in
def read : Reader Edge :=
  (record (σ := Draft)
    [part "from_node" (·.source) (fun d x => { d with source := some x }) size,
     part "to_node" (·.target) (fun d x => { d with target := some x }) size,
     part "tensor_name" (·.tensor) (fun d x => { d with tensor := some x }) text]
    false {}).filterMap fun d => do return ⟨← d.source, ← d.target, ← d.tensor⟩

def toJson (e : Edge) : Json :=
  .object [("from_node", .natural e.source), ("to_node", .natural e.target),
    ("tensor_name", .text e.tensor)]

end Edge

namespace Terminal

private structure Draft where
  name : Option String := none
  shape : Option (List Nat) := none
  dtype : Option DType := none

open Json.Reader in
def read : Reader Terminal :=
  (record (σ := Draft)
    [part "name" (·.name) (fun d x => { d with name := some x }) text,
     part "shape" (·.shape) (fun d x => { d with shape := some x }) (list size),
     part "data_type" (·.dtype) (fun d x => { d with dtype := some x }) DType.read]
    false {}).filterMap fun d => do return ⟨← d.name, ← d.shape, ← d.dtype⟩

def toJson (p : Terminal) : Json :=
  .object [("name", .text p.name), ("shape", .ofNaturals p.shape),
    ("data_type", .text p.dtype.code)]

end Terminal

namespace Graph

private structure Draft where
  nodes : Option (List Node) := none
  edges : Option (List Edge) := none
  inputs : Option (List Terminal) := none
  outputs : Option (List Terminal) := none
  metadata : Option (Dictionary String) := none

open Json.Reader in
def read : Reader Graph :=
  (record (σ := Draft)
    [part "nodes" (·.nodes) (fun d x => { d with nodes := some x }) (list Node.read),
     part "edges" (·.edges) (fun d x => { d with edges := some x }) (list Edge.read),
     part "inputs" (·.inputs) (fun d x => { d with inputs := some x }) (list Terminal.read),
     part "outputs" (·.outputs) (fun d x => { d with outputs := some x }) (list Terminal.read),
     part "metadata" (·.metadata) (fun d x => { d with metadata := some x }) (dictionary text)]
    false {}).filterMap fun d => do
      return ⟨← d.nodes, ← d.edges, ← d.inputs, ← d.outputs, ← d.metadata⟩

def toJson (g : Graph) : Json :=
  .object [("nodes", .array (g.nodes.map Node.toJson)),
    ("edges", .array (g.edges.map Edge.toJson)),
    ("inputs", .array (g.inputs.map Terminal.toJson)),
    ("outputs", .array (g.outputs.map Terminal.toJson)),
    ("metadata", .ofDictionary .text g.metadata)]

end Graph
end LoweringCheck
