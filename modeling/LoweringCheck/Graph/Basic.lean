import LoweringCheck.Binary.Basic
import LoweringCheck.Dictionary
import LoweringCheck.DType
/-!
# Operator graphs

A graph lists operator nodes, which name the tensors they read and write, and edges from the writer of
a tensor to its readers. The terminals are the tensors that enter and leave; extent 0 stands for any.
-/
namespace LoweringCheck

inductive Attribute where
  | int (i : Int64)
  | float (x : Binary .double)
  | text (s : String)
  | ints (is : List Int64)
  | floats (xs : List (Binary .double))
deriving DecidableEq, Repr

abbrev Attributes := Dictionary Attribute

structure Node where
  id : Nat
  op : String
  name : Option String
  inputs : List String
  outputs : List String
  attributes : Attributes
deriving DecidableEq

structure Edge where
  source : Nat
  target : Nat
  tensor : String
deriving DecidableEq, Repr

structure Terminal where
  name : String
  shape : List Nat
  dtype : DType
deriving DecidableEq, Repr

/-- Whether a tensor that passes here may have a shape. -/
def Terminal.accepts (x : Terminal) (shape : List Nat) : Bool :=
  x.shape.length == shape.length &&
    (x.shape.zip shape).all fun (declared, extent) => declared == 0 || declared == extent

structure Graph where
  nodes : List Node
  edges : List Edge
  inputs : List Terminal
  outputs : List Terminal
  metadata : Dictionary String
deriving DecidableEq

namespace Graph

/-- What is wrong with a graph. -/
inductive Fault where
  | missingEndpoint
  | duplicateProducer (tensor : String)
  | displacedNode (position id : Nat)
  | missingSource (id : Nat)
  | missingTarget (id : Nat)
  | cyclic
  | unknownInput (node tensor : String)
  | unproducedOutput (tensor : String)
deriving DecidableEq, Repr

def Fault.message : Fault → String
  | missingEndpoint => "Edge references non-existent nodes"
  | duplicateProducer tensor => s!"Tensor '{tensor}' is produced more than once"
  | displacedNode position id => s!"Node at position {position} carries id {id}"
  | missingSource id => s!"Edge references non-existent from_node: {id}"
  | missingTarget id => s!"Edge references non-existent to_node: {id}"
  | cyclic => "Graph contains cycles"
  | unknownInput node tensor => s!"Node '{node}' consumes unknown tensor '{tensor}'"
  | unproducedOutput tensor => s!"Graph output '{tensor}' is not produced by any node"

def empty : Graph := ⟨[], [], [], [], .empty⟩

def size (g : Graph) : Nat := g.nodes.length

def node? (g : Graph) (id : Nat) : Option Node := g.nodes[id]?

/-- Adds a node under the next free number. -/
def addNode (g : Graph) (n : Node) : Graph :=
  { g with nodes := g.nodes ++ [{ n with id := g.size }] }

def addEdge (g : Graph) (e : Edge) : Except Fault Graph :=
  if e.source < g.size ∧ e.target < g.size then .ok { g with edges := g.edges ++ [e] }
  else .error .missingEndpoint

def nodesOf (g : Graph) (op : String) : List Nat :=
  (g.nodes.filter (·.op == op)).map (·.id)

def edgesInto (g : Graph) (id : Nat) : List Edge := g.edges.filter (·.target == id)
def edgesFrom (g : Graph) (id : Nat) : List Edge := g.edges.filter (·.source == id)

/-- How many nodes there are of each operator. -/
def opCounts (g : Graph) : Dictionary Nat :=
  g.nodes.foldl (fun d n => d.insert n.op ((d.get? n.op).getD 0 + 1)) .empty

end Graph
end LoweringCheck
