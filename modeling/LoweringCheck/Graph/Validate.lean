import LoweringCheck.Graph.Basic
/-!
# Valid graphs

A valid graph numbers its nodes by position, has edges between its nodes only and no cycle, and every
tensor that is read or leaves is an input or written by some node. Cycles are found by a depth-first
search with three marks.
-/
namespace LoweringCheck.Graph

inductive Mark where
  | fresh
  | active
  | finished
deriving DecidableEq, Repr

/-- The marks of all nodes. -/
abbrev Marks := Nat → Mark

def Marks.set (marks : Marks) (id : Nat) (mark : Mark) : Marks :=
  fun other => if other = id then mark else marks other

/-- Visits a node and all that can be reached from it; `none` once an active node is met again. Every
level makes a fresh node active, so one level more than there are nodes is deep enough. -/
def visit (successors : Nat → List Nat) : Nat → Marks → Nat → Option Marks
  | 0, marks, _ => some marks
  | depth + 1, marks, id =>
    match marks id with
    | .active => none
    | .finished => some marks
    | .fresh =>
      ((successors id).foldlM (visit successors depth) (marks.set id .active)).map
        (·.set id .finished)

def hasCycle (g : Graph) : Bool :=
  ((List.range g.size).foldlM (visit (fun id => (g.edgesFrom id).map Edge.target) (g.size + 1))
    fun _ => Mark.fresh).isNone

def displaced? (g : Graph) : Option Fault :=
  g.nodes.zipIdx.findSome? fun (n, position) =>
    if n.id = position then none else some (.displacedNode position n.id)

def dangling? (g : Graph) : Option Fault :=
  g.edges.findSome? fun e =>
    if g.size ≤ e.source then some (.missingSource e.source)
    else if g.size ≤ e.target then some (.missingTarget e.target)
    else none

/-- Whether the tensor enters the graph or is written by some node. -/
def supplies (g : Graph) (tensor : String) : Bool :=
  g.inputs.any (·.name == tensor) || g.nodes.any (·.outputs.contains tensor)

def unsupplied? (g : Graph) : Option Fault :=
  (g.nodes.findSome? fun n => (n.inputs.find? fun tensor => !g.supplies tensor).map
    (.unknownInput (n.name.getD n.op))) <|>
  (g.outputs.find? fun terminal => !g.supplies terminal.name).map (.unproducedOutput ·.name)

/-- The first fault of a graph. -/
def fault? (g : Graph) : Option Fault :=
  g.displaced? <|> g.dangling? <|> (if g.hasCycle then some .cyclic else none) <|> g.unsupplied?

def validate (g : Graph) : Except Fault Unit :=
  match g.fault? with
  | some fault => .error fault
  | none => .ok ()

end LoweringCheck.Graph
