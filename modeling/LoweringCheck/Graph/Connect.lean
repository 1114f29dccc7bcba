import LoweringCheck.Graph.Basic
/-!
# Edges from tensor names

A graph is connected by drawing an edge to every node input from the node that writes that tensor.
-/
namespace LoweringCheck.Graph

/-- The tensors that nodes write, each with its writer. -/
def productions (g : Graph) : List (String × Nat) :=
  g.nodes.flatMap fun n => n.outputs.map (·, n.id)

/-- The first name that has already occurred in the list or among the given names. -/
def firstRepeat (seen : List String) : List String → Option String
  | [] => none
  | name :: rest => if seen.contains name then some name else firstRepeat (name :: seen) rest

/-- The edges into each node, in the order of the nodes and of their inputs. -/
def drawnEdges (g : Graph) : List Edge :=
  g.nodes.flatMap fun n => n.inputs.filterMap fun tensor =>
    (g.productions.lookup tensor).map (⟨·, n.id, tensor⟩)

/-- Replaces the edges, unless a tensor has two writers. -/
def connect (g : Graph) : Except Fault Unit × Graph :=
  match firstRepeat [] (g.productions.map (·.1)) with
  | some tensor => (.error (.duplicateProducer tensor), g)
  | none => (.ok (), { g with edges := g.drawnEdges })

end LoweringCheck.Graph
