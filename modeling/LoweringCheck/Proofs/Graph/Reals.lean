import LoweringCheck.Graph.Validate
import LoweringCheck.Proofs.Replacing
/-!
# Reals in graphs

The reals of a graph stand in its attributes. Whether the graph is valid does not depend on them.
-/
namespace LoweringCheck
variable {f : Binary .double → Option (Binary .double)} {x : Binary .double}

namespace Attribute

def reals : Attribute → List (Binary .double)
  | float x => [x]
  | floats xs => xs
  | _ => []

/-- The reals replaced, if all of them can be. -/
def mapReals? (f : Binary .double → Option (Binary .double)) : Attribute → Option Attribute
  | float x => (f x).map .float
  | floats xs => (xs.mapM f).map .floats
  | a => some a

theorem mapReals?_eq_self_iff {a : Attribute} :
    a.mapReals? f = some a ↔ ∀ x ∈ a.reals, f x = some x := by
  cases a with
  | float x => simp [mapReals?, reals]
  | floats xs => simp [mapReals?, reals, mapM_eq_self_iff]
  | _ => simp [mapReals?, reals]

private theorem mapReals?_eq_none {a : Attribute} (hx : x ∈ a.reals) (h : f x = none) :
    a.mapReals? f = none := by
  cases a with
  | float y =>
    obtain rfl := List.mem_singleton.mp hx
    rw [mapReals?, h, Option.map_none]
  | floats xs =>
    have hall : xs.mapM f = none := mapM_eq_none hx h
    rw [mapReals?, hall, Option.map_none]
  | _ => cases hx

end Attribute

namespace Node

def reals (n : Node) : List (Binary .double) := n.attributes.entries.flatMap fun e => e.2.reals

/-- The reals in the attributes replaced, if all of them can be. -/
def mapReals? (f : Binary .double → Option (Binary .double)) (n : Node) : Option Node :=
  (n.attributes.map? (Attribute.mapReals? f)).map fun attributes => { n with attributes }

theorem mapReals?_eq_self_iff {n : Node} :
    n.mapReals? f = some n ↔ ∀ x ∈ n.reals, f x = some x := by
  have hself : n.attributes.map? (Attribute.mapReals? f) = some n.attributes ↔
      ∀ e ∈ n.attributes.entries, ∀ x ∈ e.2.reals, f x = some x := by
    simp only [Dictionary.map?_eq_self_iff, Attribute.mapReals?_eq_self_iff]
  rw [reals, List.forall_mem_flatMap, ← hself, mapReals?]
  obtain ⟨id, op, name, inputs, outputs, attributes⟩ := n
  simp

private theorem mapReals?_eq_none {n : Node} (hx : x ∈ n.reals) (h : f x = none) :
    n.mapReals? f = none := by
  obtain ⟨e, he, hx⟩ := List.mem_flatMap.mp hx
  rw [mapReals?, Dictionary.map?_eq_none he (Attribute.mapReals?_eq_none hx h), Option.map_none]

/-- A node without its attributes. -/
def bare (n : Node) : Node := { n with attributes := .empty }

private theorem bare_of_mapReals? {n n' : Node} (h : n.mapReals? f = some n') : n'.bare = n.bare := by
  obtain ⟨attributes, -, rfl⟩ := Option.map_eq_some_iff.mp h
  rfl

end Node

namespace Graph
variable {g g' : Graph}

def reals (g : Graph) : List (Binary .double) := g.nodes.flatMap Node.reals

def mapReals? (f : Binary .double → Option (Binary .double)) (g : Graph) : Option Graph :=
  (g.nodes.mapM (Node.mapReals? f)).map fun nodes => { g with nodes }

theorem mapReals?_eq_self_iff : g.mapReals? f = some g ↔ ∀ x ∈ g.reals, f x = some x := by
  have hself : g.nodes.mapM (Node.mapReals? f) = some g.nodes ↔
      ∀ n ∈ g.nodes, ∀ x ∈ n.reals, f x = some x := by
    simp only [mapM_eq_self_iff, Node.mapReals?_eq_self_iff]
  rw [reals, List.forall_mem_flatMap, ← hself, mapReals?]
  obtain ⟨nodes, edges, inputs, outputs, metadata⟩ := g
  simp

theorem mapReals?_eq_none (hx : x ∈ g.reals) (h : f x = none) : g.mapReals? f = none := by
  obtain ⟨n, hn, hx⟩ := List.mem_flatMap.mp hx
  rw [mapReals?, mapM_eq_none hn (Node.mapReals?_eq_none hx h), Option.map_none]

/-- A graph without the attributes of its nodes. -/
def bare (g : Graph) : Graph := { g with nodes := g.nodes.map Node.bare }

private theorem bare_of_mapReals? (h : g.mapReals? f = some g') : g'.bare = g.bare := by
  obtain ⟨nodes, hnodes, rfl⟩ := Option.map_eq_some_iff.mp h
  simp only [bare, map_eq_of_mapM hnodes fun _ _ hn => Node.bare_of_mapReals? hn]

theorem validate_bare (g : Graph) : g.bare.validate = g.validate := by
  have hsize : g.bare.size = g.size := List.length_map _
  have hdisplaced : g.bare.displaced? = g.displaced? := by
    simp only [displaced?, bare, List.zipIdx_map, List.findSome?_map]
    rfl
  have hdangling : g.bare.dangling? = g.dangling? := by
    simp only [dangling?, hsize]
    rfl
  have hcycle : g.bare.hasCycle = g.hasCycle := by
    simp only [hasCycle, hsize]
    rfl
  have hsupplies : ∀ tensor, g.bare.supplies tensor = g.supplies tensor := by
    intro tensor
    simp only [supplies, bare, List.any_map]
    rfl
  have hunsupplied : g.bare.unsupplied? = g.unsupplied? := by
    simp only [unsupplied?, hsupplies]
    simp only [bare, List.findSome?_map]
    rfl
  simp only [validate, fault?, hdisplaced, hdangling, hcycle, hunsupplied]

theorem validate_of_mapReals? (h : g.mapReals? f = some g') : g'.validate = g.validate := by
  rw [← validate_bare g', bare_of_mapReals? h, validate_bare]

end Graph
end LoweringCheck
