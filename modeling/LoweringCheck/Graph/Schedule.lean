import LoweringCheck.Graph.Basic
/-!
# Execution orders

Nodes are scheduled first come, first served: a node joins the queue once every edge into it has been
released by a node that left the queue. What a node waits for is counted in 32 bits, and a count that
leaves them ends the program.
-/
namespace LoweringCheck.Graph

inductive ScheduleFault where
  | cyclic
  /-- an edge ends at no node -/
  | outOfBounds
  /-- a count leaves 32 bits -/
  | overflow
deriving DecidableEq, Repr

def ScheduleFault.message : ScheduleFault → String
  | cyclic => "Graph contains cycles - cannot perform topological sort"
  | outOfBounds => "index out of bounds"
  | overflow => "arithmetic overflow"

/-- A schedule in the making: how many edges each node still waits for, the queue, and the nodes that
have left it, the last one first. -/
structure Agenda where
  waiting : List Int32
  queue : List Nat
  left : List Nat
deriving DecidableEq, Repr

namespace Agenda

/-- Counts an edge into a node. -/
def count (waiting : List Int32) (e : Edge) : Except ScheduleFault (List Int32) :=
  match waiting[e.target]? with
  | none => .error .outOfBounds
  | some n =>
    if n = Int32.maxValue then .error .overflow else .ok (waiting.set e.target (n + 1))

/-- Releases one edge into a node. A node that waits for no more joins the queue. -/
def release (a : Agenda) (target : Nat) : Except ScheduleFault Agenda :=
  match a.waiting[target]? with
  | none => .error .outOfBounds
  | some n =>
    if n = Int32.minValue then .error .overflow
    else
      .ok { a with
        waiting := a.waiting.set target (n - 1)
        queue := if n - 1 = 0 then a.queue ++ [target] else a.queue }

def releaseAll (a : Agenda) : List Nat → Except ScheduleFault Agenda
  | [] => .ok a
  | target :: rest => (a.release target).bind (·.releaseAll rest)

/-- Lets the given number of nodes leave the queue, or all if there are fewer. -/
def run (g : Graph) : Nat → Agenda → Except ScheduleFault Agenda
  | 0, a => .ok a
  | rounds + 1, a =>
    match a.queue with
    | [] => .ok a
    | id :: queue =>
      ({ a with queue := queue, left := id :: a.left }.releaseAll
        ((g.edgesFrom id).map Edge.target)).bind (run g rounds)

end Agenda

/-- At first every node waits for the edges into it, and those without edges are in the queue. -/
def agenda (g : Graph) : Except ScheduleFault Agenda :=
  match g.edges.foldlM Agenda.count (List.replicate g.size 0) with
  | .error fault => .error fault
  | .ok waiting =>
    .ok {
      waiting := waiting
      queue := (List.range g.size).filter fun id => waiting[id]? == some 0
      left := [] }

/-- The nodes in the order in which they leave the queue. No node leaves twice, so as many rounds as
there are nodes suffice. -/
def schedule (g : Graph) : Except ScheduleFault (List Nat) :=
  match g.agenda.bind (Agenda.run g g.size) with
  | .error fault => .error fault
  | .ok a => if a.left.length = g.size then .ok a.left.reverse else .error .cyclic

/-- The operators in execution order. -/
def opSequence (g : Graph) : Except ScheduleFault (List String) :=
  match g.schedule with
  | .ok order => .ok (order.filterMap fun id => (g.node? id).map (·.op))
  | .error fault => .error fault

end LoweringCheck.Graph
