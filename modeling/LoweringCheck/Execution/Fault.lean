import LoweringCheck.Graph.Schedule
import LoweringCheck.Operator.Basic
/-!
# Execution faults

The causes for which a graph does not run to its end.
-/
namespace LoweringCheck

inductive ExecutionFault where
  | inputCount (expected given : Nat)
  | shape (tensor : String) (given declared : List Nat)
  | schedule (fault : Graph.ScheduleFault)
  | missingNode (id : Nat)
  | unsupported (e : OperatorError)
  | unavailable (tensor : String)
  | nodeFailed (op : String) (node : Option String) (e : OperatorError)
  | outputCount (op : String) (produced declared : Nat)
  | neverProduced (output : String)
  /-- raised by a provider that the library was given -/
  | foreign (message : String) (causes : List String)
deriving DecidableEq, Repr

namespace ExecutionFault

def message : ExecutionFault → String
  | inputCount expected given => s!"Graph expects {expected} inputs, got {given}"
  | shape tensor given declared =>
    let own := Text.naturals given
    let other := Text.naturals declared
    s!"Tensor '{tensor}' has shape {own}, graph declares {other}"
  | schedule fault => fault.message
  | missingNode id => s!"Node {id} missing from graph"
  | unsupported e => e.message
  | unavailable tensor => s!"Tensor '{tensor}' is not available"
  | nodeFailed op node _ =>
    let name := Text.optional Text.quoted node
    s!"{op} node {name} failed"
  | outputCount op produced declared =>
    s!"{op} produced {produced} outputs, node declares {declared}"
  | neverProduced output => s!"Graph output '{output}' was never produced"
  | foreign message _ => message

/-- The message and those of its causes, outermost first. -/
def chain : ExecutionFault → List String
  | unsupported e => e.chain
  | nodeFailed op node e => (nodeFailed op node e).message :: e.chain
  | foreign message causes => message :: causes
  | fault => [fault.message]

end ExecutionFault
end LoweringCheck
