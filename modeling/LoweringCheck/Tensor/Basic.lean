import LoweringCheck.Grid
import LoweringCheck.Tensor.Element
import LoweringCheck.Text.Quoted
/-!
# Tensors

A tensor is a grid of elements of one type. Its values enter and leave in single precision.
-/
namespace LoweringCheck

structure Tensor where
  dtype : DType
  grid : Grid dtype.Element

namespace Tensor

inductive Fault where
  | lengthMismatch (length : Nat) (shape : List Nat)
  | missingAxis (axis : Nat) (shape : List Nat)
  | rangeExceedsAxis (start stop axis extent : Nat)
  | reversedRange (start stop axis : Nat)
  /-- raised by a function that the library was given -/
  | foreign (message : String) (causes : List String)
deriving DecidableEq, Repr

namespace Fault

def message : Fault → String
  | lengthMismatch length shape =>
    let axes := Text.naturals shape
    s!"Data length {length} does not match shape {axes} ({Shape.volume shape} elements)"
  | missingAxis axis shape =>
    s!"narrow: dimension {axis} out of range for {Text.naturals shape}"
  | rangeExceedsAxis start stop axis extent =>
    s!"narrow: range {start}..{stop} exceeds dimension {axis} of size {extent}"
  | reversedRange start stop axis => s!"slice: end {stop} precedes start {start} on axis {axis}"
  | foreign message _ => message

/-- The message and those of its causes, outermost first. -/
def chain : Fault → List String
  | foreign message causes => message :: causes
  | fault => [fault.message]

end Fault

def shape (t : Tensor) : List Nat := t.grid.shape
def rank (t : Tensor) : Nat := t.shape.length
def size (t : Tensor) : Nat := t.grid.cells.size

/-- The elements in row-major order, each cast to single precision. -/
def values (t : Tensor) : Array Single :=
  t.grid.cells.map (t.dtype.cast .f32)

def ofValues (data : Array Single) (shape : List Nat) (dtype : DType) :
    Except Fault Tensor :=
  if h : data.size = Shape.volume shape then
    .ok ⟨dtype, shape, data.map (DType.f32.cast dtype), Array.size_map.trans h⟩
  else .error (.lengthMismatch data.size shape)

/-- Applies a function to every value. Shape and element type stay. -/
def mapValues (f : Single → Single) (t : Tensor) : Tensor :=
  ⟨t.dtype, t.grid.map fun x => DType.f32.cast t.dtype (f (t.dtype.cast .f32 x))⟩

def zeros (shape : List Nat) (dtype : DType) : Tensor :=
  ⟨dtype, .tabulate shape fun _ _ => DType.f32.cast dtype (Binary.zero : Single)⟩

def toDType (t : Tensor) (dtype : DType) : Tensor :=
  if t.dtype = dtype then t else ⟨dtype, t.grid.map (t.dtype.cast dtype)⟩

def narrow (t : Tensor) (axis start len : Nat) : Except Fault Tensor :=
  match h : t.grid.shape[axis]? with
  | none => .error (.missingAxis axis t.shape)
  | some extent =>
    if hroom : start + len ≤ extent then
      .ok ⟨t.dtype, t.grid.narrow axis start len extent h hroom⟩
    else .error (.rangeExceedsAxis start (start + len) axis extent)

/-- The indices from `start` and below `stop` on one axis. -/
structure Range where
  axis : Nat
  start : Nat
  stop : Nat
deriving DecidableEq, Repr

/-- Narrows to one range after the other. -/
def slice (t : Tensor) : List Range → Except Fault Tensor
  | [] => .ok t
  | r :: rs =>
    if r.stop < r.start then .error (.reversedRange r.start r.stop r.axis)
    else match t.narrow r.axis r.start (r.stop - r.start) with
      | .ok t => t.slice rs
      | .error fault => .error fault

end Tensor

/-- Tensors under their names, the latest first. -/
abbrev Values := List (String × Tensor)

end LoweringCheck
