import LoweringCheck.Operator.Standard
import LoweringCheck.Proofs.Dictionary
import LoweringCheck.Proofs.Tensor.Slicing
/-!
# Operators that do not look at elements

The standard operators move elements and read shapes and attributes only. Tensors that are cast before
such an operator give the same outputs as the outputs cast, and the same errors.
-/
namespace LoweringCheck

namespace Tensor

private theorem narrow_cast (t : Tensor) (dtype : DType) (axis start len : Nat) :
    (t.toDType dtype).narrow axis start len =
      (t.narrow axis start len).map (·.toDType dtype) := by
  have hshape := t.shape_toDType dtype
  cases haxis : t.shape[axis]? with
  | none =>
    rw [narrow_of_no_axis haxis, narrow_of_no_axis (hshape ▸ haxis), hshape]
    rfl
  | some extent =>
    by_cases hroom : start + len ≤ extent
    · have hok := narrow_eq_ok haxis hroom
      rw [hok, narrow_toDType dtype hok]
      rfl
    · rw [narrow_of_no_room haxis hroom, narrow_of_no_room (hshape ▸ haxis) hroom]
      rfl

private theorem slice_cast (t : Tensor) (dtype : DType) (ranges : List Range) :
    (t.toDType dtype).slice ranges = (t.slice ranges).map (·.toDType dtype) := by
  induction ranges generalizing t with
  | nil => rfl
  | cons r rest ih =>
    rw [slice, slice, narrow_cast]
    split
    · rfl
    · cases t.narrow r.axis r.start (r.stop - r.start) with
      | ok u => exact ih u
      | error fault => rfl

end Tensor

private theorem Slice.apply_cast (cuts : List Slice.Cut) (t : Tensor) (dtype : DType) :
    Slice.apply cuts (t.toDType dtype) = (Slice.apply cuts t).map (·.toDType dtype) := by
  rw [Slice.apply, Slice.apply, Tensor.shape_toDType]
  cases Slice.ranges t.shape cuts with
  | error e => rfl
  | ok ranges =>
    simp only [Tensor.slice_cast]
    cases t.slice ranges with
    | ok u => rfl
    | error fault => rfl

/-- The operator commutes with casts. -/
def Operator.Uniform (op : Operator) : Prop :=
  ∀ (dtype : DType) (inputs : List Tensor) (attributes : Attributes),
    op.execute (inputs.map (·.toDType dtype)) attributes =
      (op.execute inputs attributes).map (List.map (·.toDType dtype))

private theorem Operator.uniform_slice : Operator.slice.Uniform := by
  intro dtype inputs attributes
  show Slice.execute _ attributes = (Slice.execute inputs attributes).map _
  match inputs with
  | [] => rfl
  | [t] =>
    simp only [List.map_cons, List.map_nil, Slice.execute]
    cases Slice.cuts attributes with
    | error e => rfl
    | ok cuts =>
      simp only [Slice.apply_cast]
      cases Slice.apply cuts t with
      | ok u => rfl
      | error e => rfl
  | t :: u :: rest => simp [Slice.execute, Except.map]

private theorem Operator.uniform_identity : Operator.identity.Uniform := by
  intro dtype inputs attributes
  match inputs with
  | [] => rfl
  | [t] => rfl
  | t :: u :: rest => simp [Operator.identity, Except.map]

namespace OperatorSet

/-- All operators of the set commute with casts. -/
def Uniform (ops : OperatorSet) : Prop :=
  ∀ (name : String) (op : Operator), ops.find name = .ok op → op.Uniform

private theorem Uniform.register {ops : OperatorSet} (h : ops.Uniform) {op : Operator} (hop : op.Uniform) :
    (ops.register op).Uniform := by
  intro name other hfind
  rw [find, OperatorSet.register, Dictionary.get?_insert] at hfind
  by_cases hname : name = op.name
  · rw [if_pos hname] at hfind
    cases hfind
    exact hop
  · rw [if_neg hname] at hfind
    exact h name other hfind

theorem uniform_standard : standard.Uniform := by
  have hempty : OperatorSet.Uniform .empty := by
    intro name op hfind
    cases hfind
  exact (hempty.register Operator.uniform_slice).register Operator.uniform_identity

end OperatorSet
end LoweringCheck
