import Mathlib.Algebra.Ring.Nat
import LoweringCheck.Proofs.Tensor.Slicing
/-!
# Windows of tensors

What is left of a tensor by slices is a window of it: the coordinates are moved along every axis by a
fixed amount, and the elements are the same. The amounts of windows in windows add up.
-/
namespace LoweringCheck

/-- Moves a coordinate along every axis by the amount for that axis. -/
def Shape.shift (amounts : Nat → Nat) (c : List Nat) : List Nat :=
  c.mapIdx fun axis i => i + amounts axis

namespace Shape

private theorem shift_zero (c : List Nat) : shift (fun _ => 0) c = c := by
  apply List.ext_getElem
  · simp [shift]
  · intro i _ _
    simp [shift]

private theorem shift_shift (first second : Nat → Nat) (c : List Nat) :
    shift first (shift second c) = shift (fun axis => first axis + second axis) c := by
  simp only [shift, List.mapIdx_mapIdx]
  congr 1
  funext axis i
  show i + second axis + first axis = i + (first axis + second axis)
  omega

private theorem modify_eq_shift (c : List Nat) (axis start : Nat) :
    c.modify axis (start + ·) = shift (fun a => if axis = a then start else 0) c := by
  apply List.ext_getElem
  · simp [shift]
  · intro i hi _
    simp only [shift, List.getElem_mapIdx, List.getElem_modify]
    split
    · exact Nat.add_comm _ _
    · rfl

end Shape

namespace Tensor

/-- The elements of `u` have the type of those of `t`, and at every coordinate of `u` stands the element
of `t` at the coordinate moved. -/
def IsWindow (u t : Tensor) (amounts : Nat → Nat) : Prop :=
  ∃ g : Grid t.dtype.Element, u = ⟨t.dtype, g⟩ ∧
    ∀ (c : List Nat) (h : Shape.Within g.shape c),
      ∃ moved : Shape.Within t.shape (Shape.shift amounts c), g.get c h = t.grid.get _ moved

namespace IsWindow
variable {t u v : Tensor} {first second : Nat → Nat}

theorem refl (t : Tensor) : t.IsWindow t fun _ => 0 := by
  refine ⟨t.grid, rfl, ?_⟩
  intro c h
  rw [Shape.shift_zero]
  exact ⟨h, rfl⟩

theorem trans (hu : u.IsWindow t first) (hv : v.IsWindow u second) :
    v.IsWindow t fun axis => first axis + second axis := by
  obtain ⟨g, rfl, hg⟩ := hu
  obtain ⟨k, rfl, hk⟩ := hv
  refine ⟨k, rfl, ?_⟩
  intro c h
  obtain ⟨inner, hinner⟩ := hk c h
  obtain ⟨outer, houter⟩ := hg _ inner
  rw [← Shape.shift_shift]
  exact ⟨outer, hinner.trans houter⟩

end IsWindow

private theorem narrow_isWindow {t u : Tensor} {axis start len : Nat}
    (h : t.narrow axis start len = .ok u) :
    u.IsWindow t fun a => if axis = a then start else 0 := by
  obtain ⟨extent, haxis, hroom, rfl⟩ := narrow_ok_iff.mp h
  refine ⟨t.grid.narrow axis start len extent haxis hroom, rfl, ?_⟩
  intro c hc
  have hmoved := Shape.within_modify haxis hroom hc
  have hget : (t.grid.narrow axis start len extent haxis hroom).get c hc =
      t.grid.get (c.modify axis (start + ·)) hmoved := Grid.get_tabulate _ _ c hc
  rw [← Shape.modify_eq_shift]
  exact ⟨hmoved, hget⟩

/-- How far some ranges are from the start of an axis, all together. -/
def startOn (ranges : List Range) (axis : Nat) : Nat :=
  (ranges.map fun r => if r.axis = axis then r.start else 0).sum

theorem slice_isWindow {t u : Tensor} {ranges : List Range} (h : t.slice ranges = .ok u) :
    u.IsWindow t (startOn ranges) := by
  induction ranges generalizing t with
  | nil =>
    cases h
    exact .refl _
  | cons r rest ih =>
    obtain ⟨_, v, hv, hrest⟩ := slice_cons_ok_iff.mp h
    have hwindow := (narrow_isWindow hv).trans (ih hrest)
    have hsum : startOn (r :: rest) =
        fun axis => (if r.axis = axis then r.start else 0) + startOn rest axis := by
      funext axis
      simp [startOn]
    rw [hsum]
    exact hwindow

end Tensor
end LoweringCheck
