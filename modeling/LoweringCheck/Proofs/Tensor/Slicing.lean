import LoweringCheck.Tensor.Basic
/-!
# Slicing tensors

Slicing keeps the element type and commutes with casts. The extents of a slice are those of its
ranges.
-/
namespace LoweringCheck

namespace Grid
variable {α β : Type}

private theorem map_tabulate (f : α → β) (shape : List Nat)
    (g : (c : List Nat) → Shape.Within shape c → α) :
    (tabulate shape g).map f = tabulate shape fun c h => f (g c h) := by
  simp only [tabulate, map, Array.map_ofFn]
  rfl

private theorem narrow_map (f : α → β) (g : Grid α) {axis start len extent : Nat}
    (haxis : g.shape[axis]? = some extent) (hroom : start + len ≤ extent) :
    (g.map f).narrow axis start len extent haxis hroom =
      (g.narrow axis start len extent haxis hroom).map f := by
  unfold narrow
  rw [map_tabulate]
  refine congrArg (tabulate (g.shape.set axis len)) ?_
  funext c h
  exact get_map f g _ _

end Grid

namespace Tensor

@[simp] theorem shape_toDType (t : Tensor) (dtype : DType) : (t.toDType dtype).shape = t.shape := by
  unfold toDType
  split <;> rfl

private theorem toDType_self (t : Tensor) : t.toDType t.dtype = t := if_pos rfl

theorem size_eq_volume (t : Tensor) : t.size = Shape.volume t.shape := t.grid.size_eq

theorem narrow_eq_ok {t : Tensor} {axis start len extent : Nat}
    (haxis : t.shape[axis]? = some extent) (hroom : start + len ≤ extent) :
    t.narrow axis start len = .ok ⟨t.dtype, t.grid.narrow axis start len extent haxis hroom⟩ := by
  unfold narrow
  split
  · rename_i hnone
    rw [show t.grid.shape[axis]? = some extent from haxis] at hnone
    cases hnone
  · rename_i extent' hsome
    rw [show t.grid.shape[axis]? = some extent from haxis] at hsome
    cases hsome
    rw [dif_pos hroom]

theorem narrow_of_no_axis {t : Tensor} {axis : Nat} (haxis : t.shape[axis]? = none)
    (start len : Nat) : t.narrow axis start len = .error (.missingAxis axis t.shape) := by
  unfold narrow
  split
  · rfl
  · rename_i extent hsome
    rw [show t.grid.shape[axis]? = none from haxis] at hsome
    cases hsome

theorem narrow_of_no_room {t : Tensor} {axis start len extent : Nat}
    (haxis : t.shape[axis]? = some extent) (hroom : ¬ start + len ≤ extent) :
    t.narrow axis start len = .error (.rangeExceedsAxis start (start + len) axis extent) := by
  unfold narrow
  split
  · rename_i hnone
    rw [show t.grid.shape[axis]? = some extent from haxis] at hnone
    cases hnone
  · rename_i extent' hsome
    rw [show t.grid.shape[axis]? = some extent from haxis] at hsome
    cases hsome
    rw [dif_neg hroom]

theorem narrow_ok_iff {t u : Tensor} {axis start len : Nat} :
    t.narrow axis start len = .ok u ↔
      ∃ (extent : Nat) (haxis : t.shape[axis]? = some extent) (hroom : start + len ≤ extent),
        u = ⟨t.dtype, t.grid.narrow axis start len extent haxis hroom⟩ := by
  constructor
  · intro h
    unfold narrow at h
    split at h
    · cases h
    · rename_i extent haxis
      split at h
      · rename_i hroom
        rw [Except.ok.injEq] at h
        exact ⟨extent, haxis, hroom, h.symm⟩
      · cases h
  · rintro ⟨extent, haxis, hroom, rfl⟩
    exact narrow_eq_ok haxis hroom

theorem narrow_toDType {t u : Tensor} (dtype : DType) {axis start len : Nat}
    (h : t.narrow axis start len = .ok u) :
    (t.toDType dtype).narrow axis start len = .ok (u.toDType dtype) := by
  obtain ⟨extent, haxis, hroom, rfl⟩ := narrow_ok_iff.mp h
  by_cases hd : t.dtype = dtype
  · subst hd
    rw [toDType_self, toDType, if_pos rfl]
    exact h
  · simp only [toDType, hd, if_false]
    rw [narrow_eq_ok (t := ⟨dtype, _⟩) haxis hroom]
    congr 2
    exact Grid.narrow_map _ _ haxis hroom

theorem slice_cons_ok_iff {t u : Tensor} {r : Range} {rest : List Range} :
    t.slice (r :: rest) = .ok u ↔ r.start ≤ r.stop ∧
      ∃ v, t.narrow r.axis r.start (r.stop - r.start) = .ok v ∧ v.slice rest = .ok u := by
  rw [slice]
  split
  · rename_i hlt
    simp [Nat.not_le.mpr hlt]
  · rename_i hle
    cases t.narrow r.axis r.start (r.stop - r.start) with
    | error fault => simp
    | ok v => simp [Nat.not_lt.mp hle]

/-- What every step of a slice preserves holds of the slice. -/
theorem slice_induction {P : Tensor → Prop} {t u : Tensor} {ranges : List Range}
    (h : t.slice ranges = .ok u) (ht : P t)
    (hstep : ∀ r ∈ ranges, ∀ v w : Tensor, v.narrow r.axis r.start (r.stop - r.start) = .ok w →
      P v → P w) : P u := by
  induction ranges generalizing t with
  | nil =>
    cases h
    exact ht
  | cons r rest ih =>
    obtain ⟨_, v, hv, hrest⟩ := slice_cons_ok_iff.mp h
    exact ih hrest (hstep r List.mem_cons_self t v hv ht) fun s hs =>
      hstep s (List.mem_cons_of_mem _ hs)

theorem slice_toDType {t u : Tensor} (dtype : DType) {ranges : List Range}
    (h : t.slice ranges = .ok u) : (t.toDType dtype).slice ranges = .ok (u.toDType dtype) := by
  induction ranges generalizing t with
  | nil =>
    cases h
    rfl
  | cons r rest ih =>
    obtain ⟨hle, v, hv, hrest⟩ := slice_cons_ok_iff.mp h
    exact slice_cons_ok_iff.mpr ⟨hle, _, narrow_toDType dtype hv, ih hrest⟩

theorem slice_cons {t : Tensor} {axis start stop extent : Nat} (rest : List Range)
    (haxis : t.shape[axis]? = some extent) (hle : start ≤ stop) (hroom : stop ≤ extent) :
    ∃ u : Tensor, u.shape = t.shape.set axis (stop - start) ∧
      t.slice (⟨axis, start, stop⟩ :: rest) = u.slice rest := by
  have hroom' : start + (stop - start) ≤ extent := by omega
  refine ⟨⟨t.dtype, t.grid.narrow axis start (stop - start) extent haxis hroom'⟩, rfl, ?_⟩
  rw [slice, if_neg (Nat.not_lt.mpr hle)]
  simp only [narrow_eq_ok haxis hroom']

theorem Range.axis_ne {ranges : List Range} {axis : Nat} (haxis : axis ∉ ranges.map Range.axis)
    {r : Range} (hr : r ∈ ranges) : r.axis ≠ axis := by
  rintro rfl
  exact haxis (List.mem_map_of_mem hr)

/-- What ranges leave of an axis of the given extent: as much as the last range on it is long. -/
def leftOn (ranges : List Range) (axis extent : Nat) : Nat :=
  ranges.foldl (fun left r => if r.axis = axis then r.stop - r.start else left) extent

theorem leftOn_of_not_mem {ranges : List Range} {axis : Nat} (haxis : axis ∉ ranges.map Range.axis)
    (extent : Nat) : leftOn ranges axis extent = extent := by
  induction ranges with
  | nil => rfl
  | cons r rest ih =>
    obtain ⟨hne, hrest⟩ := not_or.mp (mt List.mem_cons.mpr haxis)
    rw [leftOn, List.foldl_cons, if_neg (Ne.symm hne)]
    exact ih hrest

private theorem narrow_extent {t u : Tensor} {axis start len : Nat} (h : t.narrow axis start len = .ok u)
    (other : Nat) :
    u.shape[other]? = t.shape[other]?.map fun extent => if axis = other then len else extent := by
  obtain ⟨extent, haxis, _, rfl⟩ := narrow_ok_iff.mp h
  show (t.shape.set axis len)[other]? = _
  by_cases hother : axis = other
  · subst hother
    rw [List.getElem?_set_self (List.getElem?_eq_some_iff.mp haxis).1, haxis, Option.map_some, if_pos rfl]
  · rw [List.getElem?_set_ne hother]
    simp [hother]

theorem slice_extent {t u : Tensor} {ranges : List Range} (h : t.slice ranges = .ok u) (axis : Nat) :
    u.shape[axis]? = t.shape[axis]?.map (leftOn ranges axis) := by
  induction ranges generalizing t with
  | nil =>
    cases h
    cases u.shape[axis]? <;> rfl
  | cons r rest ih =>
    obtain ⟨_, v, hv, hrest⟩ := slice_cons_ok_iff.mp h
    rw [ih hrest, narrow_extent hv, Option.map_map]
    rfl

theorem slice_shape_of_not_mem {t u : Tensor} {ranges : List Range} {axis : Nat}
    (h : t.slice ranges = .ok u) (haxis : axis ∉ ranges.map Range.axis) :
    u.shape[axis]? = t.shape[axis]? := by
  rw [slice_extent h, funext (leftOn_of_not_mem haxis), Option.map_id']

theorem slice_batch {t u : Tensor} {ranges : List Range} (h : t.slice ranges = .ok u)
    (hranges : ∀ r ∈ ranges, 1 ≤ r.axis) : u.shape.head? = t.shape.head? := by
  have hbatch : 0 ∉ ranges.map Range.axis := by
    intro hmem
    obtain ⟨r, hr, haxis⟩ := List.mem_map.mp hmem
    have hlater := hranges r hr
    omega
  rw [List.head?_eq_getElem?, List.head?_eq_getElem?, slice_shape_of_not_mem h hbatch]

theorem slice_positive {t u : Tensor} {ranges : List Range} (h : t.slice ranges = .ok u)
    (hranges : ∀ r ∈ ranges, r.start < r.stop) (hpos : 0 ∉ t.shape) : 0 ∉ u.shape := by
  apply slice_induction (P := fun v => 0 ∉ v.shape) h hpos
  intro r hr v w hw hv hzero
  obtain ⟨_, _, _, rfl⟩ := narrow_ok_iff.mp hw
  have hkept := hranges r hr
  rcases List.mem_or_eq_of_mem_set hzero with hmem | heq
  · exact hv hmem
  · omega

end Tensor
end LoweringCheck
