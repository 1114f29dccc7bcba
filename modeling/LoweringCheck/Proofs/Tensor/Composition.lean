import LoweringCheck.Proofs.Tensor.InTurn
/-!
# Composing ranges

Any list of ranges, on axes in any order and as often as one likes, leaves one window of the tensor. The shape
of the window comes from the ranges one after the other, and it begins on each axis at the sum of the starts.
-/
namespace LoweringCheck.Tensor

/-- The shape with one extent replaced by the length of the range. -/
def Range.cut (shape : List Nat) (r : Range) : List Nat := shape.set r.axis (r.stop - r.start)

/-- What ranges leave of a shape: one after the other replaces an extent by its length. -/
def leftOf (ranges : List Range) (shape : List Nat) : List Nat := ranges.foldl Range.cut shape

variable {t u : Tensor} {ranges earlier : List Range} {r : Range} {shape : List Nat}

private theorem Range.cut_extent (r : Range) (shape : List Nat) (axis : Nat) :
    (r.cut shape)[axis]? =
      shape[axis]?.map fun extent => if r.axis = axis then r.stop - r.start else extent := by
  by_cases haxis : r.axis = axis
  · subst haxis
    by_cases hlt : r.axis < shape.length
    · simp [cut, hlt]
    · simp [cut, Nat.not_lt.mp hlt]
  · simp [cut, haxis]

private theorem leftOf_extent (ranges : List Range) (shape : List Nat) (axis : Nat) :
    (leftOf ranges shape)[axis]? = shape[axis]?.map (leftOn ranges axis) := by
  induction ranges generalizing shape with
  | nil => cases h : shape[axis]? <;> simp [leftOf, leftOn, h]
  | cons r rest ih =>
    show (leftOf rest (r.cut shape))[axis]? = _
    rw [ih, Range.cut_extent, Option.map_map]
    rfl

private theorem slice_shape (h : t.slice ranges = .ok u) : u.shape = leftOf ranges t.shape := by
  apply List.ext_getElem?
  intro axis
  rw [slice_extent h, leftOf_extent]

/-! ## Whether ranges fit -/

private theorem fitsAfter_iff_fits_leftOf : r.FitsAfter earlier shape ↔ r.Fits (leftOf earlier shape) := by
  simp [Range.FitsAfter, Range.Fits, leftOf_extent]

private theorem fitInTurn_nil (shape : List Nat) : FitInTurn [] shape := by simp [FitInTurn]

theorem fitInTurn_cons_iff {rest : List Range} :
    FitInTurn (r :: rest) shape ↔ r.Fits shape ∧ FitInTurn rest (r.cut shape) := by
  simp only [FitInTurn, fitsAfter_iff_fits_leftOf]
  constructor
  · intro h
    constructor
    · exact h [] r rest rfl
    · intro earlier s later hsplit
      exact h (r :: earlier) s later (congrArg (r :: ·) hsplit)
  · intro h earlier s later hsplit
    cases earlier with
    | nil =>
      simp only [List.nil_append, List.cons.injEq] at hsplit
      exact hsplit.1 ▸ h.1
    | cons first earlier =>
      simp only [List.cons_append, List.cons.injEq] at hsplit
      exact hsplit.1 ▸ h.2 earlier s later hsplit.2

instance (r : Range) (shape : List Nat) : Decidable (r.Fits shape) :=
  decidable_of_iff (∃ extent ∈ shape[r.axis]?, r.start ≤ r.stop ∧ r.stop ≤ extent) (by simp [Range.Fits])

instance decidableFitInTurn : (ranges : List Range) → (shape : List Nat) → Decidable (FitInTurn ranges shape)
  | [], shape => isTrue (fitInTurn_nil shape)
  | r :: rest, shape =>
    have := decidableFitInTurn rest (r.cut shape)
    decidable_of_iff (r.Fits shape ∧ FitInTurn rest (r.cut shape)) fitInTurn_cons_iff.symm

/-! ## The window that is left -/

/-- The tensor that ranges leave is fixed by its shape and by where it begins. -/
theorem slice_eq_ok_iff : t.slice ranges = .ok u ↔
    FitInTurn ranges t.shape ∧ u.shape = leftOf ranges t.shape ∧ u.IsWindow t (startOn ranges) := by
  constructor
  · intro h
    exact ⟨exists_slice_iff_fitInTurn.mp ⟨u, h⟩, slice_shape h, slice_isWindow h⟩
  · intro h
    obtain ⟨hfit, hshape, hwindow⟩ := h
    obtain ⟨v, hv⟩ := exists_slice_iff_fitInTurn.mpr hfit
    have hsame : u.shape = v.shape := hshape.trans (slice_shape hv).symm
    rw [hv, hwindow.unique (slice_isWindow hv) hsame]

/-- Slices compose. Ranges can be taken exactly if each lies in what the ones before it leave, and what they
leave is the window of their shape that begins on every axis at the sum of the starts. Ranges on distinct axes
leave the same in any order. -/
theorem slice_composes (t : Tensor) (ranges : List Range) :
    ((∃ u, t.slice ranges = .ok u) ↔ FitInTurn ranges t.shape) ∧
      (∀ u, t.slice ranges = .ok u ↔
        FitInTurn ranges t.shape ∧ u.shape = leftOf ranges t.shape ∧ u.IsWindow t (startOn ranges)) ∧
      ((ranges.map Range.axis).Nodup → ∀ others, others.Perm ranges →
        ∀ u, t.slice others = .ok u ↔ t.slice ranges = .ok u) := by
  refine ⟨exists_slice_iff_fitInTurn, fun u => slice_eq_ok_iff, ?_⟩
  intro hdistinct others hperm u
  constructor
  · apply slice_perm hperm.symm
    exact (hperm.map _).nodup_iff.mpr hdistinct
  · exact slice_perm hperm hdistinct

/-- Two layers of two rows of three bytes. -/
def layersOfBytes : Tensor := ⟨.u8, [2, 2, 3], #[1, 2, 3, 4, 5, 6, 7, 8, 9, 10, 11, 12], rfl⟩

/-- The columns behind the first, the second layer, and of the columns that are left the second. -/
def columnsTwice : List Range := [⟨2, 1, 3⟩, ⟨0, 1, 2⟩, ⟨2, 1, 2⟩]

theorem slice_columnsTwice :
    FitInTurn columnsTwice layersOfBytes.shape ∧
      (∃ u, layersOfBytes.slice columnsTwice = .ok u ∧ u = ⟨.u8, [1, 2, 1], #[9, 12], rfl⟩ ∧
        u.IsWindow layersOfBytes (startOn columnsTwice)) ∧
      ((columnsTwice.take 2).map Range.axis).Nodup ∧
        (columnsTwice.take 2).reverse.Perm (columnsTwice.take 2) ∧
        layersOfBytes.slice (columnsTwice.take 2).reverse = layersOfBytes.slice (columnsTwice.take 2) := by
  have hfit : FitInTurn columnsTwice layersOfBytes.shape := by decide
  have hdistinct : ((columnsTwice.take 2).map Range.axis).Nodup := by decide
  have hperm := List.reverse_perm (columnsTwice.take 2)
  obtain ⟨hexists, hwindow, -⟩ := slice_composes layersOfBytes columnsTwice
  obtain ⟨-, -, horder⟩ := slice_composes layersOfBytes (columnsTwice.take 2)
  obtain ⟨u, hu⟩ := hexists.mpr hfit
  have hcells : layersOfBytes.slice columnsTwice = .ok ⟨.u8, [1, 2, 1], #[9, 12], rfl⟩ := rfl
  refine ⟨hfit, ⟨u, hu, ?_, ((hwindow u).mp hu).2.2⟩, hdistinct, hperm, ?_⟩
  · exact Except.ok.inj (hu.symm.trans hcells)
  · exact (horder hdistinct _ hperm _).mpr rfl

end LoweringCheck.Tensor
