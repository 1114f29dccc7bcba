import Mathlib.Algebra.Ring.Int.Defs
import Mathlib.Algebra.Ring.Nat
import LoweringCheck.Conversion.Lowering
import LoweringCheck.Proofs.Dictionary
import LoweringCheck.Proofs.Layer.Execution
import LoweringCheck.Proofs.Operator.Slicing
/-!
# Lowered croppings

The slice node of a cropping keeps the ranges that the cropping keeps: bounds that count from the end
of an axis, and the greatest integer where nothing is taken off there, resolve to what execution reads
off the extents. Indices have 64 bits, so extents and axes have to stay below `2 ^ 63`.
-/
namespace LoweringCheck

open LayerSpec (axisCuts keptRanges)

namespace Lowering

/-- What a margin is lowered to on an axis. -/
def cutOf (cut : Nat × Margin) : Slice.Cut :=
  ⟨Int64.ofNat cut.1, startOf cut.2, stopOf cut.2⟩

theorem gives_sliceAttributes (margins : List Margin) (format : DataFormat) :
    Slice.Gives (sliceAttributes margins format) (margins.map startOf) (margins.map stopOf)
      ((format.spatialAxes margins.length).map Int64.ofNat) where
  readStarts := by simp [sliceAttributes, Dictionary.ofList, Dictionary.get?_insert]
  readStops := by simp [sliceAttributes, Dictionary.ofList, Dictionary.get?_insert]
  readAxes := .inl (by simp [sliceAttributes, Dictionary.ofList, Dictionary.get?_insert])
  asManyStops := by rw [List.length_map, List.length_map]
  asManyAxes := by rw [List.length_map, List.length_map, DataFormat.length_spatialAxes]

private theorem pair_cutOf (axes : List Nat) (margins : List Margin) :
    Slice.pair (margins.map startOf) (margins.map stopOf) (axes.map Int64.ofNat) =
      (axes.zip margins).map cutOf := by
  induction axes generalizing margins with
  | nil => rfl
  | cons axis axes ih =>
    cases margins with
    | nil => rfl
    | cons margin margins => exact congrArg (cutOf (axis, margin) :: ·) (ih margins)

private theorem cuts_sliceAttributes (margins : List Margin) (format : DataFormat) :
    Slice.cuts (sliceAttributes margins format) = .ok ((axisCuts margins format).map cutOf) := by
  have hsteps : Slice.integers? (sliceAttributes margins format) "steps" = .ok none := by
    simp [Slice.integers?, sliceAttributes, Dictionary.ofList, Dictionary.get?_insert]
  refine Slice.cuts_eq_ok_iff.mpr
    ⟨_, _, _, gives_sliceAttributes margins format, ?_, (pair_cutOf _ margins).symm⟩
  rw [Slice.checkSteps, hsteps]

theorem check_sliceAttributes (margins : List Margin) (format : DataFormat) :
    Slice.check (sliceAttributes margins format) = .ok () := by
  rw [Slice.check, cuts_sliceAttributes]

end Lowering

namespace Slice

private theorem resolve_startOf {margin : Margin} {extent : Nat} (hlarge : extent < 2 ^ 63)
    (hroom : margin.before + margin.after < extent) :
    resolve (Lowering.startOf margin) extent = margin.before := by
  have hint : (Lowering.startOf margin).toInt = margin.before :=
    Int64.toInt_ofNat_of_lt (by omega)
  have hneg : ¬ Lowering.startOf margin < 0 := by
    rw [Int64.lt_iff_toInt_lt, hint]
    exact Int.not_lt.mpr (Int.natCast_nonneg _)
  simp only [resolve, hneg, if_false, hint]
  omega

private theorem resolve_stopOf {margin : Margin} {extent : Nat} (hlarge : extent < 2 ^ 63)
    (hroom : margin.before + margin.after < extent) :
    resolve (Lowering.stopOf margin) extent = extent - margin.after := by
  by_cases hzero : margin.after = 0
  · have hneg : ¬ Int64.maxValue < 0 := by decide
    simp only [resolve, Lowering.stopOf, hzero, if_true, hneg, if_false, Int64.toInt_maxValue]
    omega
  · have hint : (-Int64.ofNat margin.after).toInt = -margin.after :=
      Int64.toInt_neg_ofNat_of_le (by omega)
    have hneg : -Int64.ofNat margin.after < 0 := by
      rw [Int64.lt_iff_toInt_lt, hint]
      show -(margin.after : Int) < 0
      omega
    simp only [resolve, Lowering.stopOf, hzero, if_false, hneg, if_true, hint]
    omega

private theorem range_cutOf {axis extent : Nat} {margin : Margin} {shape : List Nat}
    (hrank : shape.length ≤ 2 ^ 63) (haxis : shape[axis]? = some extent)
    (hlarge : extent < 2 ^ 63) (hroom : margin.before + margin.after < extent) :
    (Lowering.cutOf (axis, margin)).range shape =
      .ok ⟨axis, margin.before, extent - margin.after⟩ := by
  have hlt : axis < shape.length := (List.getElem?_eq_some_iff.mp haxis).1
  have hint : (Int64.ofNat axis).toInt = axis := Int64.toInt_ofNat_of_lt (by omega)
  have hneg : ¬ Int64.ofNat axis < 0 := by
    rw [Int64.lt_iff_toInt_lt, hint]
    exact Int.not_lt.mpr (Int.natCast_nonneg _)
  have hnat : ¬ (axis : Int) < 0 := Int.not_lt.mpr (Int.natCast_nonneg _)
  simp only [Cut.range, Lowering.cutOf, hneg, if_false, hint, hnat, Int.toNat_natCast, haxis,
    resolve_startOf hlarge hroom, resolve_stopOf hlarge hroom]
  rw [Nat.max_eq_left (by omega)]

/-- The slice of a lowered cropping keeps the ranges of the cropping. -/
theorem ranges_cutOf {layer : String} {shape : List Nat} {cuts : List (Nat × Margin)}
    {kept : List Tensor.Range} (hrank : shape.length ≤ 2 ^ 63)
    (hlarge : ∀ cut ∈ cuts, ∀ extent, shape[cut.1]? = some extent → extent < 2 ^ 63)
    (h : keptRanges layer shape cuts = .ok kept) :
    ranges shape (cuts.map Lowering.cutOf) = .ok kept := by
  induction cuts generalizing kept with
  | nil =>
    cases h
    rfl
  | cons cut rest ih =>
    obtain ⟨axis, margin⟩ := cut
    obtain ⟨extent, rs, haxis, hroom, hrs, rfl⟩ := LayerSpec.keptRanges_cons_ok_iff.mp h
    have hfirst := hlarge _ List.mem_cons_self extent haxis
    have hrest : ranges shape (rest.map Lowering.cutOf) = .ok rs :=
      ih (fun cut hcut => hlarge cut (List.mem_cons_of_mem _ hcut)) hrs
    exact ranges_cons_of_range (range_cutOf hrank haxis hfirst hroom) hrest

/-- On tensors of any element type, the slice node of a cropping computes what the cropping does. -/
theorem execute_sliceAttributes {margins : List Margin} {format : DataFormat} {layer : String}
    {t u : Tensor} (dtype : DType) (hrank : t.shape.length ≤ 2 ^ 63)
    (hlarge : ∀ extent ∈ t.shape.tail, extent < 2 ^ 63)
    (h : (LayerSpec.cropping margins format).execute layer t = .ok u) :
    execute [t.toDType dtype] (Lowering.sliceAttributes margins format) =
      .ok [u.toDType dtype] := by
  have hcuts : ∀ cut ∈ axisCuts margins format, ∀ extent, t.shape[cut.1]? = some extent →
      extent < 2 ^ 63 := by
    intro cut hcut extent hextent
    have haxis := DataFormat.mem_spatialAxes (List.of_mem_zip hcut).1
    apply hlarge
    cases hshape : t.shape with
    | nil => simp [hshape] at hextent
    | cons batch rest =>
      rw [hshape, show cut.1 = (cut.1 - 1) + 1 by omega, List.getElem?_cons_succ] at hextent
      exact List.mem_of_getElem? hextent
  obtain ⟨kept, hkept, hu⟩ := LayerSpec.execute_cropping_ok_iff.mp h
  simp only [execute, Lowering.cuts_sliceAttributes, apply, Tensor.shape_toDType,
    ranges_cutOf hrank hcuts hkept, Tensor.slice_toDType dtype hu]

end Slice
end LoweringCheck
