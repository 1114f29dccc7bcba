import LoweringCheck.Proofs.Layer.Words
import LoweringCheck.Proofs.Tensor.Distinct
/-!
# Inference and execution agree

Shape inference crops a declared shape axis by axis, execution reads all extents off the tensor. Both accept
the croppings that leave something of every axis, and no others.
-/
namespace LoweringCheck

/-- The rank and the extents are 64-bit numbers. -/
def Shape.InWords (shape : List Nat) : Prop :=
  shape.length < 2 ^ 64 ∧ ∀ extent ∈ shape, extent < 2 ^ 64

namespace LayerSpec
variable {layer : String} {cuts : List (Nat × Margin)} {shape : List Nat}

/-- Every cut leaves something of its axis. -/
def Spares (cuts : List (Nat × Margin)) (shape : List Nat) : Prop :=
  ∀ cut ∈ cuts, ∃ extent, shape[cut.1]? = some extent ∧ cut.2.before + cut.2.after < extent

private theorem spares_cons {axis : Nat} {margin : Margin} {rest : List (Nat × Margin)} :
    Spares ((axis, margin) :: rest) shape ↔
      (∃ extent, shape[axis]? = some extent ∧ margin.before + margin.after < extent) ∧
        Spares rest shape :=
  List.forall_mem_cons

theorem exists_keptRanges_iff :
    (∃ ranges, keptRanges layer shape cuts = .ok ranges) ↔ Spares cuts shape := by
  induction cuts with
  | nil => simp [keptRanges, Spares]
  | cons cut rest ih =>
    obtain ⟨axis, margin⟩ := cut
    simp only [keptRanges_cons_ok_iff, spares_cons, ← ih]
    constructor
    · rintro ⟨_, extent, later, haxis, hroom, hlater, _⟩
      exact ⟨⟨extent, haxis, hroom⟩, later, hlater⟩
    · rintro ⟨⟨extent, haxis, hroom⟩, later, hlater⟩
      exact ⟨_, extent, later, haxis, hroom, hlater, rfl⟩

theorem spares_set_iff {axis : Nat} (hfresh : axis ∉ cuts.map Prod.fst) (extent : Nat) :
    Spares cuts (shape.set axis extent) ↔ Spares cuts shape := by
  apply forall₂_congr
  intro cut hcut
  have hne : axis ≠ cut.1 := fun heq => hfresh (heq ▸ List.mem_map_of_mem hcut)
  rw [List.getElem?_set_ne hne]

theorem exists_cropShape_iff {index : Nat} (batch : Nat) (hnodup : (cuts.map Prod.fst).Nodup)
    (hpos : ∀ cut ∈ cuts, 1 ≤ cut.1) :
    (∃ result, cropShape layer index (cuts.map fun cut => (cut.1 - 1, cut.2)) shape = .ok result) ↔
      Spares cuts (batch :: shape) := by
  induction cuts generalizing index shape with
  | nil => simp [cropShape, Spares]
  | cons cut rest ih =>
    obtain ⟨axis, margin⟩ := cut
    obtain ⟨hfirst, hrest⟩ := List.forall_mem_cons.mp hpos
    obtain ⟨hfresh, hothers⟩ := List.nodup_cons.mp hnodup
    obtain ⟨place, rfl⟩ := Nat.exists_eq_add_of_le' hfirst
    have hextent : (∃ extent, (batch :: shape)[place + 1]? = some extent ∧
        margin.before + margin.after < extent) ↔
          margin.before + margin.after < shape.getD place 0 := by
      rw [List.getElem?_cons_succ, List.getD_eq_getElem?_getD]
      cases shape[place]? <;> simp
    -- the other axes have the same extents before and after this cut
    rw [spares_cons, hextent,
      ← spares_set_iff hfresh (shape.getD place 0 - margin.before - margin.after), List.set_cons_succ,
      ← @ih _ (index + 1) hothers hrest]
    simp only [List.map_cons, Nat.add_sub_cancel, cropShape_cons_ok_iff, exists_and_left]

private theorem keptRanges_axes {ranges : List Tensor.Range}
    (h : keptRanges layer shape cuts = .ok ranges) :
    ranges.map Tensor.Range.axis = cuts.map Prod.fst := by
  induction cuts generalizing ranges with
  | nil =>
    cases h
    rfl
  | cons cut rest ih =>
    obtain ⟨axis, margin⟩ := cut
    obtain ⟨_, later, _, _, hlater, rfl⟩ := keptRanges_cons_ok_iff.mp h
    rw [List.map_cons, List.map_cons, ih hlater]

variable {margins : List Margin} {format : DataFormat} {t u : Tensor}

private theorem execute_spatial (h : (cropping margins format).execute layer t = .ok u) {axis : Nat}
    (haxis : axis ∈ format.spatialAxes margins.length) :
    ∃ left, u.shape[axis]? = some left ∧ 1 ≤ left := by
  obtain ⟨ranges, hkept, hu⟩ := execute_cropping_ok_iff.mp h
  have haxes : ranges.map Tensor.Range.axis = format.spatialAxes margins.length :=
    (keptRanges_axes hkept).trans (axisCuts_axes margins format)
  obtain ⟨r, hr, rfl⟩ := List.mem_map.mp (haxes ▸ haxis)
  have hnodup : (ranges.map Tensor.Range.axis).Nodup := haxes ▸ format.spatialAxes_nodup _
  have hkeeps := (mem_keptRanges hkept r hr).1
  exact ⟨_, Tensor.slice_shape_of_mem hu hnodup hr, by omega⟩

theorem exists_outputShape_iff (batch : Nat) (hrank : shape.length = margins.length + 1) :
    (∃ result, (cropping margins format).outputShape layer shape = .ok result) ↔
      Spares (axisCuts margins format) (batch :: shape) := by
  simp only [outputShape, if_pos hrank, axisCuts_places]
  apply exists_cropShape_iff batch
  · rw [axisCuts_axes]
    exact format.spatialAxes_nodup _
  · exact fun cut hcut => (DataFormat.mem_spatialAxes (List.of_mem_zip hcut).1).1

/-- A cropping executes on tensors of a declared shape if and only if shape inference accepts that, with the
inferred shape behind the batch extent, and both compute the same in 64 bits. -/
theorem execute_iff_outputShape {batch : Nat} (hrank : shape.length = margins.length + 1)
    (ht : t.shape = batch :: shape) (hwords : Shape.InWords t.shape) :
    ((∃ u, (cropping margins format).execute layer t = .ok u) ↔
        ∃ result, (cropping margins format).outputShape layer shape = .ok result) ∧
      (∀ u, (cropping margins format).execute layer t = .ok u →
        ∃ result, (cropping margins format).outputShape layer shape = .ok result ∧
          u.shape = batch :: result ∧
          ∀ axis ∈ format.spatialAxes margins.length, ∃ left, u.shape[axis]? = some left ∧ 1 ≤ left) ∧
      outputShape? margins format layer shape =
        some ((cropping margins format).outputShape layer shape) ∧
      crop? margins format layer t = some ((cropping margins format).execute layer t) := by
  have hinferred : ∀ u, (cropping margins format).execute layer t = .ok u →
      ∃ result, (cropping margins format).outputShape layer shape = .ok result := by
    intro u hu
    obtain ⟨ranges, hkept, _⟩ := execute_cropping_ok_iff.mp hu
    exact (exists_outputShape_iff batch hrank).mpr (ht ▸ exists_keptRanges_iff.mp ⟨ranges, hkept⟩)
  have hlength : margins.length + 1 < 2 ^ 64 := by
    have hbound := hwords.1
    rw [ht, List.length_cons, hrank] at hbound
    omega
  have hextents : ∀ extent ∈ shape, extent < 2 ^ 64 := fun extent hextent =>
    hwords.2 extent (ht ▸ List.mem_cons_of_mem _ hextent)
  refine ⟨⟨?_, ?_⟩, ?_, outputShape?_eq hlength hextents, crop?_eq hlength hwords.2⟩
  · rintro ⟨u, hu⟩
    exact hinferred u hu
  · rintro ⟨result, hresult⟩
    obtain ⟨_, u, _, _, hu, _⟩ := execute_cropping hresult ht
    exact ⟨u, hu⟩
  · intro u hu
    obtain ⟨result, hresult⟩ := hinferred u hu
    obtain ⟨_, v, _, _, hv, hshape⟩ := execute_cropping hresult ht
    cases hu.symm.trans hv
    exact ⟨result, hresult, hshape, fun axis haxis => execute_spatial hu haxis⟩

/-- Of two blocks of three rows and four columns, the rows but the first and the columns but the last two. -/
theorem execute_corner :
    let t := Tensor.zeros [2, 1, 3, 4] .u8
    let spec := cropping [⟨1, 0⟩, ⟨0, 2⟩] .channelsFirst
    Shape.InWords t.shape ∧ (∃ u, spec.execute "corner" t = .ok u ∧ u.shape = [2, 1, 2, 2]) ∧
      outputShape? [⟨1, 0⟩, ⟨0, 2⟩] .channelsFirst "corner" [1, 3, 4] = some (.ok [1, 2, 2]) := by
  intro t spec
  have hwords : Shape.InWords t.shape := by
    show 4 < 2 ^ 64 ∧ ∀ extent ∈ [2, 1, 3, 4], extent < 2 ^ 64
    decide
  obtain ⟨hiff, hshape, hinfers, -⟩ := @execute_iff_outputShape "corner" [1, 3, 4]
    [⟨1, 0⟩, ⟨0, 2⟩] .channelsFirst t 2 rfl rfl hwords
  have hresult : spec.outputShape "corner" [1, 3, 4] = .ok [1, 2, 2] := rfl
  obtain ⟨u, hu⟩ := hiff.mpr ⟨_, hresult⟩
  obtain ⟨result, hresult', hu', -⟩ := hshape u hu
  cases hresult.symm.trans hresult'
  exact ⟨hwords, ⟨u, hu, hu'⟩, hinfers.trans (congrArg some hresult)⟩

end LayerSpec
end LoweringCheck
