import Mathlib.Data.List.Nodup
import LoweringCheck.Proofs.Layer.Inference
import LoweringCheck.Proofs.Tensor.Slicing
/-!
# Executing croppings

What shape inference accepts on declared shapes is accepted on tensors as well, with the inferred shape
behind the batch extent. Every layer passes the batch extent on, and none leaves an empty tensor of one
that is not empty.
-/
namespace LoweringCheck

theorem DataFormat.mem_spatialAxes {format : DataFormat} {rank axis : Nat}
    (h : axis ∈ format.spatialAxes rank) : 1 ≤ axis ∧ axis < rank + 2 := by
  cases format <;> simp only [spatialAxes, List.mem_range'_1] at h <;> omega

theorem DataFormat.spatialAxes_nodup (format : DataFormat) (rank : Nat) :
    (format.spatialAxes rank).Nodup := by
  cases format <;> exact List.nodup_range'

@[simp] theorem DataFormat.length_spatialAxes (format : DataFormat) (rank : Nat) :
    (format.spatialAxes rank).length = rank := by
  cases format <;> exact List.length_range'

namespace LayerSpec

/-- The cuts of a cropping: each spatial axis of a tensor with its margin. -/
def axisCuts (margins : List Margin) (format : DataFormat) : List (Nat × Margin) :=
  (format.spatialAxes margins.length).zip margins

theorem axisCuts_places (margins : List Margin) (format : DataFormat) :
    ((format.spatialAxes margins.length).map (· - 1)).zip margins =
      (axisCuts margins format).map fun cut => (cut.1 - 1, cut.2) := by
  rw [axisCuts, List.zip_map_left]
  rfl

theorem axisCuts_axes (margins : List Margin) (format : DataFormat) :
    (axisCuts margins format).map Prod.fst = format.spatialAxes margins.length :=
  List.map_fst_zip (Nat.le_of_eq (by simp))

theorem exists_mem_axisCuts {margins : List Margin} (format : DataFormat) {margin : Margin}
    (h : margin ∈ margins) : ∃ axis, (axis, margin) ∈ axisCuts margins format := by
  obtain ⟨i, hi, rfl⟩ := List.mem_iff_getElem.mp h
  have hlength : i < (axisCuts margins format).length := by simpa [axisCuts] using hi
  exact ⟨_, List.mem_iff_getElem.mpr ⟨i, hlength, List.getElem_zip⟩⟩

theorem execute_cropping_ok_iff {margins : List Margin} {format : DataFormat} {layer : String}
    {t u : Tensor} : (cropping margins format).execute layer t = .ok u ↔
      ∃ ranges, keptRanges layer t.shape (axisCuts margins format) = .ok ranges ∧
        t.slice ranges = .ok u := by
  simp only [execute, axisCuts]
  cases keptRanges layer t.shape ((format.spatialAxes margins.length).zip margins) with
  | error e => simp
  | ok ranges => cases hslice : t.slice ranges <;> simp [hslice]

private theorem execute_lambda_shape {function : Tensor → Except Tensor.Fault Tensor} {layer : String}
    {t u : Tensor} (h : (lambda function).execute layer t = .ok u) : u.shape = t.shape := by
  simp only [execute] at h
  split at h
  · cases h
  · split at h
    · rename_i hshape
      cases h
      exact hshape
    · cases h

theorem keptRanges_cons_ok_iff {layer : String} {shape : List Nat} {axis : Nat} {margin : Margin}
    {rest : List (Nat × Margin)} {ranges : List Tensor.Range} :
    keptRanges layer shape ((axis, margin) :: rest) = .ok ranges ↔
      ∃ extent rs, shape[axis]? = some extent ∧ margin.before + margin.after < extent ∧
        keptRanges layer shape rest = .ok rs ∧
        ranges = ⟨axis, margin.before, extent - margin.after⟩ :: rs := by
  simp only [keptRanges]
  cases shape[axis]? with
  | none => simp
  | some extent =>
    by_cases hleft : margin.before + margin.after < extent
    · have hexhausts : margin.exhausts extent = false := by simpa [Margin.exhausts] using hleft
      cases keptRanges layer shape rest <;> simp [hexhausts, hleft, eq_comm]
    · have hexhausts : margin.exhausts extent = true := by simpa [Margin.exhausts] using hleft
      simp [hexhausts, hleft]

theorem mem_keptRanges {layer : String} {shape : List Nat} {cuts : List (Nat × Margin)}
    {ranges : List Tensor.Range} (h : keptRanges layer shape cuts = .ok ranges) :
    ∀ r ∈ ranges, r.start < r.stop ∧ ∃ cut ∈ cuts, r.axis = cut.1 := by
  induction cuts generalizing ranges with
  | nil =>
    cases h
    simp
  | cons cut rest ih =>
    obtain ⟨axis, margin⟩ := cut
    obtain ⟨extent, rs, _, hroom, hrs, rfl⟩ := keptRanges_cons_ok_iff.mp h
    intro r hr
    rcases List.mem_cons.mp hr with rfl | hr
    · have hkept : margin.before < extent - margin.after := by omega
      exact ⟨hkept, _, List.mem_cons_self, rfl⟩
    · obtain ⟨hkept, cut, hcut, haxis⟩ := ih hrs r hr
      exact ⟨hkept, cut, List.mem_cons_of_mem _ hcut, haxis⟩

/-- Inference crops the declared shape step by step, execution reads all extents off the tensor at
first. The steps do not meet, since the axes differ. -/
theorem keptRanges_of_cropShape {layer : String} {batch axis : Nat} {cuts : List (Nat × Margin)}
    {shape current result : List Nat} (hnodup : (cuts.map Prod.fst).Nodup)
    (hbounds : ∀ cut ∈ cuts, 1 ≤ cut.1 ∧ cut.1 < (batch :: current).length)
    (hagree : ∀ cut ∈ cuts, shape[cut.1]? = (batch :: current)[cut.1]?)
    (h : cropShape layer axis (cuts.map fun cut => (cut.1 - 1, cut.2)) current = .ok result) :
    ∃ ranges, keptRanges layer shape cuts = .ok ranges ∧
      ∀ t : Tensor, t.shape = batch :: current →
        ∃ u, t.slice ranges = .ok u ∧ u.shape = batch :: result := by
  induction cuts generalizing axis current with
  | nil =>
    cases h
    exact ⟨[], rfl, fun t ht => ⟨t, rfl, ht⟩⟩
  | cons cut rest ih =>
    obtain ⟨place, margin⟩ := cut
    obtain ⟨hpos, hlt⟩ := hbounds _ List.mem_cons_self
    obtain ⟨axis', rfl⟩ : ∃ n, place = n + 1 := ⟨place - 1, by omega⟩
    have hlt' : axis' < current.length := by simpa using hlt
    have hget : current.getD axis' 0 = current[axis'] := by
      simp [List.getD_eq_getElem?_getD, hlt']
    simp only [List.map_cons, Nat.add_sub_cancel, cropShape_cons_ok_iff, hget] at h
    obtain ⟨hroom, h⟩ := h
    obtain ⟨hfirst, hothers⟩ := List.nodup_cons.mp hnodup
    have hbounds' : ∀ cut ∈ rest, 1 ≤ cut.1 ∧ cut.1 <
        (batch :: current.set axis' (current[axis'] - margin.before - margin.after)).length := by
      intro cut hcut
      simpa using hbounds cut (List.mem_cons_of_mem _ hcut)
    have hagree' : ∀ cut ∈ rest, shape[cut.1]? =
        (batch :: current.set axis' (current[axis'] - margin.before - margin.after))[cut.1]? := by
      intro cut hcut
      have hne : axis' + 1 ≠ cut.1 := fun heq => hfirst (List.mem_map.mpr ⟨cut, hcut, heq.symm⟩)
      rw [hagree cut (List.mem_cons_of_mem _ hcut), ← List.set_cons_succ, List.getElem?_set_ne hne]
    obtain ⟨ranges, hkept, hslice⟩ := ih hothers hbounds' hagree' h
    have hextent : (batch :: current)[axis' + 1]? = some current[axis'] := by simp [hlt']
    refine ⟨⟨axis' + 1, margin.before, current[axis'] - margin.after⟩ :: ranges, ?_, ?_⟩
    · exact keptRanges_cons_ok_iff.mpr
        ⟨_, ranges, (hagree _ List.mem_cons_self).trans hextent, hroom, hkept, rfl⟩
    · intro t ht
      have hle : margin.before ≤ current[axis'] - margin.after := by omega
      obtain ⟨v, hv, hcons⟩ := Tensor.slice_cons ranges (ht ▸ hextent) hle (Nat.sub_le _ _)
      rw [hcons]
      apply hslice
      rw [hv, ht, List.set_cons_succ, Nat.sub_right_comm]

/-- A cropping executes on every batch of tensors of a declared shape that inference accepts. -/
theorem execute_cropping {margins : List Margin} {format : DataFormat} {layer : String}
    {batch : Nat} {shape result : List Nat} {t : Tensor}
    (h : (cropping margins format).outputShape layer shape = .ok result)
    (ht : t.shape = batch :: shape) :
    ∃ ranges u, keptRanges layer t.shape (axisCuts margins format) = .ok ranges ∧
      t.slice ranges = .ok u ∧ (cropping margins format).execute layer t = .ok u ∧
      u.shape = batch :: result := by
  simp only [outputShape] at h
  split at h
  · rename_i hrank
    rw [axisCuts_places] at h
    have hbounds : ∀ cut ∈ axisCuts margins format, 1 ≤ cut.1 ∧ cut.1 < (batch :: shape).length := by
      intro cut hcut
      have := DataFormat.mem_spatialAxes (List.of_mem_zip hcut).1
      rw [List.length_cons, hrank]
      omega
    have hnodup : ((axisCuts margins format).map Prod.fst).Nodup := by
      rw [axisCuts_axes]
      exact format.spatialAxes_nodup _
    obtain ⟨ranges, hkept, hslice⟩ :=
      keptRanges_of_cropShape hnodup hbounds (fun _ _ => by rw [← ht]) h
    obtain ⟨u, hu, hshape⟩ := hslice t ht
    exact ⟨ranges, u, hkept, hu, execute_cropping_ok_iff.mpr ⟨ranges, hkept, hu⟩, hshape⟩
  · cases h

theorem execute_batch {spec : LayerSpec} {layer : String} {t u : Tensor}
    (h : spec.execute layer t = .ok u) : u.shape.head? = t.shape.head? := by
  cases spec with
  | cropping margins format =>
    obtain ⟨ranges, hkept, hu⟩ := execute_cropping_ok_iff.mp h
    apply Tensor.slice_batch hu
    intro r hr
    obtain ⟨_, cut, hcut, haxis⟩ := mem_keptRanges hkept r hr
    exact haxis ▸ (DataFormat.mem_spatialAxes (List.of_mem_zip hcut).1).1
  | lambda function => rw [execute_lambda_shape h]

/-- No layer makes an empty tensor of one that is not empty. -/
theorem execute_positive {spec : LayerSpec} {layer : String} {t u : Tensor}
    (h : spec.execute layer t = .ok u) (hpos : 0 ∉ t.shape) : 0 ∉ u.shape := by
  cases spec with
  | cropping margins format =>
    obtain ⟨ranges, hkept, hu⟩ := execute_cropping_ok_iff.mp h
    exact Tensor.slice_positive hu (fun r hr => (mem_keptRanges hkept r hr).1) hpos
  | lambda function => rwa [execute_lambda_shape h]

end LayerSpec
end LoweringCheck
