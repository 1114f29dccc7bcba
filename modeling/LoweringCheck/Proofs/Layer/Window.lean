import LoweringCheck.Proofs.Layer.Execution
import LoweringCheck.Proofs.Lookup
import LoweringCheck.Proofs.Tensor.Window
/-!
# Croppings show windows

The output of a cropping is the window of its input that begins behind the margins.
-/
namespace LoweringCheck.LayerSpec

/-- How much a layer takes off the start of an axis. -/
def before : LayerSpec → (axis : Nat) → Nat
  | cropping margins format, axis => ((axisCuts margins format).lookup axis).elim 0 Margin.before
  | lambda _, _ => 0

private theorem startOn_keptRanges {layer : String} {shape : List Nat} {cuts : List (Nat × Margin)}
    {ranges : List Tensor.Range} (hnodup : (cuts.map Prod.fst).Nodup)
    (h : keptRanges layer shape cuts = .ok ranges) (axis : Nat) :
    Tensor.startOn ranges axis = (cuts.lookup axis).elim 0 Margin.before := by
  induction cuts generalizing ranges with
  | nil =>
    cases h
    rfl
  | cons cut rest ih =>
    obtain ⟨place, margin⟩ := cut
    obtain ⟨extent, rs, _, _, hrs, rfl⟩ := keptRanges_cons_ok_iff.mp h
    have hnodup' : place ∉ rest.map Prod.fst ∧ (rest.map Prod.fst).Nodup := List.nodup_cons.mp hnodup
    have hrest := ih hnodup'.2 hrs
    have hsum : Tensor.startOn (⟨place, margin.before, extent - margin.after⟩ :: rs) axis =
        (if place = axis then margin.before else 0) + Tensor.startOn rs axis := by
      simp [Tensor.startOn]
    rw [hsum, hrest]
    by_cases haxis : axis = place
    · -- no other cut is on this axis
      subst haxis
      have hnone : rest.lookup axis = none := by
        rw [List.lookup_eq_none_iff]
        intro p hp
        have hne : axis ≠ p.1 := fun heq => hnodup'.1 (heq ▸ List.mem_map_of_mem hp)
        simpa using hne
      simp [hnone]
    · have hne : ¬ place = axis := fun heq => haxis heq.symm
      have hkey : (axis == place) = false := by simpa using haxis
      simp [List.lookup_cons, hkey, hne]

theorem execute_isWindow {margins : List Margin} {format : DataFormat} {layer : String}
    {t u : Tensor} (h : (cropping margins format).execute layer t = .ok u) :
    u.IsWindow t (cropping margins format).before := by
  obtain ⟨ranges, hkept, hu⟩ := execute_cropping_ok_iff.mp h
  have hnodup : ((axisCuts margins format).map Prod.fst).Nodup := by
    rw [axisCuts_axes]
    exact format.spatialAxes_nodup _
  have hstarts : Tensor.startOn ranges = (cropping margins format).before :=
    funext (startOn_keptRanges hnodup hkept)
  rw [← hstarts]
  exact Tensor.slice_isWindow hu

end LoweringCheck.LayerSpec
