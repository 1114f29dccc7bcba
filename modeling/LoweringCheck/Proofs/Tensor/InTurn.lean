import LoweringCheck.Proofs.Tensor.Distinct
/-!
# Ranges in turn

A slice takes its ranges in turn, each of what the ones before it have left. It goes through if every range
lies in that, whether the axes are distinct or not, and stops at the first range that does not.
-/
namespace LoweringCheck.Tensor
variable {t u v : Tensor} {earlier later ranges : List Range} {r : Range}

/-- The range lies in what the earlier ones leave of the shape. -/
def Range.FitsAfter (earlier : List Range) (shape : List Nat) (r : Range) : Prop :=
  ∃ extent, shape[r.axis]? = some extent ∧ r.start ≤ r.stop ∧ r.stop ≤ leftOn earlier r.axis extent

/-- Every range lies in what the ones before it leave of the shape. -/
def FitInTurn (ranges : List Range) (shape : List Nat) : Prop :=
  ∀ earlier r later, ranges = earlier ++ r :: later → r.FitsAfter earlier shape

theorem slice_append_ok_iff :
    t.slice (earlier ++ later) = .ok u ↔ ∃ v, t.slice earlier = .ok v ∧ v.slice later = .ok u := by
  induction earlier generalizing t with
  | nil => simp [slice]
  | cons r rest ih =>
    simp only [List.cons_append, slice_cons_ok_iff, ih]
    constructor
    · rintro ⟨hle, v, hv, w, hw, hu⟩
      exact ⟨w, ⟨hle, v, hv, hw⟩, hu⟩
    · rintro ⟨w, ⟨hle, v, hv, hw⟩, hu⟩
      exact ⟨hle, v, hv, w, hw, hu⟩

private theorem fitsAfter_iff_fits (h : t.slice earlier = .ok v) :
    r.FitsAfter earlier t.shape ↔ r.Fits v.shape := by
  simp only [Range.FitsAfter, Range.Fits, slice_extent h, Option.map_eq_some_iff]
  constructor
  · rintro ⟨extent, haxis, hle, hroom⟩
    exact ⟨_, ⟨extent, haxis, rfl⟩, hle, hroom⟩
  · rintro ⟨_, ⟨extent, haxis, rfl⟩, hle, hroom⟩
    exact ⟨extent, haxis, hle, hroom⟩

private theorem slice_cons_of_fits (h : r.Fits t.shape) :
    ∃ v : Tensor, ∀ rest, t.slice (r :: rest) = v.slice rest := by
  obtain ⟨extent, haxis, hle, hroom⟩ := h
  have hroom' : r.start + (r.stop - r.start) ≤ extent := by omega
  refine ⟨⟨t.dtype, t.grid.narrow r.axis r.start (r.stop - r.start) extent haxis hroom'⟩, fun rest => ?_⟩
  rw [slice, if_neg (Nat.not_lt.mpr hle), narrow_eq_ok haxis hroom']

/-- A slice that does not go through stops at a range that does not lie in what is left. -/
theorem slice_ok_or_stops (t : Tensor) (ranges : List Range) :
    (∃ u, t.slice ranges = .ok u) ∨ ∃ earlier r later v, ranges = earlier ++ r :: later ∧
      t.slice earlier = .ok v ∧ ¬ r.Fits v.shape ∧ t.slice ranges = v.slice (r :: later) := by
  induction ranges generalizing t with
  | nil => exact .inl ⟨t, rfl⟩
  | cons r rest ih =>
    by_cases hfits : r.Fits t.shape
    · obtain ⟨v, hv⟩ := slice_cons_of_fits hfits
      rcases ih v with hok | ⟨earlier, s, later, w, rfl, hw, hs, hstop⟩
      · exact .inl (hv rest ▸ hok)
      · exact .inr ⟨r :: earlier, s, later, w, rfl, (hv earlier).trans hw, hs, (hv _).trans hstop⟩
    · exact .inr ⟨[], r, rest, t, rfl, rfl, hfits, rfl⟩

theorem exists_slice_iff_fitInTurn : (∃ u, t.slice ranges = .ok u) ↔ FitInTurn ranges t.shape := by
  constructor
  · rintro ⟨u, hu⟩ earlier r later rfl
    obtain ⟨v, hv, hlater⟩ := slice_append_ok_iff.mp hu
    exact (fitsAfter_iff_fits hv).mpr (slice_cons_ok_iff_fits.mp hlater).1
  · intro hfit
    rcases slice_ok_or_stops t ranges with hok | ⟨earlier, r, later, v, hranges, hv, hr, _⟩
    · exact hok
    · exact absurd ((fitsAfter_iff_fits hv).mp (hfit earlier r later hranges)) hr

private theorem slice_cons_exceeding {left : Nat} (hextent : t.shape[r.axis]? = some left)
    (hle : r.start ≤ r.stop) (hless : left < r.stop) (later : List Range) :
    t.slice (r :: later) = .error (.rangeExceedsAxis r.start r.stop r.axis left) := by
  have hnoRoom : ¬ r.start + (r.stop - r.start) ≤ left := by omega
  rw [slice, if_neg (Nat.not_lt.mpr hle), narrow_of_no_room hextent hnoRoom, Nat.add_sub_of_le hle]

/-- Ranges that each lie in the tensor itself are refused for one reason only: an earlier range on the same
axis has left less than a later one asks for. -/
theorem slice_ok_or_exceeds (hfits : ∀ r ∈ ranges, r.Fits t.shape) :
    FitInTurn ranges t.shape ∧ (∃ u, t.slice ranges = .ok u) ∨
      ∃ earlier r later extent, ranges = earlier ++ r :: later ∧ FitInTurn earlier t.shape ∧
        r.axis ∈ earlier.map Range.axis ∧ t.shape[r.axis]? = some extent ∧
        leftOn earlier r.axis extent < r.stop ∧
        t.slice ranges =
          .error (.rangeExceedsAxis r.start r.stop r.axis (leftOn earlier r.axis extent)) := by
  rcases slice_ok_or_stops t ranges with hok | ⟨earlier, r, later, v, hranges, hv, hr, hstop⟩
  · exact .inl ⟨exists_slice_iff_fitInTurn.mp hok, hok⟩
  · obtain ⟨extent, haxis, hle, hroom⟩ := hfits r (hranges ▸ List.mem_append_right _ List.mem_cons_self)
    have hleft : v.shape[r.axis]? = some (leftOn earlier r.axis extent) := by
      rw [slice_extent hv, haxis, Option.map_some]
    have hless : leftOn earlier r.axis extent < r.stop := by
      rw [← Nat.not_le]
      exact fun hle' => hr ⟨_, hleft, hle, hle'⟩
    have hagain : r.axis ∈ earlier.map Range.axis := by
      by_contra hfresh
      rw [leftOn_of_not_mem hfresh] at hless
      omega
    exact .inr ⟨earlier, r, later, extent, hranges, exists_slice_iff_fitInTurn.mp ⟨v, hv⟩, hagain, haxis,
      hless, hstop.trans (slice_cons_exceeding hleft hle hless later)⟩

end LoweringCheck.Tensor
