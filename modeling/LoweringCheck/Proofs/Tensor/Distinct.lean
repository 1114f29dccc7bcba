import Mathlib.Algebra.BigOperators.Group.List.Basic
import Mathlib.Data.List.Nodup
import LoweringCheck.Proofs.Tensor.Window
/-!
# Slices of distinct axes

Ranges on distinct axes do not meet: each is taken of the extent that its axis has in the whole tensor, and
any order of them leaves the same window.
-/
namespace LoweringCheck

private theorem Grid.ext_get {α : Type} {g k : Grid α} (hshape : g.shape = k.shape)
    (hget : ∀ c hg hk, g.get c hg = k.get c hk) : g = k := by
  obtain ⟨shape, cells, hsize⟩ := g
  obtain ⟨shape', cells', hsize'⟩ := k
  cases hshape
  have hcells : cells = cells' := by
    apply Array.ext (hsize.trans hsize'.symm)
    intro i hi hi'
    have hvolume : i < Shape.volume shape := hsize ▸ hi
    have hwithin := Shape.coordinate_within hvolume
    simpa only [get, Shape.offset_coordinate hvolume] using hget _ hwithin hwithin
  cases hcells
  rfl

namespace Tensor

theorem IsWindow.unique {t u v : Tensor} {amounts : Nat → Nat} (hu : u.IsWindow t amounts)
    (hv : v.IsWindow t amounts) (hshape : u.shape = v.shape) : u = v := by
  obtain ⟨g, rfl, hg⟩ := hu
  obtain ⟨k, rfl, hk⟩ := hv
  have heq : g = k := by
    apply Grid.ext_get hshape
    intro c hwithin hwithin'
    obtain ⟨_, hfirst⟩ := hg c hwithin
    obtain ⟨_, hsecond⟩ := hk c hwithin'
    exact hfirst.trans hsecond.symm
  rw [heq]

/-- The range lies on an axis of the shape. -/
def Range.Fits (r : Range) (shape : List Nat) : Prop :=
  ∃ extent, shape[r.axis]? = some extent ∧ r.start ≤ r.stop ∧ r.stop ≤ extent

theorem Range.fits_set_iff {r : Range} {axis : Nat} (hne : r.axis ≠ axis) (shape : List Nat)
    (extent : Nat) : r.Fits (shape.set axis extent) ↔ r.Fits shape := by
  simp only [Fits, List.getElem?_set_ne hne.symm]

/-- The first range of a slice lies in the tensor, and the others are taken of what it leaves. -/
theorem slice_cons_ok_iff_fits {t u : Tensor} {r : Range} {rest : List Range} :
    t.slice (r :: rest) = .ok u ↔ r.Fits t.shape ∧
      ∃ v : Tensor, t.narrow r.axis r.start (r.stop - r.start) = .ok v ∧
        v.shape = t.shape.set r.axis (r.stop - r.start) ∧ v.slice rest = .ok u := by
  rw [slice_cons_ok_iff]
  constructor
  · rintro ⟨hle, v, hv, hrest⟩
    obtain ⟨extent, haxis, hroom, rfl⟩ := narrow_ok_iff.mp hv
    exact ⟨⟨extent, haxis, hle, by omega⟩, _, hv, rfl, hrest⟩
  · rintro ⟨⟨_, _, hle, _⟩, v, hv, _, hrest⟩
    exact ⟨hle, v, hv, hrest⟩

variable {t u : Tensor} {ranges others : List Range}

/-- Ranges on distinct axes can be taken if each lies in the whole tensor. -/
theorem exists_slice_iff_fits (hdistinct : (ranges.map Range.axis).Nodup) :
    (∃ u, t.slice ranges = .ok u) ↔ ∀ r ∈ ranges, r.Fits t.shape := by
  induction ranges generalizing t with
  | nil => simp [slice]
  | cons r rest ih =>
    obtain ⟨hfresh, hrest⟩ := List.nodup_cons.mp hdistinct
    -- the first range leaves the axes of the others as they are
    have hkept : ∀ s ∈ rest, s.Fits (t.shape.set r.axis (r.stop - r.start)) ↔ s.Fits t.shape :=
      fun s hs => Range.fits_set_iff (Range.axis_ne hfresh hs) _ _
    rw [List.forall_mem_cons]
    constructor
    · rintro ⟨u, hu⟩
      obtain ⟨hr, v, _, hshape, hv⟩ := slice_cons_ok_iff_fits.mp hu
      have hfits := (ih hrest).mp ⟨u, hv⟩
      exact ⟨hr, fun s hs => (hkept s hs).mp (hshape ▸ hfits s hs)⟩
    · rintro ⟨hr, hfits⟩
      obtain ⟨extent, haxis, hle, hroom⟩ := hr
      obtain ⟨v, hshape, hslice⟩ := slice_cons rest haxis hle hroom
      obtain ⟨u, hu⟩ := (ih (t := v) hrest).mpr fun s hs => hshape ▸ (hkept s hs).mpr (hfits s hs)
      exact ⟨u, hslice.trans hu⟩

theorem slice_shape_of_mem (h : t.slice ranges = .ok u) (hdistinct : (ranges.map Range.axis).Nodup)
    {r : Range} (hr : r ∈ ranges) : u.shape[r.axis]? = some (r.stop - r.start) := by
  induction ranges generalizing t with
  | nil => cases hr
  | cons first rest ih =>
    obtain ⟨hfresh, hrest⟩ := List.nodup_cons.mp hdistinct
    obtain ⟨⟨extent, haxis, _⟩, v, _, hshape, hv⟩ := slice_cons_ok_iff_fits.mp h
    rcases List.mem_cons.mp hr with rfl | hmem
    · rw [slice_shape_of_not_mem hv hfresh, hshape,
        List.getElem?_set_self (List.getElem?_eq_some_iff.mp haxis).1]
    · exact ih hv hrest hmem

theorem startOn_of_not_mem {axis : Nat} (haxis : axis ∉ ranges.map Range.axis) :
    startOn ranges axis = 0 := by
  apply List.sum_eq_zero
  intro amount hamount
  obtain ⟨r, hr, rfl⟩ := List.mem_map.mp hamount
  exact if_neg (Range.axis_ne haxis hr)

theorem startOn_of_mem (hdistinct : (ranges.map Range.axis).Nodup) {r : Range} (hr : r ∈ ranges) :
    startOn ranges r.axis = r.start := by
  induction ranges with
  | nil => cases hr
  | cons first rest ih =>
    obtain ⟨hfresh, hrest⟩ := List.nodup_cons.mp hdistinct
    have hcons : startOn (first :: rest) r.axis =
        (if first.axis = r.axis then first.start else 0) + startOn rest r.axis := by
      simp [startOn]
    rcases List.mem_cons.mp hr with rfl | hmem
    · rw [hcons, if_pos rfl, startOn_of_not_mem hfresh, Nat.add_zero]
    · rw [hcons, if_neg (Range.axis_ne hfresh hmem).symm, Nat.zero_add, ih hrest hmem]

theorem slice_perm (hperm : others.Perm ranges) (hdistinct : (ranges.map Range.axis).Nodup)
    (h : t.slice ranges = .ok u) : t.slice others = .ok u := by
  have hdistinct' : (others.map Range.axis).Nodup := (hperm.map _).nodup_iff.mpr hdistinct
  have hfits := (exists_slice_iff_fits hdistinct).mp ⟨u, h⟩
  obtain ⟨v, hv⟩ := (exists_slice_iff_fits hdistinct').mpr fun r hr => hfits r (hperm.mem_iff.mp hr)
  -- a window is fixed by its start and its shape, and the order of the ranges enters into neither
  have hstarts : startOn others = startOn ranges := funext fun axis => (hperm.map _).sum_eq
  have hshape : v.shape = u.shape := by
    apply List.ext_getElem?
    intro axis
    by_cases hmem : axis ∈ ranges.map Range.axis
    · obtain ⟨r, hr, rfl⟩ := List.mem_map.mp hmem
      rw [slice_shape_of_mem h hdistinct hr, slice_shape_of_mem hv hdistinct' (hperm.mem_iff.mpr hr)]
    · have hmem' : axis ∉ others.map Range.axis := fun hin => hmem ((hperm.map _).mem_iff.mp hin)
      rw [slice_shape_of_not_mem h hmem, slice_shape_of_not_mem hv hmem']
  have heq : v = u := IsWindow.unique (hstarts ▸ slice_isWindow hv) (slice_isWindow h) hshape
  rw [hv, heq]

end Tensor
end LoweringCheck
