import LoweringCheck.Proofs.Binary.Exact
import LoweringCheck.Proofs.Layer.Execution
/-!
# Tensors of small integers

Every floating-point type holds the integers of eight bits exactly, so a tensor of such integers has the
same values in each of these types.
-/
namespace LoweringCheck

open Binary Binary.Format

namespace Scalar
variable {f g : Format} {i : Int}

private theorem convert_small (h : f.Ample) (hfraction : 7 ≤ f.fractionBits)
    (hi : i.natAbs < 256) (g : Format) : (ofInt f i).convert g = ofInt g i := by
  apply convert_ofInt h
  exact Nat.lt_of_lt_of_le hi (Nat.pow_le_pow_right Nat.two_pos (by omega : 8 ≤ f.fractionBits + 1))

private theorem toBrain_small (h : f.Ample) (hfraction : 7 ≤ f.fractionBits)
    (hi : i.natAbs < 256) : (real f (ofInt f i)).toBrain = ofInt brain i := by
  simp only [toBrain]
  split
  · rename_i hdouble
    subst hdouble
    rw [clearLow_ofInt h (by decide) (Nat.lt_trans hi (by decide)), convert_small h hfraction hi]
  · exact convert_small h hfraction hi brain

private theorem toElement_small (hf : f.Ample) (hffraction : 7 ≤ f.fractionBits) (hg : g.Ample)
    (hgfraction : 7 ≤ g.fractionBits) (hi : i.natAbs < 256) {target : DType}
    (htarget : target.isFloat = true) :
    (real f (ofInt f i)).toElement target = (real g (ofInt g i)).toElement target := by
  have hfrom := convert_small hf hffraction hi
  have hto := convert_small hg hgfraction hi
  cases target with
  | f32 => exact (hfrom single).trans (hto single).symm
  | f16 => exact congrArg (convert half) ((hfrom single).trans (hto single).symm)
  | bf16 => exact (toBrain_small hf hffraction hi).trans (toBrain_small hg hgfraction hi).symm
  | f64 => exact (hfrom double).trans (hto double).symm
  | u8 => cases htarget
  | u32 => cases htarget
  | i64 => cases htarget

end Scalar

/-- The element of an integer. -/
def DType.whole (d : DType) (i : Int) : d.Element := DType.f32.cast d (ofInt .single i)

private theorem Scalar.ofElement_whole {d : DType} (hd : d.isFloat = true) {i : Int} (hi : i.natAbs < 256) :
    ∃ f : Format, f.Ample ∧ 7 ≤ f.fractionBits ∧ ofElement d (d.whole i) = real f (ofInt f i) := by
  have hsingle := convert_small (f := single) (by decide) (by decide) hi
  cases d with
  | f32 => exact ⟨single, by decide, by decide, congrArg (real single) (hsingle single)⟩
  | f16 =>
    refine ⟨half, by decide, by decide, congrArg (real half) ?_⟩
    exact (congrArg (convert half) (hsingle single)).trans (hsingle half)
  | bf16 =>
    exact ⟨brain, by decide, by decide,
      congrArg (real brain) (toBrain_small (f := single) (by decide) (by decide) hi)⟩
  | f64 => exact ⟨double, by decide, by decide, congrArg (real double) (hsingle double)⟩
  | u8 => cases hd
  | u32 => cases hd
  | i64 => cases hd

theorem DType.cast_whole {source target : DType} (hsource : source.isFloat = true)
    (htarget : target.isFloat = true) {i : Int} (hi : i.natAbs < 256) :
    source.cast target (source.whole i) = target.whole i := by
  obtain ⟨f, hf, hfraction, hdenotes⟩ := Scalar.ofElement_whole hsource hi
  rw [cast, hdenotes]
  exact Scalar.toElement_small hf hfraction (by decide) (by decide) hi htarget

namespace Grid
variable {α : Type}

private theorem get_mem_cells (g : Grid α) (c : List Nat) (h : Shape.Within g.shape c) :
    g.get c h ∈ g.cells := Array.getElem_mem _

private theorem mem_narrow {g : Grid α} {axis start len extent : Nat} (haxis : g.shape[axis]? = some extent)
    (hroom : start + len ≤ extent) {x : α}
    (h : x ∈ (g.narrow axis start len extent haxis hroom).cells) : x ∈ g.cells := by
  simp only [narrow, tabulate, Array.mem_ofFn] at h
  obtain ⟨i, rfl⟩ := h
  exact g.get_mem_cells _ _

end Grid

namespace Tensor

/-- The elements are small integers. -/
structure Whole (t : Tensor) : Prop where
  isFloat : t.dtype.isFloat = true
  cells : ∀ x ∈ t.grid.cells, ∃ i : Int, i.natAbs < 256 ∧ x = t.dtype.whole i

/-- Casts between floating-point types keep the values of small integers. -/
theorem Whole.values_toDType {t : Tensor} (h : t.Whole) {dtype : DType}
    (hdtype : dtype.isFloat = true) : (t.toDType dtype).values = t.values := by
  rw [toDType]
  split
  · rfl
  · simp only [values, Grid.map, Array.map_map]
    apply Array.map_congr_left
    intro x hx
    obtain ⟨i, hi, rfl⟩ := h.cells x hx
    rw [Function.comp_apply, DType.cast_whole h.isFloat hdtype hi, DType.cast_whole hdtype rfl hi,
      DType.cast_whole h.isFloat rfl hi]

private theorem Whole.slice {t u : Tensor} (h : t.Whole) {ranges : List Range}
    (hu : t.slice ranges = .ok u) : u.Whole := by
  apply slice_induction (P := Whole) hu h
  intro r _ v w hw hv
  obtain ⟨extent, haxis, hroom, rfl⟩ := narrow_ok_iff.mp hw
  exact ⟨hv.isFloat, fun x hx => hv.cells x (Grid.mem_narrow haxis hroom hx)⟩

end Tensor

theorem LayerSpec.execute_whole {margins : List Margin} {format : DataFormat} {layer : String}
    {t u : Tensor} (hu : (cropping margins format).execute layer t = .ok u) (h : t.Whole) :
    u.Whole := by
  obtain ⟨_, _, hslice⟩ := execute_cropping_ok_iff.mp hu
  exact h.slice hslice

end LoweringCheck
