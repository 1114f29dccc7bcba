import LoweringCheck.Proofs.Equivalence.Stages
import LoweringCheck.Proofs.Tensor.Whole
/-!
# Generated inputs

Whatever the seed is, inputs are generated for all parameters that are accepted, and hold small integers.
-/
namespace LoweringCheck

namespace Random.Stream
variable {low : Int} {width : Nat}

private theorem scale?_range {w : UInt32} {i : Int} (hwidth : 0 < width) (h : scale? low width w = some i) :
    low ≤ i ∧ i < low + width := by
  simp only [scale?, Option.ite_none_right_eq_some, Option.some.injEq] at h
  obtain ⟨-, rfl⟩ := h
  have hproduct : w.toNat * width < width * 2 ^ 32 := by
    rw [Nat.mul_comm]
    exact Nat.mul_lt_mul_of_pos_left w.toNat_lt hwidth
  have hquotient : w.toNat * width / 2 ^ 32 < width :=
    (Nat.div_lt_iff_lt_mul (Nat.two_pow_pos 32)).mpr hproduct
  omega

theorem search_range (hwidth : 0 < width) (fuel : Nat) (s : Stream) :
    low ≤ (search low width fuel s).1 ∧ (search low width fuel s).1 < low + width := by
  induction fuel generalizing s with
  | zero =>
    rw [search]
    omega
  | succ fuel ih =>
    rw [search]
    dsimp only
    split
    · rename_i i hi
      exact scale?_range hwidth hi
    · exact ih _

private theorem draws_range (low : Int) (hwidth : 0 < width) (n : Nat) (s : Stream) :
    (s.draws low width n).1.length = n ∧
      ∀ i ∈ (s.draws low width n).1, low ≤ i ∧ i < low + width := by
  induction n generalizing s with
  | zero => simp [draws]
  | succ n ih =>
    obtain ⟨hlength, hrange⟩ := ih (s.draw low width).2
    simp only [draws, List.length_cons, List.mem_cons]
    refine ⟨congrArg Nat.succ hlength, ?_⟩
    rintro i (rfl | hi)
    · exact search_range hwidth _ s
    · exact hrange i hi

end Random.Stream

theorem drawValues_whole (count : Nat) (s : Random.Stream) :
    (drawValues count s).1.length = count ∧
      ∀ x ∈ (drawValues count s).1, ∃ i : Int, i.natAbs < 256 ∧ x = Binary.ofInt .single i := by
  obtain ⟨hlength, hrange⟩ :=
    Random.Stream.draws_range (-255) (by decide : 0 < 510) count s
  refine ⟨by rw [drawValues, List.length_map, hlength], ?_⟩
  simp only [drawValues, List.mem_map]
  rintro x ⟨i, hi, rfl⟩
  have := hrange i hi
  exact ⟨i, by omega, rfl⟩

/-- Inputs are generated, and in floating-point types they are whole. -/
theorem fillInputs_total (specs : List InputSpec) (s : Random.Stream) :
    ∃ inputs, fillInputs specs s = .ok inputs ∧
      ((∀ spec ∈ specs, spec.dtype.isFloat = true) → ∀ t ∈ inputs, t.Whole) := by
  induction specs generalizing s with
  | nil => exact ⟨[], rfl, by simp⟩
  | cons spec rest ih =>
    obtain ⟨hlength, hwhole⟩ := drawValues_whole (Shape.volume spec.shape) s
    obtain ⟨ts, hts, hall⟩ := ih (drawValues (Shape.volume spec.shape) s).2
    have hsize : (drawValues (Shape.volume spec.shape) s).1.toArray.size =
        Shape.volume spec.shape := by rw [List.size_toArray, hlength]
    simp only [fillInputs, Tensor.ofValues, dif_pos hsize, hts]
    refine ⟨_, rfl, ?_⟩
    intro hfloat t ht
    rcases List.mem_cons.mp ht with rfl | ht
    · refine ⟨hfloat spec List.mem_cons_self, fun x hx => ?_⟩
      obtain ⟨y, hy, rfl⟩ := Array.mem_map.mp hx
      obtain ⟨i, hi, rfl⟩ := hwhole y (List.mem_toArray.mp hy)
      exact ⟨i, hi, rfl⟩
    · exact hall (fun k hk => hfloat k (List.mem_cons_of_mem _ hk)) t ht

theorem generateInputs_total (specs : List InputSpec) (seed : UInt64) :
    ∃ inputs, generateInputs specs seed = .ok inputs := by
  obtain ⟨inputs, hinputs, -⟩ := fillInputs_total specs (.ofSeed seed)
  exact ⟨inputs, hinputs⟩

theorem generateInputs_whole {p : CaseParams} (hzipped : p.Zipped) (hcheck : p.check = .ok ())
    (seed : UInt64) : ∃ inputs, generateInputs p.specs seed = .ok inputs ∧ ∀ t ∈ inputs, t.Whole := by
  obtain ⟨_, _, _, hfloat⟩ := CaseParams.check_eq_ok hcheck
  obtain ⟨inputs, hinputs, hwhole⟩ := fillInputs_total p.specs (.ofSeed seed)
  exact ⟨inputs, hinputs, hwhole fun spec hspec => hzipped.dtype_eq hspec ▸ hfloat⟩

end LoweringCheck
