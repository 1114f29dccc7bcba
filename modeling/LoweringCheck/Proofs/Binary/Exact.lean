import Mathlib.Data.Nat.Log
import Mathlib.Tactic.Ring
import LoweringCheck.Binary.Convert
/-!
# Exact values

A magnitude with no more significant bits than the fraction holds is not rounded, so small integers go
from format to format unchanged.
-/
namespace LoweringCheck.Binary

private theorem roundQuotient_mul (q : Nat) {den : Nat} (h : 0 < den) :
    roundQuotient (q * den) den = q := by
  simp [roundQuotient, Nat.mul_div_cancel q h, h]

private theorem roundQuotient_scale {k : Nat} (h : 0 < k) (num den : Nat) :
    roundQuotient (k * num) (k * den) = roundQuotient num den := by
  simp only [roundQuotient, Nat.mul_div_mul_left _ _ h, Nat.mul_mod_mul_left, Nat.mul_left_comm 2 k,
    Nat.mul_lt_mul_left h]

namespace Format
variable {f : Format}

private theorem places_eq (f : Format) :
    f.places = 2 ^ (f.exponentBits - 1) - 2 + f.fractionBits := rfl

private theorem infinity_eq (f : Format) : f.infinity = (2 ^ f.exponentBits - 1) * 2 ^ f.fractionBits := rfl

theorem grains_eq (f : Format) (code : Nat) :
    f.grains code = (code - (code / 2 ^ f.fractionBits - 1) * 2 ^ f.fractionBits) *
      2 ^ (code / 2 ^ f.fractionBits - 1) := rfl

theorem nearest_eq (f : Format) (num den : Nat) :
    f.nearest num den = ((num / den).log2 - f.fractionBits) * 2 ^ f.fractionBits +
      roundQuotient num (den * 2 ^ ((num / den).log2 - f.fractionBits)) := rfl

theorem nearest_scale (f : Format) {k : Nat} (h : 0 < k) (num den : Nat) :
    f.nearest (k * num) (k * den) = f.nearest num den := by
  simp only [nearest_eq, Nat.mul_div_mul_left _ _ h, Nat.mul_assoc k, roundQuotient_scale h]

/-- The exponents reach as far as the fraction has bits. -/
structure Ample (f : Format) : Prop where
  exponent : 2 ≤ f.exponentBits
  fraction : f.fractionBits < 2 ^ (f.exponentBits - 1)

instance (f : Format) : Decidable f.Ample :=
  decidable_of_iff (2 ≤ f.exponentBits ∧ f.fractionBits < 2 ^ (f.exponentBits - 1))
    ⟨fun h => ⟨h.1, h.2⟩, fun h => ⟨h.exponent, h.fraction⟩⟩

private theorem Ample.twice (h : f.Ample) : 2 ^ f.exponentBits = 2 * 2 ^ (f.exponentBits - 1) := by
  have hpos := h.exponent
  rw [← Nat.pow_succ', Nat.succ_eq_add_one, Nat.sub_add_cancel (by omega)]

private theorem log2_mul_two_pow {m : Nat} (hm : m ≠ 0) (s : Nat) : (m * 2 ^ s).log2 = m.log2 + s := by
  have hpos : 0 < 2 ^ s := Nat.two_pow_pos s
  have hne : m * 2 ^ s ≠ 0 := Nat.mul_ne_zero hm hpos.ne'
  apply (Nat.log2_eq_iff hne).mpr
  rw [Nat.pow_add, show m.log2 + s + 1 = (m.log2 + 1) + s by omega, Nat.pow_add]
  exact ⟨Nat.mul_le_mul_right _ (Nat.log2_self_le hm),
    Nat.mul_lt_mul_of_pos_right Nat.lt_log2_self hpos⟩

theorem grains_shift {shift digits : Nat} (hhigh : digits < 2 ^ (f.fractionBits + 1))
    (hlow : shift = 0 ∨ 2 ^ f.fractionBits ≤ digits) :
    f.grains (shift * 2 ^ f.fractionBits + digits) = digits * 2 ^ shift := by
  have hpos : 0 < 2 ^ f.fractionBits := Nat.two_pow_pos _
  have hquotient : digits / 2 ^ f.fractionBits < 2 := by
    rw [Nat.div_lt_iff_lt_mul hpos, ← Nat.pow_succ']
    exact hhigh
  have hshift : (shift * 2 ^ f.fractionBits + digits) / 2 ^ f.fractionBits - 1 = shift := by
    rw [Nat.add_comm, Nat.add_mul_div_right _ _ hpos]
    rcases hlow with rfl | hlow
    · omega
    · have : 1 ≤ digits / 2 ^ f.fractionBits := (Nat.one_le_div_iff hpos).mpr hlow
      omega
  simp only [grains_eq, hshift, Nat.add_sub_cancel_left]

private theorem nearest_exact {m s : Nat} (hm : m < 2 ^ (f.fractionBits + 1)) :
    ∃ shift ≤ s, f.nearest (m * 2 ^ s) 1 = shift * 2 ^ f.fractionBits + m * 2 ^ (s - shift) ∧
      m * 2 ^ (s - shift) < 2 ^ (f.fractionBits + 1) ∧
      (shift = 0 ∨ 2 ^ f.fractionBits ≤ m * 2 ^ (s - shift)) := by
  rcases Nat.eq_zero_or_pos m with rfl | hpos
  · exact ⟨0, Nat.zero_le s, by simp [nearest_eq, roundQuotient], by simp, .inl rfl⟩
  · have hlog : m.log2 < f.fractionBits + 1 := (Nat.log2_lt hpos.ne').mpr hm
    obtain ⟨shift, hshift⟩ : ∃ shift, shift = m.log2 + s - f.fractionBits := ⟨_, rfl⟩
    have hsplit : m * 2 ^ s = m * 2 ^ (s - shift) * 2 ^ shift := by
      rw [Nat.mul_assoc, ← Nat.pow_add, Nat.sub_add_cancel (by omega)]
    have hdigits : m * 2 ^ (s - shift) ≠ 0 :=
      Nat.mul_ne_zero hpos.ne' (Nat.two_pow_pos _).ne'
    have hwidth := log2_mul_two_pow hpos.ne' (s - shift)
    refine ⟨shift, by omega, ?_, (Nat.log2_lt hdigits).mp (by omega), ?_⟩
    · rw [nearest_eq, Nat.div_one, log2_mul_two_pow hpos.ne', ← hshift, Nat.one_mul, hsplit,
        roundQuotient_mul _ (Nat.two_pow_pos shift)]
    · rcases Nat.eq_zero_or_pos shift with hzero | hshifted
      · exact .inl hzero
      · exact .inr ((Nat.le_log2 hdigits).mp (by omega))

theorem grains_nearest {m s : Nat} (hm : m < 2 ^ (f.fractionBits + 1)) :
    f.grains (f.nearest (m * 2 ^ s) 1) = m * 2 ^ s := by
  obtain ⟨shift, hshift, hcode, hhigh, hlow⟩ := nearest_exact (s := s) hm
  rw [hcode, grains_shift hhigh hlow, Nat.mul_assoc, ← Nat.pow_add, Nat.sub_add_cancel hshift]

private theorem dvd_nearest {m s bits : Nat} (hbits : bits ≤ f.fractionBits) (hs : f.fractionBits ≤ s)
    (hm : m < 2 ^ (f.fractionBits + 1 - bits)) : 2 ^ bits ∣ f.nearest (m * 2 ^ s) 1 := by
  have hwide : m < 2 ^ (f.fractionBits + 1) :=
    Nat.lt_of_lt_of_le hm (Nat.pow_le_pow_right Nat.two_pos (Nat.sub_le _ _))
  obtain ⟨shift, hshift, hcode, -, hlow⟩ := nearest_exact (s := s) hwide
  have hleft : bits ≤ s - shift := by
    rcases hlow with rfl | hlow
    · omega
    · have hpow : 2 ^ f.fractionBits < 2 ^ (f.fractionBits + 1 - bits + (s - shift)) := by
        rw [Nat.pow_add]
        exact Nat.lt_of_le_of_lt hlow (Nat.mul_lt_mul_of_pos_right hm (Nat.two_pow_pos _))
      have := (Nat.pow_lt_pow_iff_right (by decide)).mp hpow
      omega
  rw [hcode]
  exact Nat.dvd_add (Nat.dvd_mul_left_of_dvd (Nat.pow_dvd_pow 2 hbits) shift)
    (Nat.dvd_mul_left_of_dvd (Nat.pow_dvd_pow 2 hleft) m)

/-- A number of few significant bits is finite unless it is shifted past the last exponent. -/
theorem nearest_shifted_lt_infinity {m s : Nat} (hm : m < 2 ^ (f.fractionBits + 1))
    (hs : s + 2 < 2 ^ f.exponentBits) : f.nearest (m * 2 ^ s) 1 < f.infinity := by
  obtain ⟨shift, hshift, hcode, hhigh, -⟩ := nearest_exact (s := s) hm
  rw [hcode, infinity_eq]
  calc shift * 2 ^ f.fractionBits + m * 2 ^ (s - shift)
      < shift * 2 ^ f.fractionBits + 2 * 2 ^ f.fractionBits := by rw [← Nat.pow_succ']; omega
    _ = (shift + 2) * 2 ^ f.fractionBits := (Nat.add_mul _ _ _).symm
    _ ≤ (2 ^ f.exponentBits - 1) * 2 ^ f.fractionBits := Nat.mul_le_mul_right _ (by omega)

private theorem nearest_lt_infinity (h : f.Ample) {m : Nat} (hm : m < 2 ^ (f.fractionBits + 1)) :
    f.nearest (m * 2 ^ f.places) 1 < f.infinity := by
  have htwice := h.twice
  have hroom : 2 ≤ 2 ^ (f.exponentBits - 1) :=
    Nat.le_self_pow (Nat.sub_ne_zero_of_lt h.exponent) 2
  have hfraction := h.fraction
  exact nearest_shifted_lt_infinity hm (by rw [places_eq]; omega)

end Format

/-- An integer that a format holds exactly is the same value in every other format. -/
theorem convert_ofInt {f : Format} (h : f.Ample) (g : Format) {i : Int}
    (hi : i.natAbs < 2 ^ (f.fractionBits + 1)) : (ofInt f i).convert g = ofInt g i := by
  by_cases hformat : f = g
  · subst hformat
    exact dif_pos rfl
  · have hcode := Format.nearest_lt_infinity h hi
    rw [ofInt, ofGrains, ofCode, convert, dif_neg hformat]
    simp only [Nat.pow_eq, Nat.min_eq_left hcode.le, if_neg hcode.ne, Format.grains_nearest hi]
    have hscale := g.nearest_scale (Nat.two_pow_pos f.places) (i.natAbs * 2 ^ g.places) 1
    rw [Nat.mul_one, Nat.mul_left_comm, ← Nat.mul_assoc] at hscale
    rw [ofInt, ofGrains, ofGrains, Nat.pow_eq, hscale]

theorem clearLow_ofInt {f : Format} (h : f.Ample) {bits : Nat} (hbits : bits ≤ f.fractionBits)
    {i : Int} (hi : i.natAbs < 2 ^ (f.fractionBits + 1 - bits)) :
    (ofInt f i).clearLow bits = ofInt f i := by
  have hwide : i.natAbs < 2 ^ (f.fractionBits + 1) :=
    Nat.lt_of_lt_of_le hi (Nat.pow_le_pow_right Nat.two_pos (Nat.sub_le _ _))
  have hcode := Format.nearest_lt_infinity h hwide
  have hplaces : f.fractionBits ≤ f.places := Nat.le_add_left _ _
  have hclear := Format.dvd_nearest hbits hplaces hi
  rw [ofInt, ofGrains, ofCode, clearLow]
  simp only [Nat.pow_eq, Nat.min_eq_left hcode.le]
  rw [Nat.mod_eq_zero_of_dvd hclear, Nat.sub_zero, ofCode]
  simp only [Nat.min_eq_left hcode.le]

end LoweringCheck.Binary
