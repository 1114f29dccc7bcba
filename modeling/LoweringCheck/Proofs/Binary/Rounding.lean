import LoweringCheck.Proofs.Binary.Exact
/-!
# Rounding intervals

A number is rounded to a magnitude if it lies between the midpoints to the neighbours of that, and also at
a midpoint if the code of the magnitude is even.
-/
namespace LoweringCheck.Binary

/-- What is no further than one half from a natural number is rounded to it, one half itself only if the
number is even. -/
theorem roundQuotient_eq {num den d : Nat} (hlow : 2 * (d * den) ≤ 2 * num + den)
    (hhigh : 2 * num ≤ 2 * (d * den) + den)
    (htie : d % 2 = 0 ∨ 2 * (d * den) < 2 * num + den ∧ 2 * num < 2 * (d * den) + den)
    (hden : 0 < den) : roundQuotient num den = d := by
  obtain ⟨q, hq⟩ : ∃ q, num / den = q := ⟨_, rfl⟩
  obtain ⟨r, hr⟩ : ∃ r, num % den = r := ⟨_, rfl⟩
  have hnum : num = q * den + r := by rw [← hq, ← hr, Nat.mul_comm, Nat.div_add_mod]
  have hrest : r < den := hr ▸ Nat.mod_lt num hden
  rw [roundQuotient, hq, hr]
  rcases Nat.lt_trichotomy d q with hless | rfl | hmore
  · have hstep := Nat.mul_le_mul_right den hless
    rw [Nat.succ_mul] at hstep
    omega
  · split_ifs <;> omega
  · have hstep := Nat.mul_le_mul_right den hmore
    rw [Nat.succ_mul] at hstep
    obtain rfl : d = q + 1 := by
      by_contra hne
      have hfar := Nat.mul_le_mul_right den (show q + 2 ≤ d by omega)
      rw [Nat.add_mul] at hfar
      omega
    split_ifs <;> omega

namespace Format
variable {f : Format} {num den : Nat}

/-- A code read as digits in front of a power of two; only magnitudes without one have few digits. -/
theorem exists_digits (f : Format) (code : Nat) :
    ∃ shift digits, code = shift * 2 ^ f.fractionBits + digits ∧ digits < 2 ^ (f.fractionBits + 1) ∧
      (shift = 0 ∨ 2 ^ f.fractionBits ≤ digits) := by
  have hpos : 0 < 2 ^ f.fractionBits := Nat.two_pow_pos _
  have hcode := Nat.div_add_mod' code (2 ^ f.fractionBits)
  have hrest := Nat.mod_lt code hpos
  have htwice : 2 ^ (f.fractionBits + 1) = 2 * 2 ^ f.fractionBits := Nat.pow_succ'
  cases hquotient : code / 2 ^ f.fractionBits with
  | zero =>
    rw [hquotient] at hcode
    exact ⟨0, code, by omega, by omega, .inl rfl⟩
  | succ shift =>
    rw [hquotient, Nat.succ_mul] at hcode
    exact ⟨shift, 2 ^ f.fractionBits + code % 2 ^ f.fractionBits, by omega, by omega, .inr (by omega)⟩

theorem grains_succ {shift digits : Nat} (hhigh : digits < 2 ^ (f.fractionBits + 1))
    (hlow : shift = 0 ∨ 2 ^ f.fractionBits ≤ digits) :
    f.grains (shift * 2 ^ f.fractionBits + digits + 1) = (digits + 1) * 2 ^ shift := by
  rcases Nat.lt_or_ge (digits + 1) (2 ^ (f.fractionBits + 1)) with hsmall | hlarge
  · rw [Nat.add_assoc, grains_shift hsmall (hlow.imp_right Nat.le_succ_of_le)]
  · -- the next magnitude begins with another power of two
    have htwice : 2 ^ (f.fractionBits + 1) = 2 * 2 ^ f.fractionBits := Nat.pow_succ'
    have hdigits : digits + 1 = 2 * 2 ^ f.fractionBits := by omega
    have hcode : shift * 2 ^ f.fractionBits + digits + 1 =
        (shift + 1) * 2 ^ f.fractionBits + 2 ^ f.fractionBits := by
      rw [Nat.succ_mul]
      omega
    rw [hcode, grains_shift (by omega) (.inr (Nat.le_refl _)), hdigits, Nat.pow_succ]
    ring

private theorem grains_pred {shift digits : Nat} (hhigh : digits < 2 ^ (f.fractionBits + 1))
    (hlow : shift = 0 ∨ 2 ^ f.fractionBits < digits) (hpos : 0 < digits) :
    f.grains (shift * 2 ^ f.fractionBits + digits - 1) = (digits - 1) * 2 ^ shift := by
  rw [Nat.add_sub_assoc hpos, grains_shift (by omega) (hlow.imp_right Nat.le_sub_one_of_lt)]

private theorem grains_pred_power (f : Format) (shift : Nat) :
    f.grains ((shift + 1) * 2 ^ f.fractionBits + 2 ^ f.fractionBits - 1) =
      (2 ^ (f.fractionBits + 1) - 1) * 2 ^ shift := by
  have hpos : 0 < 2 ^ f.fractionBits := Nat.two_pow_pos _
  have htwice : 2 ^ (f.fractionBits + 1) = 2 * 2 ^ f.fractionBits := Nat.pow_succ'
  have hcode : (shift + 1) * 2 ^ f.fractionBits + 2 ^ f.fractionBits - 1 =
      shift * 2 ^ f.fractionBits + (2 ^ (f.fractionBits + 1) - 1) := by
    rw [Nat.succ_mul]
    omega
  rw [hcode, grains_shift (by omega) (.inr (by omega))]

/-- A number of grains between the midpoints to the neighbours of a code. -/
structure Around (f : Format) (code num den : Nat) : Prop where
  low : (f.grains (code - 1) + f.grains code) * den ≤ 2 * num
  high : 2 * num ≤ (f.grains code + f.grains (code + 1)) * den
  inside : code % 2 = 0 ∨ (f.grains (code - 1) + f.grains code) * den < 2 * num ∧
    2 * num < (f.grains code + f.grains (code + 1)) * den

private theorem log2_div {k : Nat} (hden : 0 < den) (hlow : 2 ^ k * den ≤ num)
    (hhigh : num < 2 ^ (k + 1) * den) : (num / den).log2 = k := by
  have hge : 2 ^ k ≤ num / den := (Nat.le_div_iff_mul_le hden).mpr hlow
  have hlt : num / den < 2 ^ (k + 1) := (Nat.div_lt_iff_lt_mul hden).mpr hhigh
  have hne : num / den ≠ 0 := (Nat.lt_of_lt_of_le (Nat.two_pow_pos k) hge).ne'
  exact (Nat.log2_eq_iff hne).mpr ⟨hge, hlt⟩

private theorem nearest_same {shift digits pred : Nat} (hden : 0 < den)
    (hshift : (num / den).log2 - f.fractionBits = shift)
    (hpred : digits * 2 ^ shift ≤ pred + 2 ^ shift)
    (hlow : (pred + digits * 2 ^ shift) * den ≤ 2 * num)
    (hhigh : 2 * num ≤ (digits * 2 ^ shift + (digits + 1) * 2 ^ shift) * den)
    (hinside : digits % 2 = 0 ∨ (pred + digits * 2 ^ shift) * den < 2 * num ∧
      2 * num < (digits * 2 ^ shift + (digits + 1) * 2 ^ shift) * den) :
    f.nearest num den = shift * 2 ^ f.fractionBits + digits := by
  have hwide : 0 < den * 2 ^ shift := Nat.mul_pos hden (Nat.two_pow_pos _)
  have hwhole : digits * 2 ^ shift * den = digits * (den * 2 ^ shift) := by
    rw [Nat.mul_comm den, Nat.mul_assoc]
  have hnext : (digits * 2 ^ shift + (digits + 1) * 2 ^ shift) * den =
      2 * (digits * (den * 2 ^ shift)) + den * 2 ^ shift := by ring
  have hpred := Nat.mul_le_mul_right den hpred
  rw [Nat.add_mul, hwhole, Nat.mul_comm (2 ^ shift) den] at hpred
  rw [Nat.add_mul, hwhole] at hlow hinside
  rw [hnext] at hhigh hinside
  rw [nearest_eq, hshift, roundQuotient_eq (by omega) hhigh (by omega) hwide]

private theorem nearest_power {shift : Nat} (hden : 0 < den)
    (hbelow : num < 2 ^ (f.fractionBits + (shift + 1)) * den)
    (hlow : ((2 ^ (f.fractionBits + 1) - 1) * 2 ^ shift + 2 ^ f.fractionBits * 2 ^ (shift + 1)) * den ≤
      2 * num) :
    f.nearest num den = (shift + 1) * 2 ^ f.fractionBits + 2 ^ f.fractionBits := by
  have hwide : 0 < den * 2 ^ shift := Nat.mul_pos hden (Nat.two_pow_pos _)
  have hpower : 0 < 2 ^ f.fractionBits := Nat.two_pow_pos _
  have htwice : 2 ^ (f.fractionBits + 1) = 2 * 2 ^ f.fractionBits := Nat.pow_succ'
  obtain ⟨below, hsucc⟩ : ∃ below, 2 ^ (f.fractionBits + 1) = below + 1 :=
    ⟨2 ^ (f.fractionBits + 1) - 1, by omega⟩
  -- everything counted in halves of what the magnitudes before the power lie apart
  have hunder : 2 ^ (f.fractionBits + (shift + 1)) * den = 2 ^ (f.fractionBits + 1) * (den * 2 ^ shift) := by
    ring
  have hover : ((2 ^ (f.fractionBits + 1) - 1) * 2 ^ shift + 2 ^ f.fractionBits * 2 ^ (shift + 1)) * den +
      den * 2 ^ shift = 2 * (2 ^ (f.fractionBits + 1) * (den * 2 ^ shift)) := by
    have hnext : 2 ^ f.fractionBits * 2 ^ (shift + 1) = 2 ^ (f.fractionBits + 1) * 2 ^ shift := by ring
    rw [hnext, hsucc, Nat.add_sub_cancel]
    ring
  have hhalf : 2 ^ (f.fractionBits + shift) * den + 2 ^ (f.fractionBits + shift) * den =
      2 ^ (f.fractionBits + 1) * (den * 2 ^ shift) := by ring
  have hunit : den * 2 ^ shift ≤ 2 ^ (f.fractionBits + shift) * den := by
    rw [Nat.pow_add, Nat.mul_assoc, Nat.mul_comm (2 ^ shift) den]
    exact Nat.le_mul_of_pos_left _ hpower
  have hlog : (num / den).log2 = f.fractionBits + shift := log2_div hden (by omega) (by
    rw [Nat.add_assoc]
    exact hbelow)
  have hround : roundQuotient num (den * 2 ^ shift) = 2 ^ (f.fractionBits + 1) :=
    roundQuotient_eq (by omega) (by omega) (.inl (by omega)) hwide
  rw [nearest_eq, hlog, Nat.add_sub_cancel_left, hround, htwice]
  ring

private theorem lt_next_power {shift digits : Nat} (hdigits : digits < 2 ^ (f.fractionBits + 1))
    (hden : 0 < den)
    (hhigh : 2 * num ≤ (digits * 2 ^ shift + (digits + 1) * 2 ^ shift) * den) :
    num < 2 ^ (f.fractionBits + shift + 1) * den := by
  have hpos : 0 < den * 2 ^ shift := Nat.mul_pos hden (Nat.two_pow_pos _)
  have hwidth := Nat.mul_le_mul_right (den * 2 ^ shift) (Nat.succ_le_of_lt hdigits)
  have hnext : (digits * 2 ^ shift + (digits + 1) * 2 ^ shift) * den + den * 2 ^ shift =
      2 * (digits.succ * (den * 2 ^ shift)) := by
    rw [Nat.succ_eq_add_one]
    ring
  have hpower : 2 ^ (f.fractionBits + shift + 1) * den =
      2 ^ (f.fractionBits + 1) * (den * 2 ^ shift) := by ring
  omega

private theorem last_power_le {shift digits : Nat} (hdigits : 2 ^ f.fractionBits < digits)
    (hlow : ((digits - 1) * 2 ^ shift + digits * 2 ^ shift) * den ≤ 2 * num) :
    2 ^ (f.fractionBits + shift) * den ≤ num := by
  have hwidth := Nat.mul_le_mul_right (den * 2 ^ shift) (Nat.succ_le_of_lt hdigits)
  have hnext : ((digits - 1) * 2 ^ shift + digits * 2 ^ shift) * den + den * 2 ^ shift =
      2 * (digits * (den * 2 ^ shift)) := by
    obtain ⟨k, rfl⟩ := Nat.exists_eq_succ_of_ne_zero (Nat.zero_lt_of_lt hdigits).ne'
    rw [Nat.succ_eq_add_one, Nat.add_sub_cancel]
    ring
  have hpower : (2 ^ f.fractionBits).succ * (den * 2 ^ shift) =
      2 ^ (f.fractionBits + shift) * den + den * 2 ^ shift := by
    rw [Nat.succ_eq_add_one]
    ring
  omega

private theorem power_le_pred (f : Format) (shift : Nat) :
    2 ^ f.fractionBits * 2 ^ (shift + 1) ≤
      (2 ^ (f.fractionBits + 1) - 1) * 2 ^ shift + 2 ^ (shift + 1) := by
  have hone : 1 ≤ 2 ^ (f.fractionBits + 1) := Nat.one_le_two_pow
  obtain ⟨k, hk⟩ : ∃ k, 2 ^ (f.fractionBits + 1) = k + 1 := ⟨2 ^ (f.fractionBits + 1) - 1, by omega⟩
  have hnext : 2 ^ f.fractionBits * 2 ^ (shift + 1) = 2 ^ (f.fractionBits + 1) * 2 ^ shift := by ring
  rw [hnext, hk, Nat.add_sub_cancel, Nat.succ_mul, Nat.pow_succ]
  omega

/-- A number around a code is rounded to it. -/
theorem nearest_of_around {code : Nat} (hfraction : 0 < f.fractionBits) (hden : 0 < den)
    (hcode : 0 < code) (h : f.Around code num den) : f.nearest num den = code := by
  obtain ⟨low, high, inside⟩ := h
  obtain ⟨shift, digits, rfl, hdigits, hleading⟩ := f.exists_digits code
  have hparity : (shift * 2 ^ f.fractionBits + digits) % 2 = digits % 2 := by
    obtain ⟨k, hk⟩ := Nat.exists_eq_succ_of_ne_zero hfraction.ne'
    rw [hk, Nat.succ_eq_add_one, Nat.pow_succ, ← Nat.mul_assoc]
    omega
  rw [hparity] at inside
  rw [grains_shift hdigits hleading] at low high inside
  rw [grains_succ hdigits hleading] at high inside
  have hunder := lt_next_power hdigits hden high
  by_cases hregular : shift = 0 ∨ 2 ^ f.fractionBits < digits
  · have hdigit : 0 < digits := by
      rcases hregular with rfl | hmore
      · simpa using hcode
      · exact Nat.zero_lt_of_lt hmore
    rw [grains_pred hdigits hregular hdigit] at low inside
    have hpred : digits * 2 ^ shift ≤ (digits - 1) * 2 ^ shift + 2 ^ shift := by
      rw [← Nat.succ_mul, Nat.succ_eq_add_one, Nat.sub_add_cancel hdigit]
    refine nearest_same hden ?_ hpred low high inside
    rcases hregular with rfl | hmore
    · have hquotient := (Nat.div_lt_iff_lt_mul hden).mpr hunder
      rw [Nat.sub_eq_zero_iff_le]
      by_cases hzero : num / den = 0
      · rw [hzero]
        exact Nat.zero_le _
      · exact Nat.le_of_lt_succ ((Nat.log2_lt hzero).mpr hquotient)
    · rw [log2_div hden (last_power_le hmore low) hunder, Nat.add_sub_cancel_left]
  · -- a power of two: below it magnitudes lie closer, and the quotient may be there
    rw [not_or, not_lt] at hregular
    obtain ⟨hshift, hmost⟩ := hregular
    obtain rfl : digits = 2 ^ f.fractionBits := Nat.le_antisymm hmost (hleading.resolve_left hshift)
    obtain ⟨below, rfl⟩ := Nat.exists_eq_succ_of_ne_zero hshift
    rw [Nat.succ_eq_add_one] at *
    rw [grains_pred_power] at low inside
    rcases Nat.lt_or_ge num (2 ^ (f.fractionBits + (below + 1)) * den) with hbelow | hover
    · exact nearest_power hden hbelow low
    · have hlog := log2_div hden hover hunder
      exact nearest_same hden (by rw [hlog, Nat.add_sub_cancel_left]) (power_le_pred f below) low high
        inside

end Format
end LoweringCheck.Binary
