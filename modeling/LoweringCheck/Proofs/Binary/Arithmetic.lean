import LoweringCheck.Binary.Arithmetic
import LoweringCheck.Proofs.Binary.Exact
/-!
# Arithmetic on natural numbers

Values that are natural numbers are multiplied and divided with one rounding, that of the exact result.
Small numbers and small powers of ten are such values.
-/
namespace LoweringCheck.Binary
variable {f : Format} {x y : Binary f} {m n : Nat}

/-- A value that is a natural number. -/
def Holds (x : Binary f) (n : Nat) : Prop :=
  ∃ code : Fin (f.infinity + 1), x = .signed false code ∧ (code : Nat) ≠ f.infinity ∧
    f.grains code = n * 2 ^ f.places

private theorem holds_ofGrains {s : Nat} (hm : m < 2 ^ (f.fractionBits + 1))
    (hs : s + f.places + 2 < 2 ^ f.exponentBits) :
    (ofGrains false (m * 2 ^ s * 2 ^ f.places) 1 : Binary f).Holds (m * 2 ^ s) := by
  have hshift : m * 2 ^ s * 2 ^ f.places = m * 2 ^ (s + f.places) := by
    rw [Nat.mul_assoc, ← Nat.pow_add]
  have hcode := Format.nearest_shifted_lt_infinity hm hs
  rw [hshift, ofGrains, ofCode]
  refine ⟨_, rfl, ?_, ?_⟩
  · simp only [Nat.min_eq_left hcode.le]
    exact hcode.ne
  · simp only [Nat.min_eq_left hcode.le]
    rw [Format.grains_nearest hm, hshift]

theorem Holds.mul (hx : x.Holds m) (hy : y.Holds n) :
    x.mul y = ofGrains false (m * n * 2 ^ f.places) 1 := by
  obtain ⟨a, rfl, ha, hgrains⟩ := hx
  obtain ⟨b, rfl, hb, hgrains'⟩ := hy
  have hscale := f.nearest_scale (Nat.two_pow_pos f.places) (m * n * 2 ^ f.places) 1
  have hproduct : m * 2 ^ f.places * (n * 2 ^ f.places) = 2 ^ f.places * (m * n * 2 ^ f.places) := by
    ring
  rw [Nat.mul_one] at hscale
  rw [Binary.mul, if_neg (not_or.mpr ⟨ha, hb⟩), hgrains, hgrains', hproduct, Bool.xor_self, ofGrains,
    ofGrains, Nat.pow_eq, hscale]

theorem Holds.div (hx : x.Holds m) (hy : y.Holds n) (hn : 0 < n) :
    x.div y = ofGrains false (m * 2 ^ f.places) n := by
  obtain ⟨a, rfl, ha, hgrains⟩ := hx
  obtain ⟨b, rfl, hb, hgrains'⟩ := hy
  have hzero : b ≠ 0 := by
    rintro rfl
    have hnone : f.grains 0 = 0 := by simp [Format.grains_eq]
    rw [Fin.val_zero, hnone] at hgrains'
    exact (Nat.mul_pos hn (Nat.two_pow_pos _)).ne hgrains'
  rw [Binary.div, if_neg ha, if_neg hb, if_neg hzero, hgrains, hgrains', Bool.xor_self, ofGrains,
    ofGrains, Nat.pow_eq, Nat.mul_comm _ (2 ^ f.places), Nat.mul_comm n,
    f.nearest_scale (Nat.two_pow_pos f.places)]

theorem holds_ofInt (h : m < 2 ^ (f.fractionBits + 1)) (hplaces : f.places + 2 < 2 ^ f.exponentBits) :
    (ofInt f m).Holds m := by
  have hholds := holds_ofGrains (s := 0) h (by omega)
  rw [Nat.pow_zero, Nat.mul_one] at hholds
  rwa [ofInt, Int.natAbs_natCast, decide_eq_false (by omega)]

theorem holds_powerOfTen (h : 5 ^ n < 2 ^ (f.fractionBits + 1)) (hsmall : n ≤ 400)
    (hplaces : n + f.places + 2 < 2 ^ f.exponentBits) : (ofDecimal f false 1 n).Holds (10 ^ n) := by
  have hholds := holds_ofGrains (s := n) h hplaces
  rw [← Nat.mul_pow] at hholds
  have hdown : (-(n : Int)).toNat = 0 := by omega
  rw [ofDecimal, if_neg Nat.one_ne_zero, if_neg (by omega), if_neg (by omega), Int.toNat_natCast,
    hdown, Nat.one_mul]
  exact hholds

end LoweringCheck.Binary
