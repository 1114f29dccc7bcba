import LoweringCheck.Decimal.Shortest
import LoweringCheck.Proofs.Binary.Rounding
/-!
# The fewest digits read back

Every decimal that the search for the fewest digits tries lies in the rounding interval of the value, so
the one that it finds is rounded to the value again.
-/
namespace LoweringCheck

namespace Binary.Format
variable {f : Format}

theorem grains_lt_succ (f : Format) (code : Nat) : f.grains code < f.grains (code + 1) := by
  obtain ⟨shift, digits, rfl, hdigits, hleading⟩ := f.exists_digits code
  rw [grains_shift hdigits hleading, grains_succ hdigits hleading]
  exact Nat.mul_lt_mul_of_pos_right (Nat.lt_succ_self _) (Nat.two_pow_pos _)

private theorem nearest_congr {num den num' den' : Nat} (hden : 0 < den) (hden' : 0 < den')
    (h : num * den' = num' * den) : f.nearest num den = f.nearest num' den' := by
  rw [← f.nearest_scale hden' num den, ← f.nearest_scale hden num' den', Nat.mul_comm den' num, h,
    Nat.mul_comm num' den, Nat.mul_comm den' den]

end Binary.Format

namespace Decimal
open Binary (Format)

namespace Interval
variable {i : Interval} {tie : Tie}

private theorem contains_of_multiple? {power d : Nat} (h : i.multiple? tie power = some d) :
    i.contains (d * (2 * 10 ^ power)) = true := by
  unfold multiple? at h
  dsimp only [Nat.pow_eq] at h
  split at h
  · cases h
  · rename_i hbelow _
    cases h
    exact hbelow
  · rename_i _ habove
    cases h
    exact habove
  · rename_i hbelow habove
    -- both neighbours are inside, so whichever is nearer will do
    have hboth : ∀ d, d = i.value / (2 * 10 ^ power) ∨ d = i.value / (2 * 10 ^ power) + 1 →
        i.contains (d * (2 * 10 ^ power)) = true := by
      rintro d (rfl | rfl)
      · exact hbelow
      · exact habove
    apply hboth
    split at h
    · exact .inl (Option.some.inj h).symm
    · split at h
      · exact .inr (Option.some.inj h).symm
      · split at h
        · exact .inr (Option.some.inj h).symm
        · have hd := Option.some.inj h
          rcases Nat.mod_two_eq_zero_or_one (i.value / (2 * 10 ^ power)) with heven | hodd
          · exact .inl (by rw [← hd, heven, Nat.add_zero])
          · exact .inr (by rw [← hd, hodd])

private theorem contains_search (hvalue : i.contains i.value = true) (heven : 2 ∣ i.value) (tie : Tie)
    (most : Nat) :
    i.contains ((i.search tie most).1 * (2 * 10 ^ (i.search tie most).2)) = true := by
  induction most with
  | zero =>
    rw [search, Nat.pow_zero, Nat.mul_one, Nat.div_mul_cancel heven]
    exact hvalue
  | succ power ih =>
    rw [search]
    split
    · rename_i d hd
      exact contains_of_multiple? hd
    · exact ih

private theorem contains_ofCode (f : Format) {code : Nat} (hcode : 0 < code) :
    (ofCode f code).contains (ofCode f code).value = true := by
  have hscale : 0 < 5 ^ f.places := Nat.pow_pos (by decide)
  have hbelow : f.grains (code - 1) < f.grains code := by
    have h := f.grains_lt_succ (code - 1)
    rwa [Nat.sub_add_cancel hcode] at h
  have habove := f.grains_lt_succ code
  have hlow : (ofCode f code).low < (ofCode f code).value :=
    Nat.mul_lt_mul_of_pos_right (by omega) hscale
  have hhigh : (ofCode f code).value < (ofCode f code).high :=
    Nat.mul_lt_mul_of_pos_right (by omega) hscale
  rw [contains]
  split
  · exact decide_eq_true ⟨hlow.le, hhigh.le⟩
  · exact decide_eq_true ⟨hlow, hhigh⟩

private theorem around_of_contains {f : Format} {code n : Nat}
    (h : (ofCode f code).contains (2 * n) = true) :
    f.Around code n (5 ^ f.places) := by
  rw [contains] at h
  split at h
  · rename_i hclosed
    obtain ⟨hlow, hhigh⟩ := of_decide_eq_true h
    exact ⟨hlow, hhigh, .inl (beq_iff_eq.mp hclosed)⟩
  · obtain ⟨hlow, hhigh⟩ := of_decide_eq_true h
    exact ⟨Nat.le_of_lt hlow, Nat.le_of_lt hhigh, .inr ⟨hlow, hhigh⟩⟩

end Interval

variable {f : Format} {tie : Tie} {code : Nat}

theorem shortest_around (f : Format) (tie : Tie) (hcode : 0 < code) :
    ∃ power : Nat, (shortest f tie code).exponent = power - f.places ∧
      f.Around code ((shortest f tie code).digits * 10 ^ power) (5 ^ f.places) := by
  have hvalue : 2 ∣ (Interval.ofCode f code).value := by
    show 2 ∣ 2 * f.grains code * 5 ^ f.places
    exact Nat.dvd_mul_right_of_dvd (Nat.dvd_mul_right 2 _) _
  have hsearch := Interval.contains_search (Interval.contains_ofCode f hcode) hvalue tie
    ((4 * (Interval.ofCode f code).value.log2 + 16) / 13)
  refine ⟨_, rfl, Interval.around_of_contains ?_⟩
  rw [← Nat.mul_left_comm]
  exact hsearch

/-- The shortest decimal of a value is rounded to the value, in whatever way it is split into a
significand and a power of ten. -/
theorem nearest_shortest (hfraction : 0 < f.fractionBits) (hcode : 0 < code) {zeros up down : Nat}
    (hexponent : (shortest f tie code).exponent = zeros + up - down) :
    f.nearest ((shortest f tie code).digits * 10 ^ zeros * 10 ^ up * 2 ^ f.places) (10 ^ down) = code := by
  obtain ⟨power, hpower, haround⟩ := shortest_around f tie hcode
  have hfive : 0 < 5 ^ f.places := Nat.pow_pos (by decide)
  refine Eq.trans (Binary.Format.nearest_congr (Nat.pow_pos (by decide)) hfive (Eq.symm ?_))
    (Binary.Format.nearest_of_around hfraction hfive hcode haround)
  have hsum : power + down = zeros + up + f.places := by omega
  have hten : 10 ^ f.places = 2 ^ f.places * 5 ^ f.places := by rw [← Nat.mul_pow]
  calc (shortest f tie code).digits * 10 ^ power * 10 ^ down
      = (shortest f tie code).digits * 10 ^ (power + down) := by rw [Nat.mul_assoc, Nat.pow_add]
    _ = (shortest f tie code).digits * 10 ^ zeros * 10 ^ up * 2 ^ f.places * 5 ^ f.places := by
      rw [hsum, Nat.pow_add, Nat.pow_add, hten]
      ring

end Decimal
end LoweringCheck
