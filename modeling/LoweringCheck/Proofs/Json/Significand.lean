import LoweringCheck.Proofs.Binary.Arithmetic
import LoweringCheck.Proofs.Json.Reals
/-!
# Significands

The digits of a numeral are gathered in a significand, which is scaled by a power of ten. Where doubles hold
both of them, only the last step rounds, and the digits that a double was written with give it back.
-/
namespace LoweringCheck
open Binary (Format)

namespace Json

/-! ## Gathering the digits -/

namespace Spelling

/-- The number that all digits before the exponent make. -/
def value (s : Spelling) : Nat := Nat.ofDigitChars 10 (s.whole ++ s.fraction.getD []) 0

def exponentValue (s : Spelling) : Nat := s.exponent.elim 0 fun e => Nat.ofDigitChars 10 e.2 0

/-- The power of ten that the value is multiplied by. -/
def power (s : Spelling) : Int :=
  s.exponent.elim 0 (fun e => if e.1 then -(s.exponentValue : Int) else s.exponentValue) -
    (s.fraction.getD []).length

end Spelling

private theorem foldl_fraction (cs : List Char) (init : Nat) (shift : Int)
    (h : Nat.ofDigitChars 10 cs init ≤ Numeral.natLimit) :
    Numeral.Significand.fraction ⟨init, false, shift⟩ (cs.map Text.digitValue) =
      ⟨Nat.ofDigitChars 10 cs init, false, shift - cs.length⟩ := by
  induction cs generalizing init shift with
  | nil => simp [Numeral.Significand.fraction]
  | cons c cs ih =>
    rw [Nat.ofDigitChars_cons] at h ⊢
    have hfits := Nat.le_trans (le_ofDigitChars cs _) h
    have hvalue : init * 10 + Text.digitValue c = 10 * init + (c.toNat - '0'.toNat) := by
      rw [Nat.mul_comm]
      rfl
    rw [List.map_cons, Numeral.Significand.fraction, hvalue, if_neg (Nat.not_lt.mpr hfits), ih _ _ h,
      List.length_cons]
    congr 1
    dsimp only
    omega

private theorem foldl_digits (cs : List Char) :
    (cs.map Text.digitValue).foldl (fun n d => 10 * n + d) 0 = Nat.ofDigitChars 10 cs 0 := by
  rw [List.foldl_map, Nat.ofDigitChars_eq_foldl]
  rfl

namespace Numeral

/-- The significand of all digits. -/
def gathered (numeral : Numeral) : Significand :=
  (numeral.whole.foldl Significand.whole ⟨0, false, 0⟩).fraction (numeral.fraction.getD [])

/-- A real under the sign of a numeral. -/
def signed (numeral : Numeral) (x : Binary .double) : Number :=
  .real .double (if numeral.negative then x.neg else x)

private theorem number?_fraction (numeral : Numeral) {digits : List Nat}
    (hfraction : numeral.fraction = some digits) (hexponent : numeral.exponent = none) :
    numeral.number? = (scale numeral.gathered.value numeral.gathered.shift).map numeral.signed := by
  obtain ⟨negative, whole, fraction, exponent⟩ := numeral
  cases hfraction
  cases hexponent
  rfl

private theorem number?_exponent (numeral : Numeral) {down : Bool} {digits : List Nat}
    (hexponent : numeral.exponent = some (down, digits)) {n : Nat}
    (hdigits : digits.foldl (fun n d => 10 * n + d) 0 = n) (hn : n ≤ exponentLimit) :
    numeral.number? = (scale numeral.gathered.value
      (if down then numeral.gathered.shift - n else numeral.gathered.shift + n)).map
        numeral.signed := by
  obtain ⟨negative, whole, fraction, exponent⟩ := numeral
  cases hexponent
  subst hdigits
  cases fraction <;> exact if_pos hn

end Numeral

namespace Spelling
variable {s : Spelling}

private theorem gathered_numeral (hvalue : s.value ≤ Numeral.natLimit) :
    s.numeral.gathered = ⟨s.value, false, -(s.fraction.getD []).length⟩ := by
  rw [value, Nat.ofDigitChars_append] at hvalue
  have hwhole := foldl_whole s.whole 0 (Nat.le_trans (le_ofDigitChars _ _) hvalue)
  have hfraction := foldl_fraction (s.fraction.getD []) (Nat.ofDigitChars 10 s.whole 0) 0 hvalue
  have hdigits : (s.fraction.map (List.map Text.digitValue)).getD [] =
      (s.fraction.getD []).map Text.digitValue := by cases s.fraction <;> rfl
  rw [Numeral.gathered, numeral, hwhole, hdigits, hfraction, ← Nat.ofDigitChars_append, Int.zero_sub]
  rfl

/-- A numeral of few digits with a fraction or an exponent: what all its digits make is scaled once. -/
theorem number?_numeral (hreal : s.fraction ≠ none ∨ s.exponent ≠ none)
    (hvalue : s.value ≤ Numeral.natLimit) (hexponent : s.exponentValue ≤ Numeral.exponentLimit) :
    s.numeral.number? = (Numeral.scale s.value s.power).map s.numeral.signed := by
  have hgathered := gathered_numeral hvalue
  cases he : s.exponent with
  | none =>
    obtain ⟨cs, hcs⟩ := Option.ne_none_iff_exists'.mp (hreal.resolve_right fun h => h he)
    have hfraction : s.numeral.fraction = some (cs.map Text.digitValue) := by
      rw [numeral, hcs, Option.map_some]
    have hnone : s.numeral.exponent = none := by rw [numeral, he, Option.map_none]
    rw [s.numeral.number?_fraction hfraction hnone, hgathered, power, he, Option.elim_none,
      Int.zero_sub]
  | some e =>
    obtain ⟨down, digits⟩ := e
    have hdigits : (digits.map Text.digitValue).foldl (fun n d => 10 * n + d) 0 = s.exponentValue := by
      rw [foldl_digits, exponentValue, he]
      rfl
    have hpower : s.power = if down then -((s.fraction.getD []).length : Int) - s.exponentValue
        else -((s.fraction.getD []).length : Int) + s.exponentValue := by
      rw [power, he]
      cases down <;> simp <;> omega
    have hsome : s.numeral.exponent = some (down, digits.map Text.digitValue) := by
      rw [numeral, he, Option.map_some]
    rw [s.numeral.number?_exponent hsome hdigits hexponent, hgathered, hpower]

/-! ## The digits of a decimal -/

private theorem ofDigitChars_zeros_append (n : Nat) (cs : List Char) :
    Nat.ofDigitChars 10 (List.replicate n '0' ++ cs) 0 = Nat.ofDigitChars 10 cs 0 := by
  rw [Nat.ofDigitChars_append, Nat.ofDigitChars_replicate_zero, Nat.mul_zero]

private theorem ofDigitChars_append_zeros (cs : List Char) (n : Nat) :
    Nat.ofDigitChars 10 (cs ++ List.replicate n '0') 0 = Nat.ofDigitChars 10 cs 0 * 10 ^ n := by
  rw [Nat.ofDigitChars_append, Nat.ofDigitChars_replicate_zero, Nat.mul_comm]

private theorem ofDigitChars_digitsOf (n : Nat) : Nat.ofDigitChars 10 (Decimal.digitsOf n) 0 = n :=
  Nat.ofDigitChars_ten_toDigits

/-- A spelling of a decimal splits it into a significand and a power of ten. -/
structure Splits (s : Spelling) (d : Decimal) : Prop where
  real : s.fraction ≠ none ∨ s.exponent ≠ none
  parts : ∃ zeros : Nat, s.value = d.digits * 10 ^ zeros ∧ d.exponent = zeros + s.power

private theorem splits_positional (negative : Bool) (d : Decimal) :
    (positional negative (Decimal.digitsOf d.digits) d.exponent).Splits d := by
  unfold positional
  split_ifs with hexponent hbehind
  · -- the zeros up to the point, and the one behind it
    refine ⟨.inl (by simp), d.exponent.toNat + 1, ?_, ?_⟩
    · rw [value, Option.getD_some, List.append_assoc, ← List.replicate_succ',
        ofDigitChars_append_zeros, ofDigitChars_digitsOf]
    · simp only [power, Option.elim_none, Option.getD_some, List.length_singleton]
      omega
  · refine ⟨.inl (by simp), 0, ?_, ?_⟩
    · rw [value, Option.getD_some, List.take_append_drop, ofDigitChars_digitsOf, Nat.pow_zero,
        Nat.mul_one]
    · simp only [power, Option.elim_none, Option.getD_some, List.length_drop]
      omega
  · refine ⟨.inl (by simp), 0, ?_, ?_⟩
    · rw [value, Option.getD_some, ← List.append_assoc, List.singleton_append, ← List.replicate_succ,
        ofDigitChars_zeros_append, ofDigitChars_digitsOf, Nat.pow_zero, Nat.mul_one]
    · simp only [power, Option.elim_none, Option.getD_some, List.length_append, List.length_replicate]
      omega

private theorem exponentValue_scientific (negative : Bool) (digits : List Char) (leading : Int) :
    (scientific negative digits leading).exponentValue = leading.natAbs :=
  ofDigitChars_digitsOf _

private theorem digits_scientific (negative : Bool) (digits : List Char) (leading : Int) :
    digits.take 1 ++ (scientific negative digits leading).fraction.getD [] = digits := by
  rw [scientific]
  split_ifs with hsingle
  · rw [Option.getD_none, List.append_nil, List.take_of_length_le hsingle.le]
  · rw [Option.getD_some, List.take_append_drop]

private theorem length_fraction_scientific (negative : Bool) {digits : List Char} (h : 0 < digits.length)
    (leading : Int) :
    ((scientific negative digits leading).fraction.getD []).length = digits.length - 1 := by
  have hlength := congrArg List.length (digits_scientific negative digits leading)
  rw [List.length_append, List.length_take] at hlength
  omega

private theorem splits_scientific (negative : Bool) (d : Decimal) :
    (scientific negative (Decimal.digitsOf d.digits) d.leading).Splits d := by
  have hleading : (if decide (d.leading < 0) then
      -((scientific negative (Decimal.digitsOf d.digits) d.leading).exponentValue : Int)
      else (scientific negative (Decimal.digitsOf d.digits) d.leading).exponentValue) = d.leading := by
    rw [exponentValue_scientific]
    split_ifs with hdown
    · have := of_decide_eq_true hdown
      omega
    · have := of_decide_eq_false (Bool.eq_false_iff.mpr hdown)
      omega
  have hlength : 0 < (Decimal.digitsOf d.digits).length := Nat.length_toDigits_pos
  refine ⟨.inr (by simp [scientific]), 0, ?_, ?_⟩
  · rw [Nat.pow_zero, Nat.mul_one]
    exact (congrArg (Nat.ofDigitChars 10 · 0) (digits_scientific negative _ _)).trans
      (ofDigitChars_digitsOf _)
  · rw [power, length_fraction_scientific negative hlength]
    change _ = _ + ((if decide (d.leading < 0) then _ else _) - _)
    rw [hleading, Decimal.leading]
    omega

private theorem splits_ofDecimal (negative plain : Bool) (d : Decimal) :
    (ofDecimal negative plain d).Splits d := by
  unfold ofDecimal
  split
  · exact splits_positional negative d
  · exact splits_scientific negative d

private theorem exponentValue_le (s : Spelling) :
    s.exponentValue ≤ s.power.natAbs + (s.fraction.getD []).length := by
  cases hexponent : s.exponent with
  | none =>
    rw [exponentValue, hexponent]
    exact Nat.zero_le _
  | some e =>
    rw [power, hexponent, Option.elim_some]
    split <;> omega

private theorem exponentValue_ofDecimal (negative plain : Bool) {d : Decimal} {width : Nat}
    (hwidth : 0 < width)
    (hvalue : (ofDecimal negative plain d).value < 10 ^ width) :
    (ofDecimal negative plain d).exponentValue ≤
      (ofDecimal negative plain d).power.natAbs + width := by
  cases plain with
  | true =>
    have hnone : (ofDecimal negative true d).exponentValue = 0 := by
      rw [ofDecimal, if_pos rfl, positional]
      split_ifs <;> rfl
    omega
  | false =>
    obtain ⟨-, zeros, hzeros, -⟩ := splits_ofDecimal negative false d
    have hdigits : (Decimal.digitsOf d.digits).length ≤ width := by
      refine (Nat.length_toDigits_le_iff (by decide) hwidth).mpr (Nat.lt_of_le_of_lt ?_ hvalue)
      rw [hzeros]
      exact Nat.le_mul_of_pos_right _ (Nat.pow_pos (by decide))
    have hfraction : ((ofDecimal negative false d).fraction.getD []).length =
        (Decimal.digitsOf d.digits).length - 1 :=
      length_fraction_scientific negative Nat.length_toDigits_pos _
    have hexponent := exponentValue_le (ofDecimal negative false d)
    omega

end Spelling

namespace Numeral

private theorem holds_ten {n : Nat} (hn : n ≤ 22) : (Binary.ofDecimal .double false 1 n).Holds
    (10 ^ n) := by
  have hfive : 5 ^ n < 2 ^ (Format.double.fractionBits + 1) :=
    Nat.lt_of_le_of_lt (Nat.pow_le_pow_right (by decide) hn) (by decide +kernel)
  have hroom : Format.double.places + 24 < 2 ^ Format.double.exponentBits := by decide +kernel
  exact Binary.holds_powerOfTen hfive (by omega) (by omega)

private theorem scale_exact {significand code : Nat} {power : Int} (hsignificand : significand < 2 ^ 53)
    (hpower : power.natAbs ≤ 22) (hpos : 0 < significand) (hcode : code < Format.double.infinity)
    (hnearest : ∀ up down : Nat, power = up - down →
      Format.double.nearest (significand * 10 ^ up * 2 ^ Format.double.places) (10 ^ down) = code) :
    scale significand power = some (.ofCode false code) := by
  have hx : (Binary.ofInt .double significand).Holds significand :=
    Binary.holds_ofInt hsignificand (by decide +kernel)
  rw [scale]
  split
  · rename_i hup
    obtain ⟨n, rfl⟩ := Int.eq_ofNat_of_zero_le hup
    have hproduct := hx.mul (holds_ten (n := n) (by omega))
    have hcode' := hnearest n 0 (by omega)
    rw [Nat.pow_zero] at hcode'
    rw [Binary.ofGrains, hcode'] at hproduct
    have hfinite : (Binary.ofCode false code : Binary .double).isInfinite = false := by
      rw [Binary.ofCode, Binary.isInfinite, beq_eq_false_iff_ne]
      dsimp only
      omega
    dsimp only
    rw [if_neg hpos.ne', if_pos (by omega)]
    change (if ((Binary.ofInt .double significand).mul (.ofDecimal .double false 1 n)).isInfinite then _
      else some ((Binary.ofInt .double significand).mul (.ofDecimal .double false 1 n))) = _
    rw [hproduct, hfinite, if_neg Bool.false_ne_true]
  · rename_i hdown
    have hquotient := hx.div (holds_ten hpower) (Nat.pow_pos (by decide))
    have hcode := hnearest 0 power.natAbs (by omega)
    rw [Nat.pow_zero, Nat.mul_one] at hcode
    rw [Binary.ofGrains, hcode] at hquotient
    dsimp only
    rw [if_pos (by omega)]
    exact congrArg some hquotient

end Numeral

namespace Spelling
variable {negative : Bool} {code : Fin (Format.double.infinity + 1)}

private theorem splits_ofCode (negative : Bool) (code : Nat) :
    (ofCode .double negative code).Splits (Decimal.written .double .even code) :=
  splits_ofDecimal negative _ _

/-- The digits of a finite double are scaled to it again. -/
theorem scale_ofCode (hpos : 0 < (code : Nat)) (hcode : (code : Nat) < Format.double.infinity)
    (hvalue : (ofCode .double negative code).value < 2 ^ 53)
    (hpower : (ofCode .double negative code).power.natAbs ≤ 22) :
    Numeral.scale (ofCode .double negative code).value (ofCode .double negative code).power =
      some (.signed false code) := by
  have hwritten : Decimal.written .double .even code = Decimal.shortest .double .even code :=
    if_neg hpos.ne'
  obtain ⟨-, zeros, hzeros, hexponent⟩ := splits_ofCode negative code
  rw [hwritten] at hzeros hexponent
  have hdigits : 0 < (ofCode .double negative code).value := by
    rw [hzeros]
    exact Nat.mul_pos (Decimal.shortest_pos .double .even hpos) (Nat.pow_pos (by decide))
  have hscale := Numeral.scale_exact hvalue hpower hdigits hcode fun up down hsplit => by
    rw [hzeros]
    exact Decimal.nearest_shortest (by decide) hpos (by omega)
  rw [hscale, Binary.ofCode]
  exact congrArg (fun c => some (Binary.signed false c)) (Fin.ext (Nat.min_eq_left hcode.le))

theorem number?_ofCode (negative : Bool) (hpos : 0 < (code : Nat))
    (hinfinity : (code : Nat) ≠ Format.double.infinity)
    (hvalue : (ofCode .double negative code).value < 2 ^ 53)
    (hpower : (ofCode .double negative code).power.natAbs ≤ 22) :
    (ofCode .double negative code).numeral.number? = some (.real .double (.signed negative code)) := by
  have hexponent : (ofCode .double negative code).exponentValue ≤ Numeral.exponentLimit := by
    have hsmall : (ofCode .double negative code).exponentValue ≤
        (ofCode .double negative code).power.natAbs + 16 :=
      exponentValue_ofDecimal negative _ (by decide) (Nat.lt_of_lt_of_le hvalue (by decide))
    exact Nat.le_trans hsmall (Nat.le_trans (Nat.add_le_add_right hpower 16) (by decide))
  have hsign : (ofCode .double negative code).numeral.negative = negative :=
    negative_ofDecimal negative _ _
  have hlimit := Nat.le_trans hvalue.le (show 2 ^ 53 ≤ Numeral.natLimit by decide)
  rw [number?_numeral (splits_ofCode negative code).real hlimit hexponent,
    scale_ofCode hpos (by omega) hvalue hpower,
    Option.map_some, Numeral.signed, hsign]
  cases negative <;> rfl

end Spelling

end Json
end LoweringCheck
