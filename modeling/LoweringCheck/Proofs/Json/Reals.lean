import LoweringCheck.Proofs.Decimal.Shortest
import LoweringCheck.Proofs.Json.Numerals
import LoweringCheck.Proofs.Json.Scanning
/-!
# Reals as they are written

A finite real is written as a proper numeral, and read as what its digits amount to. NaN and the infinities
are written as `null`.
-/
namespace LoweringCheck
open Binary (Format)

namespace Decimal

/-- The exponent of the first digit. -/
def leading (d : Decimal) : Int := d.exponent + (digitsOf d.digits).length - 1

/-- Whether a layout writes a decimal without an exponent. -/
def Layout.plain (layout : Layout) (d : Decimal) : Bool :=
  match layout.positional with
  | none => true
  | some (low, below) => decide (low ≤ d.leading ∧ d.leading < below)

private theorem magnitude_eq (layout : Layout) (d : Decimal) :
    layout.magnitude d =
      if layout.plain d then positional layout.pointZero (digitsOf d.digits) d.exponent
      else scientific layout.exponentPlus (digitsOf d.digits) d.leading := rfl

/-- The decimal that a finite code is written as. -/
def written (f : Format) (tie : Tie) (code : Nat) : Decimal :=
  if code = 0 then ⟨0, 0⟩ else shortest f tie code

theorem shortest_pos (f : Format) (tie : Tie) {code : Nat} (hcode : 0 < code) :
    0 < (shortest f tie code).digits := by
  obtain ⟨power, -, haround⟩ := shortest_around f tie hcode
  have hgrains : 0 < f.grains code := by
    have h := f.grains_lt_succ (code - 1)
    rw [Nat.sub_add_cancel hcode] at h
    exact Nat.zero_lt_of_lt h
  have hlow : 0 < (f.grains (code - 1) + f.grains code) * 5 ^ f.places :=
    Nat.mul_pos (by omega) (Nat.pow_pos (by decide))
  rcases Nat.eq_zero_or_pos (shortest f tie code).digits with hzero | hpos
  · have hvalue := haround.low
    rw [hzero, Nat.zero_mul] at hvalue
    omega
  · exact hpos

private theorem exponent_written (f : Format) (tie : Tie) (code : Nat)
    (h : (written f tie code).digits = 0) :
    (written f tie code).exponent = 0 := by
  unfold written at h ⊢
  split at h
  · rename_i hzero
    rw [if_pos hzero]
  · rename_i hcode
    exact absurd h (shortest_pos f tie (Nat.pos_of_ne_zero hcode)).ne'

end Decimal

namespace Json

namespace Spelling

/-- Digits with the point behind all of them and the zeros that are due, between two of them, or before
all of them. -/
def positional (negative : Bool) (digits : List Char) (exponent : Int) : Spelling :=
  if 0 ≤ exponent then ⟨negative, digits ++ List.replicate exponent.toNat '0', some ['0'], none⟩
  else if (-exponent).toNat < digits.length then
    ⟨negative, digits.take (digits.length - (-exponent).toNat),
      some (digits.drop (digits.length - (-exponent).toNat)), none⟩
  else ⟨negative, ['0'], some (List.replicate ((-exponent).toNat - digits.length) '0' ++ digits), none⟩

/-- One digit before the point, and the exponent of that digit. -/
def scientific (negative : Bool) (digits : List Char) (leading : Int) : Spelling :=
  ⟨negative, digits.take 1, if digits.length = 1 then none else some (digits.drop 1),
    some (decide (leading < 0), Decimal.digitsOf leading.natAbs)⟩

def ofDecimal (negative plain : Bool) (d : Decimal) : Spelling :=
  if plain then positional negative (Decimal.digitsOf d.digits) d.exponent
  else scientific negative (Decimal.digitsOf d.digits) d.leading

theorem negative_ofDecimal (negative plain : Bool) (d : Decimal) :
    (ofDecimal negative plain d).negative = negative := by
  unfold ofDecimal positional scientific
  split_ifs <;> rfl

private theorem positional_text (negative : Bool) (digits : List Char) (exponent : Int) :
    Decimal.positional true digits exponent = (positional negative digits exponent).unsignedText := by
  unfold Decimal.positional positional
  split
  · simp only [unsignedText, Option.elim_some, exponentText, List.append_nil]
    rfl
  · dsimp only
    split
    · simp only [unsignedText, Option.elim_some, exponentText, List.append_nil]
    · simp only [unsignedText, Option.elim_some, exponentText, List.append_nil]
      rfl

private theorem scientific_text (negative : Bool) (digits : List Char) (leading : Int) :
    Decimal.scientific true digits leading = (scientific negative digits leading).unsignedText := by
  unfold Decimal.scientific scientific unsignedText exponentText
  by_cases hsingle : digits.length = 1 <;> by_cases hdown : leading < 0 <;> simp [hsingle, hdown]

private theorem magnitude_json (f : Format) (negative : Bool) (d : Decimal) :
    (Decimal.Layout.json f).magnitude d =
      (ofDecimal negative ((Decimal.Layout.json f).plain d) d).unsignedText := by
  rw [Decimal.magnitude_eq, ofDecimal]
  split
  · exact positional_text negative _ _
  · exact scientific_text negative _ _

/-! ## Digits where they are due -/

private theorem digits_zeros (n : Nat) : ∀ c ∈ List.replicate n '0', c.isDigit = true := by
  intro c hc
  rw [List.eq_of_mem_replicate hc]
  rfl

private theorem Digits.append {cs cs' : List Char} (h : ∀ c ∈ cs, c.isDigit = true) (h' : Digits cs') :
    Digits (cs ++ cs') :=
  ⟨List.append_ne_nil_of_right_ne_nil _ h'.1, List.forall_mem_append.mpr ⟨h, h'.2⟩⟩

private theorem Digits.append_zeros {cs : List Char} (h : Digits cs) (n : Nat) :
    Digits (cs ++ List.replicate n '0') :=
  ⟨List.append_ne_nil_of_left_ne_nil h.1 _, List.forall_mem_append.mpr ⟨h.2, digits_zeros n⟩⟩

private theorem Digits.take {cs : List Char} (h : Digits cs) {n : Nat} (hn : 0 < n) : Digits
    (cs.take n) := by
  refine ⟨?_, fun c hc => h.2 c (List.mem_of_mem_take hc)⟩
  rw [ne_eq, List.take_eq_nil_iff, not_or]
  exact ⟨hn.ne', h.1⟩

private theorem Digits.drop {cs : List Char} (h : Digits cs) {n : Nat} (hn : n < cs.length) :
    Digits (cs.drop n) := by
  refine ⟨?_, fun c hc => h.2 c (List.mem_of_mem_drop hc)⟩
  rw [ne_eq, List.drop_eq_nil_iff]
  omega

/-- Digits of which the first is zero only if it is the only one. -/
def Leads (cs : List Char) : Prop := ∀ c ds, cs = c :: ds → Text.digitValue c = 0 → ds = []

private theorem leads_toDigits (n : Nat) : Leads (Nat.toDigits 10 n) := by
  intro c cs hcs hc
  rcases Nat.eq_zero_or_pos n with rfl | hpos
  · exact (List.cons.inj hcs).2.symm
  · obtain ⟨c', cs', hcs', hc'⟩ := head_toDigits hpos
    rw [← (List.cons.inj (hcs.symm.trans hcs')).1] at hc'
    exact absurd hc hc'

private theorem Leads.take {cs : List Char} (h : Leads cs) (n : Nat) : Leads (cs.take n) := by
  intro c ds hds hc
  cases cs with
  | nil => simp at hds
  | cons c' ds' =>
    cases n with
    | zero => simp at hds
    | succ n =>
      rw [List.take_succ_cons, List.cons.injEq] at hds
      obtain ⟨rfl, rfl⟩ := hds
      rw [h c' ds' rfl hc, List.take_nil]

private theorem leads_append_zeros {n : Nat} (hpos : 0 < n) (zeros : Nat) :
    Leads (Nat.toDigits 10 n ++ List.replicate zeros '0') := by
  intro c ds hds hc
  obtain ⟨c', cs', hcs', hc'⟩ := head_toDigits hpos
  rw [hcs', List.cons_append, List.cons.injEq] at hds
  exact absurd (hds.1 ▸ hc) hc'

private theorem proper_positional (negative : Bool) {d : Decimal} (h : d.digits = 0 → d.exponent = 0) :
    (positional negative (Decimal.digitsOf d.digits) d.exponent).Proper := by
  have hdigits : Digits (Decimal.digitsOf d.digits) := digits_toDigits d.digits
  have hlength := List.length_pos_iff.mpr hdigits.1
  unfold positional
  split_ifs with hexponent hbehind
  · refine ⟨hdigits.append_zeros _, ?_, by simp [Digits], by simp⟩
    rcases Nat.eq_zero_or_pos d.digits with hzero | hpos
    · rw [h hzero, Int.toNat_zero, List.replicate_zero, List.append_nil]
      exact leads_toDigits d.digits
    · exact leads_append_zeros hpos _
  · refine ⟨hdigits.take (by omega), (leads_toDigits d.digits).take _, ?_, by simp⟩
    rintro cs hcs
    cases hcs
    exact hdigits.drop (by omega)
  · refine ⟨by simp [Digits], ?_, ?_, by simp⟩
    · rintro c cs hcs -
      cases hcs
      rfl
    · rintro cs hcs
      cases hcs
      exact Digits.append (digits_zeros _) hdigits

private theorem proper_scientific (negative : Bool) (n : Nat) (leading : Int) :
    (scientific negative (Decimal.digitsOf n) leading).Proper := by
  have hdigits : Digits (Decimal.digitsOf n) := digits_toDigits n
  have hlength := List.length_pos_iff.mpr hdigits.1
  refine ⟨hdigits.take Nat.one_pos, (leads_toDigits n).take 1, ?_, ?_⟩
  · intro cs hcs
    rw [scientific] at hcs
    split at hcs
    · cases hcs
    · cases hcs
      exact hdigits.drop (by omega)
  · rintro e he
    cases he
    exact digits_toDigits _

private theorem proper_ofDecimal (negative plain : Bool) {d : Decimal} (h : d.digits = 0 → d.exponent = 0) :
    (ofDecimal negative plain d).Proper := by
  unfold ofDecimal
  split
  · exact proper_positional negative h
  · exact proper_scientific negative _ _

private theorem scans_text {s : Spelling} (h : s.Proper) {rest : Text.Symbols} (hrest : EndsNumeral rest) :
    Scans s.text [numeralToken s.numeral] rest := by
  have hscan := scanNumeral_text h hrest
  have hflaw : ∀ quoted reading skipping,
      numeralToken s.numeral ≠ .flaw quoted reading (some skipping) := by
    intro quoted reading skipping
    unfold numeralToken
    split <;> simp
  unfold text
  cases hnegative : s.negative with
  | true =>
    rw [hnegative] at hscan
    exact scans_word rfl hscan hflaw
  | false =>
    obtain ⟨c, cs, hcs⟩ := List.exists_cons_of_ne_nil h.whole.1
    have hdigit : c.isDigit = true := h.whole.2 c (hcs ▸ List.mem_cons_self)
    obtain ⟨ds, hds⟩ : ∃ ds, s.unsignedText = c :: ds := ⟨_, by rw [unsignedText, hcs]; rfl⟩
    rw [hnegative, hds, List.map_cons, List.cons_append] at hscan
    rw [if_neg Bool.false_ne_true, List.nil_append, hds]
    exact scans_word (isBlank_of_isDigit hdigit) ((scanToken_digit hdigit _).trans hscan) hflaw

/-- The numeral of a finite code under its sign. -/
def ofCode (f : Format) (negative : Bool) (code : Nat) : Spelling :=
  let d := Decimal.written f .even code
  ofDecimal negative ((Decimal.Layout.json f).plain d) d

private theorem proper_ofCode (f : Format) (negative : Bool) (code : Nat) :
    (ofCode f negative code).Proper :=
  proper_ofDecimal negative _ (Decimal.exponent_written f .even code)

private theorem text_ofCode (f : Format) (negative : Bool) (code : Nat) :
    (ofCode f negative code).text =
      (if negative then ['-'] else []) ++
        (Decimal.Layout.json f).magnitude (Decimal.written f .even code) := by
  rw [ofCode, text, negative_ofDecimal, ← magnitude_json]

end Spelling

/-! ## The token of a real -/

/-- What the text of a number is read as; an integer is taken to have 64 bits. -/
def Number.token : Number → Token
  | .integer i => .number (.integer i)
  | .real _ .nan => .null
  | .real f (.signed negative code) =>
    if code = f.infinity then .null else numeralToken (Spelling.ofCode f negative code).numeral

private theorem scans_null (rest : Text.Symbols) : Scans "null".toList [.null] rest :=
  scans_word rfl rfl (by simp)

theorem Number.readsAs_real (f : Format) (x : Binary f) :
    (Number.real f x).ReadsAs (Number.real f x).token := by
  intro rest hrest
  cases x with
  | nan => exact scans_null rest
  | signed negative code =>
    simp only [Number.write, Decimal.Layout.render, Number.token]
    by_cases hinfinity : (code : Nat) = f.infinity
    · rw [if_pos hinfinity, if_pos hinfinity]
      cases negative <;> exact scans_null rest
    · rw [if_neg hinfinity, if_neg hinfinity]
      have hscans := Spelling.scans_text (Spelling.proper_ofCode f negative code) hrest
      rwa [Spelling.text_ofCode] at hscans

end Json
end LoweringCheck
