import LoweringCheck.Proofs.Json.Words
/-!
# Numerals that are read as written

A numeral is spelled by its sign, its digits and the marks between them. What is spelled properly is one
word, and it is read digit by digit.
-/
namespace LoweringCheck.Json
open Text (Symbols digitValue)

/-- A numeral, character by character. -/
structure Spelling where
  negative : Bool
  whole : List Char
  fraction : Option (List Char)
  /-- whether the exponent is negative, and its digits -/
  exponent : Option (Bool × List Char)

namespace Spelling

def numeral (s : Spelling) : Numeral :=
  ⟨s.negative, s.whole.map digitValue, s.fraction.map (·.map digitValue),
    s.exponent.map fun e => (e.1, e.2.map digitValue)⟩

/-- An exponent always has a sign. -/
def exponentText : Option (Bool × List Char) → List Char
  | none => []
  | some (down, digits) => 'e' :: (if down then '-' else '+') :: digits

def unsignedText (s : Spelling) : List Char :=
  s.whole ++ s.fraction.elim [] ('.' :: ·) ++ exponentText s.exponent

def text (s : Spelling) : List Char := (if s.negative then ['-'] else []) ++ s.unsignedText

/-- One or more digits. -/
def Digits (cs : List Char) : Prop := cs ≠ [] ∧ ∀ c ∈ cs, c.isDigit = true

/-- There are digits wherever some are due, and none follows a leading zero. -/
structure Proper (s : Spelling) : Prop where
  whole : Digits s.whole
  leading : ∀ c cs, s.whole = c :: cs → digitValue c = 0 → cs = []
  fraction : ∀ cs, s.fraction = some cs → Digits cs
  exponent : ∀ e, s.exponent = some e → Digits e.2

theorem digits_toDigits (n : Nat) : Digits (Nat.toDigits 10 n) :=
  ⟨Nat.toDigits_ne_nil, fun _ hc => Nat.isDigit_of_mem_toDigits (by decide) (by decide) hc⟩

private theorem Digits.cons {cs : List Char} (h : Digits cs) :
    ∃ d ds, cs.map digitValue = d :: ds := by
  obtain ⟨c, cs, rfl⟩ := List.exists_cons_of_ne_nil h.1
  exact ⟨_, _, List.map_cons⟩

private theorem scanExponent_text {exponent : Option (Bool × List Char)}
    (h : ∀ e, exponent = some e → Digits e.2) {rest : Symbols} (hrest : EndsNumeral rest)
    (negative : Bool) (whole : List Nat) (fraction : Option (List Nat)) :
    scanExponent negative whole fraction ((exponentText exponent).map some ++ rest) =
      (numeralToken ⟨negative, whole, fraction, exponent.map fun e => (e.1, e.2.map digitValue)⟩,
        rest) := by
  cases exponent with
  | none => exact scanExponent_none hrest negative whole fraction
  | some e =>
    obtain ⟨down, digits⟩ := e
    have hdigits := h _ rfl
    obtain ⟨d, ds, hvalues⟩ := hdigits.cons
    have htake := takeDigits_append hdigits.2 hrest.endsDigits
    rw [hvalues] at htake
    cases down <;> simp [exponentText, scanExponent, htake, hvalues]

private theorem endsDigits_exponentText (exponent : Option (Bool × List Char)) {rest : Symbols}
    (hrest : EndsNumeral rest) : EndsDigits ((exponentText exponent).map some ++ rest) := by
  cases exponent with
  | none => exact hrest.endsDigits
  | some e => rfl

theorem scanNumeral_text {s : Spelling} (h : s.Proper) {rest : Symbols} (hrest : EndsNumeral rest) :
    scanNumeral s.negative (s.unsignedText.map some ++ rest) = (numeralToken s.numeral, rest) := by
  obtain ⟨negative, whole, fraction, exponent⟩ := s
  obtain ⟨hwhole, hleading, hfraction, hexponent⟩ := h
  obtain ⟨d, ds, hvalues⟩ := hwhole.cons
  have hzero : d = 0 → ds = [] := by
    rintro rfl
    obtain ⟨c, cs, rfl⟩ := List.exists_cons_of_ne_nil hwhole.1
    obtain ⟨hc, rfl⟩ := List.cons.inj hvalues
    rw [hleading c cs rfl hc, List.map_nil]
  have hend := endsDigits_exponentText exponent hrest
  have hscan := scanExponent_text hexponent hrest negative (d :: ds)
  cases fraction with
  | none =>
    have htake := takeDigits_append hwhole.2 hend
    rw [hvalues] at htake
    simp only [unsignedText, Option.elim_none, List.append_nil, List.map_append, List.append_assoc,
      numeral, hvalues, Option.map_none]
    rw [scanNumeral, htake]
    -- no point is behind the digits
    split
    · rename_i heq
      cases heq
    · rename_i heq
      cases heq
      cases hzero rfl
    · rename_i heq
      exfalso
      have hpoint := (Prod.mk.inj heq).2
      cases exponent with
      | none =>
        rw [exponentText, List.map_nil, List.nil_append] at hpoint
        rw [hpoint] at hrest
        exact hrest.2.1 rfl
      | some e => cases hpoint
    · rename_i heq
      cases heq
      exact hscan none
  | some digits =>
    have hdigits := hfraction digits rfl
    obtain ⟨e, es, hvalues'⟩ := hdigits.cons
    have hmark : EndsDigits (some '.' :: (digits.map some ++
      ((exponentText exponent).map some ++ rest))) := rfl
    have htake := takeDigits_append hwhole.2 hmark
    rw [hvalues] at htake
    have htake' := takeDigits_append hdigits.2 hend
    rw [hvalues'] at htake'
    simp only [unsignedText, Option.elim_some, List.map_append, List.map_cons, List.append_assoc,
      List.cons_append, numeral, hvalues, Option.map_some, hvalues']
    rw [scanNumeral, htake]
    split
    · rename_i heq
      cases heq
    · rename_i heq
      cases heq
      cases hzero rfl
    · rename_i heq
      cases heq
      rw [htake']
      exact hscan _
    · rename_i hpoint heq
      cases heq
      exact absurd rfl (hpoint _)

end Spelling
end LoweringCheck.Json
