import Mathlib.Data.List.Induction
import LoweringCheck.Proofs.Text.Blank
import LoweringCheck.Text.Integer
/-!
# Numbers in texts

The texts of natural numbers: one or more digits, with or without a plus sign before them and blanks around
them. They are read as what they denote, and nothing else is read.
-/
namespace LoweringCheck.Text
variable {cs : List Char} {n limit : Nat}

/-- One or more digits and the number they denote. A further digit makes it ten times as much and adds its
own value. -/
inductive Digits : List Char → Nat → Prop
  | digit {c : Char} (h : c.isDigit = true) : Digits [c] (digitValue c)
  | snoc {cs : List Char} {n : Nat} {c : Char} (h : Digits cs n) (hc : c.isDigit = true) :
      Digits (cs ++ [c]) (10 * n + digitValue c)

/-- Digits with or without a plus sign. -/
inductive Unsigned : List Char → Nat → Prop
  | plain {cs : List Char} {n : Nat} (h : Digits cs n) : Unsigned cs n
  | plus {cs : List Char} {n : Nat} (h : Digits cs n) : Unsigned ('+' :: cs) n

/-- The text denotes the number. -/
def Number (text : String) (n : Nat) : Prop := ∃ word, Unsigned word n ∧ Padded word text.toList

private theorem digitsValue_concat (cs : List Char) (c : Char) :
    digitsValue (cs ++ [c]) = 10 * digitsValue cs + digitValue c := by
  simp [digitsValue]

theorem digits_iff : Digits cs n ↔ cs ≠ [] ∧ (∀ c ∈ cs, c.isDigit = true) ∧ digitsValue cs = n := by
  constructor
  · intro h
    induction h with
    | digit h => simp [digitsValue, h]
    | snoc h hc ih => simpa [digitsValue_concat, ih.2.2, or_imp, forall_and, hc] using ih.2.1
  · intro h
    obtain ⟨hne, hdigits, rfl⟩ := h
    induction cs using List.reverseRecOn with
    | nil => exact absurd rfl hne
    | append_singleton cs c ih =>
      have hc : c.isDigit = true := hdigits c (by simp)
      by_cases hempty : cs = []
      · subst hempty
        simpa [digitsValue] using Digits.digit hc
      · rw [digitsValue_concat]
        apply Digits.snoc _ hc
        exact ih hempty fun d hd => hdigits d (by simp [hd])

private theorem isBlank_of_isDigit {c : Char} (h : c.isDigit = true) : isBlank c = false := by
  have hrange : 48 ≤ c.toNat ∧ c.toNat ≤ 57 := Char.isDigit_iff_toNat.mp h
  simp only [isBlank, Bool.or_eq_false_iff, Bool.and_eq_false_iff, decide_eq_false_iff_not, beq_eq_false_iff_ne]
  omega

private theorem Digits.solid (h : Digits cs n) : Solid cs := fun _ hc =>
  isBlank_of_isDigit ((digits_iff.mp h).2.1 _ hc)

private theorem Unsigned.solid (h : Unsigned cs n) : Solid cs := by
  cases h with
  | plain h => exact h.solid
  | plus h =>
    intro c hc
    cases hc with
    | head => rfl
    | tail _ hc => exact h.solid c hc

theorem unsigned_plus_iff : Unsigned ('+' :: cs) n ↔ Digits cs n := by
  constructor
  · intro h
    cases h with
    | plain h => exact absurd ((digits_iff.mp h).2.1 '+' List.mem_cons_self) (by decide)
    | plus h => exact h
  · exact Unsigned.plus

private theorem unsigned_iff_digits (h : cs.head? ≠ some '+') : Unsigned cs n ↔ Digits cs n := by
  constructor
  · intro hnumber
    cases hnumber with
    | plain hnumber => exact hnumber
    | plus _ => exact absurd rfl h
  · exact Unsigned.plain

/-! ## Reading -/

theorem digits_within_iff {digits : List Char} :
    (if digits.isEmpty || !digits.all Char.isDigit then none
      else if digitsValue digits ≤ limit then some (digitsValue digits) else none) = some n ↔
        Digits digits n ∧ n ≤ limit := by
  rw [digits_iff]
  by_cases hdigits : digits ≠ [] ∧ ∀ c ∈ digits, c.isDigit = true
  · have hread : (digits.isEmpty || !digits.all Char.isDigit) = false := by simpa using hdigits
    simp only [hread]
    grind
  · have hread : (digits.isEmpty || !digits.all Char.isDigit) = true := by grind
    simp only [hread]
    grind

theorem natural?_eq_some_iff : natural? limit cs = some n ↔ Unsigned cs n ∧ n ≤ limit := by
  by_cases hplus : cs.head? = some '+'
  · obtain ⟨digits, rfl⟩ := List.head?_eq_some_iff.mp hplus
    rw [unsigned_plus_iff]
    exact digits_within_iff
  · rw [unsigned_iff_digits hplus, ← digits_within_iff]
    unfold natural?
    split
    · exact absurd rfl hplus
    · rfl

theorem natural?_trim_eq_some_iff {text : String} :
    natural? limit (trim text).toList = some n ↔ Number text n ∧ n ≤ limit := by
  rw [natural?_eq_some_iff, trim, String.toList_ofList, Number,
    exists_padded_iff fun _ h => h.solid]

theorem number_toString (n : Nat) : Number (toString n) n := by
  have hwritten : (toString n).toList = Nat.toDigits 10 n := Nat.toList_repr
  have hdigits : Digits (Nat.toDigits 10 n) n := by
    apply digits_iff.mpr
    refine ⟨Nat.toDigits_ne_nil, ?_, Nat.ofDigitChars_ten_toDigits⟩
    intro c hc
    exact Nat.isDigit_of_mem_toDigits (by decide) (by decide) hc
  exact ⟨Nat.toDigits 10 n, .plain hdigits, hwritten ▸ padded_self _⟩

end LoweringCheck.Text
