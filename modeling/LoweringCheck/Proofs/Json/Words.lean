import Mathlib.Algebra.Ring.Int.Defs
import Mathlib.Algebra.Ring.Nat
import LoweringCheck.Json.Lexer
import LoweringCheck.Json.Writer
/-!
# Words that are read as written

Quoted texts and whole numbers give back the tokens that they are written for, whatever stands behind
them; behind a number only what cannot go on with it.
-/
namespace LoweringCheck.Json
open Text (Symbols symbols digitValue)

/-! ## Quoted texts -/

private theorem hex4?_pad2 {n : Nat} (h : n < 0x20) :
    ∃ a b, pad2 (Nat.toDigits 16 n) = [a, b] ∧ hex4? '0' '0' a b = some n := by
  have hall : ∀ n ∈ List.range 0x20,
      pad2 (Nat.toDigits 16 n) = [Nat.digitChar (n / 16), Nat.digitChar (n % 16)] ∧
        hex4? '0' '0' (Nat.digitChar (n / 16)) (Nat.digitChar (n % 16)) = some n := by
    decide
  exact ⟨_, _, hall n (List.mem_range.mpr h)⟩

private theorem scanQuoted_escape (c : Char) (rest : Symbols) :
    scanQuoted ((escape c).map some ++ rest) = extend (.char c) (scanQuoted rest) := by
  unfold escape
  rw [scanQuoted.eq_def]
  split_ifs with hquote hslash hback hform hline hreturn htab hcontrol
  · simp [hquote, shortEscape?]
  · simp [hslash, shortEscape?]
  · simp [hback, shortEscape?]
  · simp [hform, shortEscape?]
  · simp [hline, shortEscape?]
  · simp [hreturn, shortEscape?]
  · simp [htab, shortEscape?]
  · obtain ⟨a, b, hpad, hhex⟩ := hex4?_pad2 hcontrol
    have hnumber : ofNumber c.toNat = .char c := by
      rw [ofNumber, if_neg (by omega), Char.ofNat_toNat]
    simp [hpad, hhex, hnumber]
  · have hplain : ¬ c.toNat < 0x20 := hcontrol
    simp [hquote, hslash, hplain]

private theorem scanQuoted_flatMap (cs : List Char) (rest : Symbols) :
    scanQuoted ((cs.flatMap escape).map some ++ some '"' :: rest) =
      (cs.map .char, .closed, rest) := by
  induction cs with
  | nil =>
    rw [List.flatMap_nil, List.map_nil, List.nil_append, scanQuoted.eq_def]
    simp
  | cons c cs ih =>
    rw [List.flatMap_cons, List.map_append, List.append_assoc, scanQuoted_escape, ih]
    rfl

private theorem join?_chars (cs : List Char) : Piece.join? (cs.map .char) = some cs := by
  induction cs with
  | nil => rfl
  | cons c cs ih => rw [List.map_cons, Piece.join?, ih, Option.map_some]

theorem scanToken_quote (s : String) (rest : Symbols) :
    scanToken (some '"') ((s.toList.flatMap escape ++ ['"']).map some ++ rest) =
      (.text s, rest) := by
  rw [List.map_append, List.append_assoc]
  simp [scanToken, scanQuoted_flatMap, quotedToken, join?_chars]

/-! ## Whole numbers -/

/-- What stands behind a number and does not go on with it. -/
def EndsNumeral : Symbols → Prop
  | some c :: _ => c.isDigit = false ∧ c ≠ '.' ∧ c ≠ 'e' ∧ c ≠ 'E'
  | _ => True

/-- What stands behind digits and is none. -/
def EndsDigits : Symbols → Prop
  | some c :: _ => c.isDigit = false
  | _ => True

theorem EndsNumeral.endsDigits {rest : Symbols} (h : EndsNumeral rest) : EndsDigits rest := by
  match rest, h with
  | [], _ => trivial
  | none :: _, _ => trivial
  | some c :: _, h => exact h.1

theorem takeDigits_append {cs : List Char} (hcs : ∀ c ∈ cs, c.isDigit = true) {rest : Symbols}
    (hrest : EndsDigits rest) :
    takeDigits (cs.map some ++ rest) = (cs.map digitValue, rest) := by
  induction cs with
  | nil =>
    match rest, hrest with
    | [], _ => rfl
    | none :: _, _ => rfl
    | some c :: rest, h =>
      have hdigit : c.isDigit = false := h
      simp [takeDigits, hdigit]
  | cons c cs ih =>
    rw [List.map_cons, List.cons_append, takeDigits, if_pos (hcs c List.mem_cons_self),
      ih fun d hd => hcs d (List.mem_cons_of_mem _ hd)]
    rfl

theorem le_ofDigitChars (cs : List Char) (init : Nat) :
    init ≤ Nat.ofDigitChars 10 cs init := by
  induction cs generalizing init with
  | nil => simp
  | cons c cs ih =>
    rw [Nat.ofDigitChars_cons]
    exact Nat.le_trans (by omega) (ih _)

theorem foldl_whole (cs : List Char) (init : Nat)
    (h : Nat.ofDigitChars 10 cs init ≤ Numeral.natLimit) :
    (cs.map digitValue).foldl Numeral.Significand.whole ⟨init, false, 0⟩ =
      ⟨Nat.ofDigitChars 10 cs init, false, 0⟩ := by
  induction cs generalizing init with
  | nil => simp
  | cons c cs ih =>
    rw [Nat.ofDigitChars_cons] at h ⊢
    have hstep : Numeral.Significand.whole ⟨init, false, 0⟩ (digitValue c) =
        ⟨10 * init + (c.toNat - '0'.toNat), false, 0⟩ := by
      have hfits := Nat.le_trans (le_ofDigitChars cs _) h
      unfold Numeral.Significand.whole digitValue
      rw [if_neg]
      · simp only [Nat.mul_comm]
      · simp only [Bool.false_or, decide_eq_true_eq]
        omega
    rw [List.map_cons, List.foldl_cons, hstep, ih _ h]

theorem head_toDigits {n : Nat} (h : 0 < n) :
    ∃ c cs, Nat.toDigits 10 n = c :: cs ∧ digitValue c ≠ 0 := by
  induction n using Nat.strongRecOn with
  | ind n ih =>
    by_cases hsmall : n < 10
    · refine ⟨n.digitChar, [], Nat.toDigits_of_lt_base hsmall, ?_⟩
      have := Nat.toNat_digitChar_sub_48_of_lt_ten hsmall
      show n.digitChar.toNat - 48 ≠ 0
      omega
    · obtain ⟨c, cs, hcs, hc⟩ := ih (n / 10) (by omega) (by omega)
      rw [Nat.toDigits_of_base_le (by decide) (Nat.not_lt.mp hsmall), hcs]
      exact ⟨c, _, rfl, hc⟩

private theorem values_toDigits (n : Nat) :
    ∃ d ds, (Nat.toDigits 10 n).map digitValue = d :: ds ∧ (d = 0 → ds = []) := by
  by_cases hzero : n = 0
  · subst hzero
    exact ⟨0, [], rfl, fun _ => rfl⟩
  · obtain ⟨c, cs, hcs, hc⟩ := head_toDigits (Nat.pos_of_ne_zero hzero)
    exact ⟨digitValue c, cs.map digitValue, by rw [hcs, List.map_cons], fun h => absurd h hc⟩

theorem scanExponent_none {rest : Symbols} (hrest : EndsNumeral rest) (negative : Bool)
    (whole : List Nat) (fraction : Option (List Nat)) :
    scanExponent negative whole fraction rest =
      (numeralToken ⟨negative, whole, fraction, none⟩, rest) := by
  match rest, hrest with
  | [], _ => rfl
  | none :: _, _ => rfl
  | some c :: rest, h => simp [scanExponent, h.2.2.1, h.2.2.2]

private theorem scanNumeral_digits (negative : Bool) (n : Nat) {rest : Symbols} (hrest : EndsNumeral rest) :
    scanNumeral negative ((Nat.toDigits 10 n).map some ++ rest) =
      (numeralToken ⟨negative, (Nat.toDigits 10 n).map digitValue, none, none⟩, rest) := by
  have hdigits : ∀ c ∈ Nat.toDigits 10 n, c.isDigit = true := fun c hc =>
    Nat.isDigit_of_mem_toDigits (by decide) (by decide) hc
  obtain ⟨d, ds, hvalues, hzero⟩ := values_toDigits n
  rw [scanNumeral, takeDigits_append hdigits hrest.endsDigits, hvalues]
  -- neither a leading zero nor a point
  split
  · rename_i heq
    cases heq
  · rename_i heq
    cases heq
    cases hzero rfl
  · rename_i heq
    cases heq
    exact absurd rfl hrest.2.1
  · rename_i heq
    cases heq
    exact scanExponent_none hrest negative _ none

theorem scanNumeral_natural {n : Nat} (h : n ≤ Numeral.natLimit) {rest : Symbols}
    (hrest : EndsNumeral rest) :
    scanNumeral false ((Nat.toDigits 10 n).map some ++ rest) = (.number (.integer n), rest) := by
  have hfold := foldl_whole (Nat.toDigits 10 n) 0
    (by rwa [Nat.ofDigitChars_ten_toDigits])
  rw [Nat.ofDigitChars_ten_toDigits] at hfold
  rw [scanNumeral_digits false n hrest, numeralToken]
  simp [Numeral.number?, hfold]

theorem scanNumeral_negative {n : Nat} (hpos : 0 < n) (h : n ≤ 2 ^ 63) {rest : Symbols}
    (hrest : EndsNumeral rest) :
    scanNumeral true ((Nat.toDigits 10 n).map some ++ rest) = (.number (.integer (-n)), rest) := by
  have hlimit : n ≤ Numeral.natLimit := Nat.le_trans h (by decide)
  have hfold := foldl_whole (Nat.toDigits 10 n) 0
    (by rwa [Nat.ofDigitChars_ten_toDigits])
  rw [Nat.ofDigitChars_ten_toDigits] at hfold
  have hin : ¬ (n = 0 ∨ 9223372036854775808 < n) := by omega
  rw [scanNumeral_digits true n hrest, numeralToken]
  simp [Numeral.number?, hfold, hin]

end LoweringCheck.Json
