import LoweringCheck.Proofs.Json.Reading
import LoweringCheck.Proofs.Json.Significand
/-!
# Reals that are read again

A double need not be read as itself: NaN and the infinities are not read at all, and reading rounds the
significand and the power of ten before it scales the one by the other. Few digits next to a small power of
ten are read as the double that they were written for.
-/
namespace LoweringCheck
open Binary (Format)

namespace Binary
open Json

/-- What the text of a double is read as. -/
def reread (x : Binary .double) : Option (Binary .double) :=
  ((Reader.real .double).parse (Json.number (.real .double x)).renderIndented).toOption

private theorem reread_eq (x : Binary .double) :
    x.reread = ((Reader.real .double).run [(Number.real .double x).token]).toOption := by
  have htokens := tokenize_renderIndented (x := .number (.real .double x)) (w := Number.token)
    (reads_number.mpr (Number.readsAs_real .double x))
  rw [reread, Reader.parse, htokens, tokensBy]

theorem keeps_token : Reader.Keeps Number.token reread where
  integer _ := rfl
  real x := (reread_eq x).symm
  noBracket n := by
    unfold Number.token
    split
    · simp
    · simp
    · split
      · simp
      · unfold numeralToken
        split <;> simp

/-- Whether a value is a number of some magnitude, neither NaN nor an infinity. -/
def isFinite {f : Format} (x : Binary f) : Bool := !x.isNaN && !x.isInfinite

theorem reread_of_not_finite {x : Binary .double} (h : x.isFinite = false) : x.reread = none := by
  have htoken : (Number.real .double x).token = .null := by
    cases x with
    | nan => rfl
    | signed negative code =>
      have hcode : (code : Nat) = Format.double.infinity := by
        simpa [isFinite, isNaN, isInfinite] using h
      rw [Number.token, if_pos hcode]
  rw [reread_eq, htoken]
  rfl

/-- A finite double whose digits make a number of at most 53 bits and whose power of ten is not past the
last one that a double holds. -/
def Brief : Binary .double → Prop
  | .nan => False
  | .signed negative code =>
    (code : Nat) ≠ Format.double.infinity ∧ (Spelling.ofCode .double negative code).value < 2 ^ 53 ∧
      (Spelling.ofCode .double negative code).power.natAbs ≤ 22

instance : DecidablePred Brief
  | .nan => inferInstanceAs (Decidable False)
  | .signed _ _ => inferInstanceAs (Decidable (_ ∧ _ ∧ _))

theorem reread_brief {x : Binary .double} (h : x.Brief) : x.reread = some x := by
  cases x with
  | nan => exact h.elim
  | signed negative code =>
    obtain ⟨hinfinity, hvalue, hpower⟩ := h
    rcases Nat.eq_zero_or_pos code with hzero | hpos
    · obtain rfl : code = 0 := Fin.ext hzero
      cases negative <;> decide +kernel
    · rw [reread_eq, Number.token, if_neg hinfinity, numeralToken,
        Spelling.number?_ofCode negative hpos hinfinity hvalue hpower]
      show some ((signed negative code : Binary .double).convert .double) = _
      rw [convert_self]

-- the digits of `9007199254740991.0`, with the zero, are rounded before they are divided by ten
example : (ofInt .double 9007199254740991).reread = some (ofInt .double 9007199254740990) := by
  decide +kernel

end Binary
end LoweringCheck
