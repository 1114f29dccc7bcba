import Mathlib.Data.List.DropRight
import LoweringCheck.Text.Blank
/-!
# Words between blanks

What trimming leaves of a text is what stands between its blanks. For words without blanks this works in both
directions: a word is left of exactly those texts that are the word with blanks around it.
-/
namespace LoweringCheck.Text
variable {word cs : List Char}

/-- The word with blanks before and behind it. -/
def Padded (word cs : List Char) : Prop :=
  ∃ before behind, (∀ c ∈ before, isBlank c = true) ∧ (∀ c ∈ behind, isBlank c = true) ∧
    cs = before ++ word ++ behind

theorem padded_self (word : List Char) : Padded word word := ⟨[], [], by simp, by simp, by simp⟩

private theorem padded_trimChars (cs : List Char) : Padded (trimChars cs) cs := by
  have htrim : trimChars cs = (cs.dropWhile isBlank).rdropWhile isBlank := rfl
  refine ⟨cs.takeWhile isBlank, (cs.dropWhile isBlank).rtakeWhile isBlank, ?_, ?_, ?_⟩
  · intro c hc
    exact List.mem_takeWhile_imp hc
  · intro c hc
    exact List.mem_rtakeWhile_imp hc
  · rw [htrim, List.append_assoc, List.rdropWhile_append_rtakeWhile, List.takeWhile_append_dropWhile]

/-- There is no blank in the word. -/
def Solid (word : List Char) : Prop := ∀ c ∈ word, isBlank c = false

private theorem Solid.dropWhile_append (h : Solid word) {behind : List Char}
    (hbehind : ∀ c ∈ behind, isBlank c = true) :
    (word ++ behind).dropWhile isBlank = if word = [] then [] else word ++ behind := by
  cases word with
  | nil => simpa using hbehind
  | cons c word => simp [h c List.mem_cons_self]

private theorem trimChars_of_padded (hword : Solid word) (h : Padded word cs) : trimChars cs = word := by
  obtain ⟨before, behind, hbefore, hbehind, rfl⟩ := h
  have hreverse : Solid word.reverse := by simpa [Solid] using hword
  rw [trimChars, List.append_assoc, List.dropWhile_append_of_pos hbefore, hword.dropWhile_append hbehind]
  by_cases hempty : word = []
  · simp [hempty]
  · have hnone : ∀ c ∈ ([] : List Char), isBlank c = true := by simp
    have hback := hreverse.dropWhile_append hnone
    simp only [List.append_nil, List.reverse_eq_nil_iff, hempty, if_false] at hback
    rw [if_neg hempty, List.reverse_append, List.dropWhile_append_of_pos (by simpa using hbehind), hback,
      List.reverse_reverse]

/-- Where no word of a kind has blanks, a text is a padded word of the kind if trimming leaves one. -/
theorem exists_padded_iff {Kind : List Char → Prop} (hsolid : ∀ word, Kind word → Solid word) :
    (∃ word, Kind word ∧ Padded word cs) ↔ Kind (trimChars cs) := by
  constructor
  · intro h
    obtain ⟨word, hkind, hpadded⟩ := h
    rw [trimChars_of_padded (hsolid word hkind) hpadded]
    exact hkind
  · intro hkind
    exact ⟨trimChars cs, hkind, padded_trimChars cs⟩

end LoweringCheck.Text
