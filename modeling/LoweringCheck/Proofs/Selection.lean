import Mathlib.Data.List.Forall2
import LoweringCheck.Proofs.Text.Blank
import LoweringCheck.Selection
/-!
# Names in any letter case

A device or a precision is selected by exactly those texts that are its name, each letter in upper or in lower
case, with or without blanks around it.
-/
namespace LoweringCheck

namespace Text
variable {name cs : List Char} {c d : Char}

/-- The name, each of its letters as it is or in lower case. -/
def Spells (name cs : List Char) : Prop := List.Forall₂ (fun d c => c = d ∨ c = d.toLower) name cs

/-- The text is the name up to letter case and blanks around it. -/
def Names (name text : String) : Prop := ∃ word, Spells name.toList word ∧ Padded word text.toList

/-- There is neither a lower-case letter nor a blank in the name. -/
def Capital (name : List Char) : Prop :=
  ∀ d ∈ name, d.toUpper = d ∧ isBlank d = false ∧ isBlank d.toLower = false

private theorem toNat_toUpper (c : Char) :
    c.toUpper.toNat = if 97 ≤ c.toNat ∧ c.toNat ≤ 122 then c.toNat - 32 else c.toNat := by
  unfold Char.toUpper
  split
  · rename_i h
    have hcode : 97 ≤ c.toNat ∧ c.toNat ≤ 122 := h
    rw [if_pos hcode]
    show (c.val + ('A'.val - 'a'.val)).toNat = c.toNat - 32
    rw [UInt32.toNat_add]
    show (c.toNat + 4294967264) % 4294967296 = _
    omega
  · rename_i h
    exact (if_neg h).symm

private theorem toNat_toLower (c : Char) :
    c.toLower.toNat = if 65 ≤ c.toNat ∧ c.toNat ≤ 90 then c.toNat + 32 else c.toNat := by
  unfold Char.toLower
  split
  · rename_i h
    have hcode : 65 ≤ c.toNat ∧ c.toNat ≤ 90 := h
    rw [if_pos hcode]
    show (c.val + ('a'.val - 'A'.val)).toNat = c.toNat + 32
    rw [UInt32.toNat_add]
    show (c.toNat + 32) % 4294967296 = _
    omega
  · rename_i h
    exact (if_neg h).symm

private theorem toUpper_eq_iff (hd : d.toUpper = d) : c.toUpper = d ↔ c = d ∨ c = d.toLower := by
  simp only [← Char.toNat_inj, toNat_toUpper, toNat_toLower] at hd ⊢
  split at hd <;> split <;> split <;> omega

theorem spells_iff (hname : Capital name) : Spells name cs ↔ cs.map Char.toUpper = name := by
  induction name generalizing cs with
  | nil => simp [Spells]
  | cons d name ih =>
    obtain ⟨⟨hd, -⟩, hrest⟩ := List.forall_mem_cons.mp hname
    cases cs with
    | nil => simp [Spells]
    | cons c cs =>
      have hcs : Spells name cs ↔ cs.map Char.toUpper = name := ih hrest
      simp only [Spells, List.forall₂_cons, List.map_cons, List.cons.injEq, toUpper_eq_iff hd] at hcs ⊢
      rw [hcs]

private theorem Spells.solid (hname : Capital name) (h : Spells name cs) : Solid cs := by
  induction h with
  | nil => simp [Solid]
  | cons hc _ ih =>
    obtain ⟨⟨-, hplain, hlower⟩, hrest⟩ := List.forall_mem_cons.mp hname
    intro c hmem
    cases hmem with
    | head =>
      cases hc with
      | inl hc => exact hc ▸ hplain
      | inr hc => exact hc ▸ hlower
    | tail _ hmem => exact ih hrest c hmem

/-- A text that is trimmed and put in upper case is a name exactly if the text spells that name. -/
theorem upper_trim_eq_iff {name text : String} (hname : Capital name.toList) :
    upper (trim text) = name ↔ Names name text := by
  rw [Names, exists_padded_iff fun _ h => h.solid hname, spells_iff hname, ← String.toList_inj]
  simp [upper, trim]

theorem names_self (name : String) : Names name name := by
  refine ⟨name.toList, ?_, padded_self _⟩
  apply List.forall₂_same.mpr
  simp

end Text

/-! ## Selecting -/

/-- Things of one kind are selected by their names: all are listed, no two have one name, the names are in
capitals, and a text is trimmed and put in upper case before the list is searched for it. -/
structure ByName {α : Type} (all : List α) (name : α → String) (fault : String → SelectionError)
    (select : String → Except SelectionError α) : Prop where
  mem_all : ∀ x, x ∈ all
  injective : Function.Injective name
  capital : ∀ x, Text.Capital (name x).toList
  select_eq : ∀ text, select text =
    match all.find? fun x => name x == Text.upper (Text.trim text) with
    | some x => .ok x
    | none => .error (fault (Text.upper (Text.trim text)))

namespace ByName
variable {α : Type} {all : List α} {name : α → String} {fault : String → SelectionError}
  {select : String → Except SelectionError α} {text : String} {x : α}

theorem find?_eq_some_iff (h : ByName all name fault select) :
    all.find? (fun y => name y == Text.upper (Text.trim text)) = some x ↔ Text.Names (name x) text := by
  rw [← Text.upper_trim_eq_iff (h.capital x)]
  constructor
  · intro hfind
    have hname : name x = Text.upper (Text.trim text) := by simpa using List.find?_some hfind
    exact hname.symm
  · intro hupper
    rw [hupper]
    cases hfind : all.find? fun y => name y == name x with
    | none => simpa using List.find?_eq_none.mp hfind x (h.mem_all x)
    | some y =>
      have hname : name y = name x := by simpa using List.find?_some hfind
      rw [h.injective hname]

theorem select_eq_ok_iff (h : ByName all name fault select) :
    select text = .ok x ↔ Text.Names (name x) text := by
  rw [← h.find?_eq_some_iff, h.select_eq]
  cases all.find? fun y => name y == Text.upper (Text.trim text) <;> simp

theorem fault_of_select (h : ByName all name fault select) {e : SelectionError}
    (herror : select text = .error e) : e = fault (Text.upper (Text.trim text)) := by
  rw [h.select_eq] at herror
  cases hfind : all.find? fun y => name y == Text.upper (Text.trim text) with
  | none => simpa [hfind, eq_comm] using herror
  | some y => simp [hfind] at herror

end ByName

theorem Device.byName : ByName all name .unknownDevice select where
  mem_all d := by cases d <;> decide
  injective := by
    intro d d' h
    cases d <;> cases d' <;> simp [name] at h ⊢
  capital d := by cases d <;> simp [Text.Capital, name, Text.isBlank]
  select_eq text := by
    simp only [select]
    cases all.find? fun d => d.name == Text.upper (Text.trim text) <;> rfl

theorem Precision.byName : ByName all name .unknownPrecision select where
  mem_all p := by cases p <;> decide
  injective := by
    intro p p' h
    cases p <;> cases p' <;> simp [name] at h ⊢
  capital p := by cases p <;> simp [Text.Capital, name, Text.isBlank]
  select_eq text := by
    simp only [select]
    cases all.find? fun p => p.name == Text.upper (Text.trim text) <;> rfl

end LoweringCheck
