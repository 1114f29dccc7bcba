import Mathlib.Data.List.Nodup
/-!
# Looking up

Values, producers and batches are kept under names in lists, where the first entry of a name counts.
-/
namespace LoweringCheck
variable {α β : Type} {entries : List (String × α)} {name : String} {x : α}

theorem mem_of_lookup (h : entries.lookup name = some x) : (name, x) ∈ entries := by
  obtain ⟨before, after, rfl, _⟩ := List.lookup_eq_some_iff.mp h
  exact List.mem_append_right _ List.mem_cons_self

theorem exists_lookup (h : name ∈ entries.map Prod.fst) : ∃ x, entries.lookup name = some x := by
  obtain ⟨e, he, rfl⟩ := List.mem_map.mp h
  cases hlookup : entries.lookup e.1 with
  | some x => exact ⟨x, rfl⟩
  | none =>
    have := List.lookup_eq_none_iff.mp hlookup e he
    rw [bne_self_eq_false] at this
    cases this

theorem lookup_eq_some_iff_mem (h : (entries.map Prod.fst).Nodup) :
    entries.lookup name = some x ↔ (name, x) ∈ entries := by
  refine ⟨mem_of_lookup, fun hmem => ?_⟩
  obtain ⟨y, hy⟩ := exists_lookup (List.mem_map_of_mem hmem)
  rw [hy, (Prod.mk.inj (List.inj_on_of_nodup_map h (mem_of_lookup hy) hmem rfl)).2]

theorem lookup_cons_eq_ite (entries : List (String × α)) (name key : String) (x : α) :
    List.lookup name ((key, x) :: entries) = if name = key then some x else entries.lookup name := by
  rw [List.lookup_cons]
  by_cases h : name = key
  · rw [if_pos h, beq_iff_eq.mpr h]
  · rw [if_neg h, beq_eq_false_iff_ne.mpr h]

theorem lookup_map (f : α → β) (entries : List (String × α)) (name : String) :
    (entries.map fun e => (e.1, f e.2)).lookup name = (entries.lookup name).map f := by
  induction entries with
  | nil => rfl
  | cons e rest ih =>
    rw [List.map_cons, List.lookup_cons, ih, List.lookup_cons]
    split <;> rfl

theorem lookup_reverse_eq_some (h : entries.reverse.lookup name = some x) :
    ∃ k, entries[k]? = some (name, x) ∧
      ∀ (j : Nat) (e : String × α), k < j → entries[j]? = some e → e.1 ≠ name := by
  obtain ⟨first, second, hsplit, hfirst⟩ := List.lookup_eq_some_iff.mp h
  have hentries : entries = second.reverse ++ (name, x) :: first.reverse := by
    rw [← List.reverse_reverse entries, hsplit]
    simp
  refine ⟨second.length, ?_, ?_⟩
  · rw [hentries, List.getElem?_append_right (by simp)]
    simp
  · intro j e hj he
    rw [hentries, List.getElem?_append_right (by simp; omega), List.length_reverse,
      show j - second.length = (j - second.length - 1) + 1 by omega, List.getElem?_cons_succ] at he
    have hmem : e ∈ first := List.mem_reverse.mp (List.mem_of_getElem? he)
    have hne : name ≠ e.1 := by simpa using hfirst e hmem
    exact hne.symm

end LoweringCheck
