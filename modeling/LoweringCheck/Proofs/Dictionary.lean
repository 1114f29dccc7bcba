import LoweringCheck.Dictionary
import LoweringCheck.Proofs.Lookup
/-!
# Looking up in dictionaries

A dictionary answers the value that was put under a name last.
-/
namespace LoweringCheck.Dictionary
variable {α : Type}

@[simp] theorem get?_empty (name : String) : (empty : Dictionary α).get? name = none := rfl

private theorem lookup_insertEntry (name other : String) (x : α) (entries : List (String × α)) :
    (insertEntry name x entries).lookup other =
      if other = name then some x else entries.lookup other := by
  induction entries with
  | nil => exact lookup_cons_eq_ite [] other name x
  | cons e rest ih =>
    obtain ⟨k, y⟩ := e
    simp only [insertEntry]
    split
    · exact lookup_cons_eq_ite _ other name x
    · split
      · rename_i heq
        subst heq
        rw [lookup_cons_eq_ite, lookup_cons_eq_ite]
        by_cases h : other = name <;> simp only [h, if_true, if_false]
      · rename_i hne
        rw [lookup_cons_eq_ite, lookup_cons_eq_ite, ih]
        by_cases h : other = name
        · subst h
          rw [if_pos rfl, if_pos rfl, if_neg hne]
        · simp only [if_neg h]

theorem get?_insert (d : Dictionary α) (name other : String) (x : α) :
    (d.insert name x).get? other = if other = name then some x else d.get? other :=
  lookup_insertEntry name other x d.entries

private theorem insertEntry_append {name : String} {x : α} {entries : List (String × α)}
    (h : ∀ e ∈ entries, e.1 < name) : insertEntry name x entries = entries ++ [(name, x)] := by
  induction entries with
  | nil => rfl
  | cons e rest ih =>
    obtain ⟨k, y⟩ := e
    have hk : k < name := h (k, y) List.mem_cons_self
    rw [insertEntry, if_neg (String.lt_asymm hk), if_neg (String.ne_of_lt hk).symm,
      ih fun e he => h e (List.mem_cons_of_mem _ he)]
    rfl

private theorem eq_of_entries {d e : Dictionary α} (h : d.entries = e.entries) : d = e := by
  cases d
  cases e
  cases h
  rfl

theorem ofList_entries (d : Dictionary α) : ofList d.entries = d := by
  have hinsert : ∀ (es : List (String × α)) (start : Dictionary α),
      (start.entries ++ es).Pairwise (fun a b => a.1 < b.1) →
      (es.foldl (fun d e => d.insert e.1 e.2) start).entries = start.entries ++ es := by
    intro es
    induction es with
    | nil => exact fun start _ => (List.append_nil _).symm
    | cons e es ih =>
      intro start hsorted
      have hlast : (start.insert e.1 e.2).entries = start.entries ++ [e] :=
        insertEntry_append fun e' he' =>
          (List.pairwise_append.mp hsorted).2.2 e' he' e List.mem_cons_self
      rw [List.foldl_cons, ih, hlast, List.append_assoc, List.singleton_append]
      rwa [hlast, List.append_assoc, List.singleton_append]
  exact eq_of_entries (hinsert d.entries empty d.sorted)

theorem mem_ofList {es : List (String × α)} {e : String × α} (h : e ∈ (ofList es).entries) :
    e ∈ es := by
  have hfold : ∀ (es : List (String × α)) (start : Dictionary α),
      e ∈ (es.foldl (fun d e => d.insert e.1 e.2) start).entries → e ∈ start.entries ∨ e ∈ es := by
    intro es
    induction es with
    | nil => exact fun _ h => .inl h
    | cons first rest ih =>
      intro start hmem
      rcases ih _ hmem with hstart | hrest
      · rcases mem_insertEntry hstart with heq | hold
        · exact .inr (heq ▸ List.mem_cons_self)
        · exact .inl hold
      · exact .inr (List.mem_cons_of_mem _ hrest)
  exact (hfold es empty h).resolve_left List.not_mem_nil

end LoweringCheck.Dictionary
