import Mathlib.Data.List.Forall2
import LoweringCheck.Proofs.Dictionary
/-!
# Replacing every value

A replacement that may fail is made for all values of a list or a dictionary, and one failure is the
failure of all.
-/
namespace LoweringCheck
variable {α β γ : Type} {f : α → Option β}

theorem mapM_eq_some_iff {as : List α} {bs : List β} :
    as.mapM f = some bs ↔ List.Forall₂ (fun a b => f a = some b) as bs := by
  induction as generalizing bs with
  | nil => cases bs <;> simp
  | cons a as ih =>
    rw [List.mapM_cons, List.forall₂_cons_left_iff]
    simp only [bind, pure, Option.bind_eq_some_iff, Option.some.injEq, ih]
    exact ⟨fun ⟨b, hb, bs, hbs, h⟩ => ⟨b, bs, hb, hbs, h.symm⟩,
      fun ⟨b, bs, hb, hbs, h⟩ => ⟨b, hb, bs, hbs, h.symm⟩⟩

theorem mapM_eq_self_iff {f : α → Option α} {as : List α} :
    as.mapM f = some as ↔ ∀ a ∈ as, f a = some a := by
  rw [mapM_eq_some_iff, List.forall₂_same]

theorem mapM_eq_none {as : List α} {a : α} (ha : a ∈ as) (h : f a = none) : as.mapM f = none := by
  induction as with
  | nil => cases ha
  | cons first rest ih =>
    rw [List.mapM_cons]
    rcases List.mem_cons.mp ha with rfl | ha
    · rw [h]
      rfl
    · rw [ih ha]
      cases f first <;> rfl

theorem map_eq_of_mapM {as : List α} {bs : List β} {k : α → γ} {k' : β → γ}
    (h : as.mapM f = some bs) (hkeep : ∀ a b, f a = some b → k' b = k a) : bs.map k' = as.map k := by
  rw [mapM_eq_some_iff] at h
  induction h with
  | nil => rfl
  | cons hab _ ih => rw [List.map_cons, List.map_cons, hkeep _ _ hab, ih]

namespace Dictionary

/-- The entries with their values replaced, if all of them can be. -/
def map? (f : α → Option β) (d : Dictionary α) : Option (Dictionary β) :=
  (d.entries.mapM fun e => (f e.2).map (e.1, ·)).map ofList

theorem map?_eq_self_iff {f : α → Option α} {d : Dictionary α} :
    d.map? f = some d ↔ ∀ e ∈ d.entries, f e.2 = some e.2 := by
  have hentry : ∀ e : String × α, (f e.2).map (e.1, ·) = some e ↔ f e.2 = some e.2 := by
    rintro ⟨name, y⟩
    simp [Option.map_eq_some_iff]
  have hself : d.entries.mapM (fun e => (f e.2).map (e.1, ·)) = some d.entries ↔
      ∀ e ∈ d.entries, f e.2 = some e.2 := by
    simp only [mapM_eq_self_iff, hentry]
  rw [← hself, map?, Option.map_eq_some_iff]
  refine ⟨fun ⟨es, hes, hd⟩ => ?_, fun h => ⟨d.entries, h, d.ofList_entries⟩⟩
  -- the names are the same, so the entries are in order already
  have hnames : es.map Prod.fst = d.entries.map Prod.fst := map_eq_of_mapM hes fun e e' he => by
    obtain ⟨x, -, rfl⟩ := Option.map_eq_some_iff.mp he
    rfl
  have hsorted : es.Pairwise fun a b => a.1 < b.1 := by
    rw [← List.pairwise_map (f := Prod.fst) (R := (· < ·)), hnames]
    exact List.pairwise_map.mpr d.sorted
  rw [ofList_entries ⟨es, hsorted⟩] at hd
  rwa [← hd] at hes ⊢

theorem map?_eq_none {d : Dictionary α} {e : String × α} (he : e ∈ d.entries) (h : f e.2 = none) :
    d.map? f = none := by
  rw [map?, mapM_eq_none he (by rw [h]; rfl), Option.map_none]

end Dictionary
end LoweringCheck
