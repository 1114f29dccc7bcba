import Mathlib.Order.Fin.Basic
import Mathlib.Order.MinMax
import LoweringCheck.Proofs.Comparison.Worst
/-!
# The largest deviations

A comparison keeps three extremes of different pairs: the place of the rejected pair that deviates most, the
largest deviation of all pairs, and the largest proportion of the pairs whose expected value lies beyond the
absolute term. A proportion of two infinities or of two zeros is NaN and gives way to all others.
-/
namespace LoweringCheck

namespace Binary
variable {f : Format}

/-- NaN, or a number that is not negative. -/
inductive Unsigned : Binary f → Prop
  | nan : Unsigned .nan
  | number {code : Fin (f.infinity + 1)} : Unsigned (.signed false code)

/-- The largest of some values, zero if there are none. -/
inductive Greatest : List (Binary f) → Binary f → Prop
  | none : Greatest [] .zero
  | among {values : List (Binary f)} {x : Binary f} (mem : x ∈ values)
      (most : ∀ y ∈ values, y.atMost x = true) : Greatest values x

@[simp] theorem atMost_signed_false (a b : Fin (f.infinity + 1)) :
    atMost (.signed false a : Binary f) (.signed false b) = decide (a ≤ b) := by
  simp only [atMost, compares, rank, Bool.false_eq_true, if_false]
  apply decide_eq_decide.mpr
  exact Int.ofNat_le

private theorem max_nan (x : Binary f) : x.max .nan = x := by
  cases x <;> rfl

private theorem max_signed_false (a b : Fin (f.infinity + 1)) :
    max (.signed false a : Binary f) (.signed false b) = .signed false (Max.max a b) := by
  simp only [max, isNaN, Bool.false_eq_true, if_false, less_signed_false, decide_eq_true_eq]
  split
  · rename_i hlt
    rw [max_eq_right hlt.le]
  · rename_i hle
    rw [max_eq_left (not_lt.mp hle)]

private theorem div_unsigned (a : Fin (f.infinity + 1)) (x : Binary f) :
    (div (.signed false a) x.abs).Unsigned := by
  cases x with
  | nan => exact .nan
  | signed negative b =>
    simp only [abs, div]
    split_ifs
    · exact .nan
    · exact .number
    · exact .number
    · exact .nan
    · exact .number
    · exact .number

private theorem foldl_max_unsigned {values : List (Binary f)} (h : ∀ x ∈ values, x.Unsigned)
    (start : Fin (f.infinity + 1)) :
    ∃ code, values.foldl max (.signed false start) = .signed false code ∧ start ≤ code ∧
      (code = start ∨ .signed false code ∈ values) ∧
      ∀ b, .signed false b ∈ values → b ≤ code := by
  induction values generalizing start with
  | nil => exact ⟨start, rfl, le_refl _, .inl rfl, by simp⟩
  | cons x rest ih =>
    have hrest : ∀ y ∈ rest, y.Unsigned := fun y hy => h y (List.mem_cons_of_mem _ hy)
    cases h x List.mem_cons_self with
    | nan =>
      obtain ⟨code, hfold, hstart, hmem, hmost⟩ := ih hrest start
      refine ⟨code, ?_, hstart, hmem.imp_right (List.mem_cons_of_mem _), ?_⟩
      · rw [List.foldl_cons, max_nan, hfold]
      · intro b hb
        exact hmost b ((List.mem_cons.mp hb).resolve_left nofun)
    | @number first =>
      obtain ⟨code, hfold, hstart, hmem, hmost⟩ := ih hrest (Max.max start first)
      refine ⟨code, ?_, (le_max_left _ _).trans hstart, ?_, ?_⟩
      · rw [List.foldl_cons, max_signed_false, hfold]
      · rcases hmem with rfl | hmem
        · rcases max_choice start first with heq | heq
          · exact .inl heq
          · rw [heq]
            exact .inr List.mem_cons_self
        · exact .inr (List.mem_cons_of_mem _ hmem)
      · intro b hb
        rcases List.mem_cons.mp hb with heq | hb
        · cases heq
          exact (le_max_right _ _).trans hstart
        · exact hmost b hb

private theorem greatest_foldl_max {values : List (Binary f)} (h : ∀ x ∈ values, x.Unsigned) :
    Greatest (values.filter fun x => !x.isNaN) (values.foldl max .zero) := by
  obtain ⟨code, hfold, -, hmem, hmost⟩ := foldl_max_unsigned h ⟨min 0 f.infinity, by omega⟩
  rw [zero, ofCode, hfold]
  have hnumbers : ∀ y ∈ values.filter (fun x => !x.isNaN), ∃ b, y = .signed false b ∧ b ≤ code := by
    intro y hy
    obtain ⟨hvalue, hnumber⟩ := List.mem_filter.mp hy
    cases h y hvalue with
    | nan => cases hnumber
    | @number b => exact ⟨b, rfl, hmost b hvalue⟩
  by_cases hnone : values.filter (fun x => !x.isNaN) = []
  · rcases hmem with rfl | hmem
    · rw [hnone]
      exact .none
    · have hkept : (.signed false code : Binary f) ∈ values.filter fun x => !x.isNaN :=
        List.mem_filter.mpr ⟨hmem, rfl⟩
      rw [hnone] at hkept
      cases hkept
  · refine .among ?_ ?_
    · rcases hmem with hstart | hmem
      · -- the start is zero, so what does not lie above it equals it
        obtain ⟨y, hy⟩ := List.exists_mem_of_ne_nil _ hnone
        obtain ⟨b, rfl, hb⟩ := hnumbers y hy
        have heq : b = code := by
          apply le_antisymm hb
          rw [hstart, Fin.le_def]
          simp
        exact heq ▸ hy
      · exact List.mem_filter.mpr ⟨hmem, rfl⟩
    · intro y hy
      obtain ⟨b, rfl, hb⟩ := hnumbers y hy
      simpa using hb

end Binary

/-- The deviation in proportion to the expected value. -/
def proportion (p : Single × Single) : Single := (deviation p.1 p.2).div p.1.abs

/-- The expected value of a pair lies beyond the absolute term. -/
def Tolerance.weighs (t : Tolerance) (p : Single × Single) : Bool := t.absolute.less p.1.abs

namespace Difference
variable (t : Tolerance)

private theorem maxima_step (p : Progress) (q : Single × Single) :
    (step t p q).found.maxAbsolute = p.found.maxAbsolute.max (deviation q.1 q.2) ∧
      (step t p q).found.maxRelative =
        if t.weighs q then p.found.maxRelative.max (proportion q) else p.found.maxRelative := by
  have hreject : ∀ far, (reject p far).found.maxAbsolute = p.found.maxAbsolute ∧
      (reject p far).found.maxRelative = p.found.maxRelative := by
    intro far
    unfold reject
    dsimp only
    split <;> exact ⟨rfl, rfl⟩
  unfold step widen
  by_cases h : t.allows q.1 q.2 = true
  · simp only [h, if_true]
    exact ⟨trivial, rfl⟩
  · simp only [h, Bool.false_eq_true, if_false, hreject]
    exact ⟨trivial, rfl⟩

private theorem maxAbsolute_eq_foldl (p : Progress) (pairs : List (Single × Single)) :
    (pairs.foldl (step t) p).found.maxAbsolute =
      (pairs.map fun q => deviation q.1 q.2).foldl Binary.max p.found.maxAbsolute := by
  induction pairs generalizing p with
  | nil => rfl
  | cons q rest ih => rw [List.foldl_cons, ih, (maxima_step t p q).1, List.map_cons, List.foldl_cons]

private theorem maxRelative_eq_foldl (p : Progress) (pairs : List (Single × Single)) :
    (pairs.foldl (step t) p).found.maxRelative =
      ((pairs.filter t.weighs).map proportion).foldl Binary.max p.found.maxRelative := by
  induction pairs generalizing p with
  | nil => rfl
  | cons q rest ih =>
    rw [List.foldl_cons, ih, (maxima_step t p q).2]
    by_cases h : t.weighs q = true
    · rw [List.filter_cons_of_pos h, List.map_cons, List.foldl_cons, if_pos h]
    · rw [List.filter_cons_of_neg h, if_neg h]

end Difference

private theorem deviation_isNaN (expected actual : Single) : (deviation expected actual).isNaN = false := by
  obtain ⟨code, hcode⟩ := exists_deviation expected actual
  rw [hcode]
  rfl

private theorem proportion_unsigned (p : Single × Single) : (proportion p).Unsigned := by
  obtain ⟨code, hcode⟩ := exists_deviation p.1 p.2
  rw [proportion, hcode]
  exact Binary.div_unsigned code p.1

/-- A comparison, whatever the values and the tolerance: no deviation is NaN, and what is reported are the
place of the first rejected pair that deviates most, the largest deviation of all pairs, and the largest
proportion, where it is a number, of the pairs whose expected value lies beyond the absolute term. -/
theorem compareValues_extremes (t : Tolerance) (expected actual : List Single) :
    let pairs := expected.zip actual
    let difference := compareValues t expected actual
    (∀ p ∈ pairs, (deviation p.1 p.2).isNaN = false) ∧
    (∃ far, Difference.Worst t pairs difference.worst far) ∧
    Binary.Greatest (pairs.map fun p => deviation p.1 p.2) difference.maxAbsolute ∧
    Binary.Greatest (((pairs.filter t.weighs).map proportion).filter fun x => !x.isNaN)
      difference.maxRelative := by
  intro pairs difference
  refine ⟨fun p _ => deviation_isNaN p.1 p.2, worst_compareValues t expected actual, ?_, ?_⟩
  · have hdeviations : ∀ x ∈ pairs.map (fun p => deviation p.1 p.2), x.Unsigned ∧ x.isNaN = false := by
      intro x hx
      obtain ⟨p, -, rfl⟩ := List.mem_map.mp hx
      obtain ⟨code, hcode⟩ := exists_deviation p.1 p.2
      rw [hcode]
      exact ⟨.number, rfl⟩
    have hgreatest := Binary.greatest_foldl_max fun x hx => (hdeviations x hx).1
    rw [List.filter_eq_self.mpr fun x hx => by simp [(hdeviations x hx).2]] at hgreatest
    show Binary.Greatest _ (compareValues t expected actual).maxAbsolute
    rw [compareValues, Difference.maxAbsolute_eq_foldl]
    exact hgreatest
  · have hproportions : ∀ x ∈ (pairs.filter t.weighs).map proportion, x.Unsigned := by
      intro x hx
      obtain ⟨p, -, rfl⟩ := List.mem_map.mp hx
      exact proportion_unsigned p
    show Binary.Greatest _ (compareValues t expected actual).maxRelative
    rw [compareValues, Difference.maxRelative_eq_foldl]
    exact Binary.greatest_foldl_max hproportions

end LoweringCheck
