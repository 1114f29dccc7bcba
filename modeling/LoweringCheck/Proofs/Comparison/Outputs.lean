import Mathlib.Algebra.Ring.Nat
import Mathlib.Data.List.Forall2
import LoweringCheck.Comparison.Outputs
import LoweringCheck.Proofs.Tensor.Slicing
/-!
# What comparisons decide

No pair is rejected if and only if a tolerance allows every pair. A comparison of outputs that finds no
fault has looked at all elements of all outputs. Equal outputs never differ, whatever the tolerance.
-/
namespace LoweringCheck

namespace Difference
variable (t : Tolerance)

private theorem rejected_step (p : Progress) (pair : Single × Single) :
    (step t p pair).found.rejected =
      p.found.rejected + if t.allows pair.1 pair.2 then 0 else 1 := by
  have hreject : ∀ far, (reject p far).found.rejected = p.found.rejected + 1 := by
    intro far
    unfold reject
    dsimp only
    split <;> rfl
  unfold step widen
  by_cases h : t.allows pair.1 pair.2 = true
  · simp [h]
  · simp [h, hreject]

private theorem rejected_foldl (p : Progress) (pairs : List (Single × Single)) :
    (pairs.foldl (step t) p).found.rejected =
      p.found.rejected + pairs.countP fun pair => !t.allows pair.1 pair.2 := by
  induction pairs generalizing p with
  | nil => rfl
  | cons pair rest ih =>
    rw [List.foldl_cons, ih, rejected_step, List.countP_cons]
    by_cases h : t.allows pair.1 pair.2 = true
    · simp [h]
    · simp only [h]
      simp
      omega

end Difference

theorem rejected_compareValues (t : Tolerance) (expected actual : List Single) :
    (compareValues t expected actual).rejected =
      (expected.zip actual).countP fun p => !t.allows p.1 p.2 := by
  have hstart : Difference.start.found.rejected = 0 := rfl
  rw [compareValues, Difference.rejected_foldl, hstart, Nat.zero_add]

private theorem rejected_eq_zero {t : Tolerance} {expected actual : List Single}
    (hlength : expected.length = actual.length) :
    (compareValues t expected actual).rejected = 0 ↔
      List.Forall₂ (fun x y => t.allows x y = true) expected actual := by
  rw [rejected_compareValues, List.countP_eq_zero, List.forall₂_iff_zip]
  simp [hlength]

/-- Outputs of equal shapes whose values all lie within a tolerance. -/
structure Tolerance.Accepts (t : Tolerance) (expected actual : Tensor) : Prop where
  shape : expected.shape = actual.shape
  values : List.Forall₂ (fun x y => t.allows x y = true) expected.values.toList
    actual.values.toList

private theorem length_values {t u : Tensor} (h : t.shape = u.shape) :
    t.values.toList.length = u.values.toList.length := by
  have hsize : t.size = u.size := by rw [t.size_eq_volume, u.size_eq_volume, h]
  simpa [Tensor.values, Tensor.size] using hsize

theorem compareOutput_eq_ok {t : Tolerance} {index : Nat} {name : String}
    {expected actual : Tensor} {d : Difference} :
    compareOutput t index name expected actual = .ok d ↔ t.Accepts expected actual ∧
      d = compareValues t expected.values.toList actual.values.toList := by
  rw [compareOutput]
  split
  · rename_i hshape
    have hzero := rejected_eq_zero (t := t) (length_values hshape)
    dsimp only
    split
    · rename_i hrejected
      constructor
      · intro h
        cases h
        exact ⟨⟨hshape, hzero.mp hrejected⟩, rfl⟩
      · rintro ⟨_, rfl⟩
        rfl
    · rename_i hrejected
      constructor
      · intro h
        cases h
      · rintro ⟨haccepts, _⟩
        exact absurd (hzero.mpr haccepts.values) hrejected
  · rename_i hshape
    constructor
    · intro h
      cases h
    · rintro ⟨haccepts, _⟩
      exact absurd haccepts.shape hshape

theorem compareFrom_eq_ok {t : Tolerance} {names : List String} {index : Nat}
    {start agreement : Agreement} {pairs : List (Tensor × Tensor)}
    (h : compareFrom t names index start pairs = .ok agreement) :
    (∀ p ∈ pairs, t.Accepts p.1 p.2) ∧ agreement.outputs = start.outputs ∧
      agreement.elements = start.elements + (pairs.map (·.1.size)).sum := by
  induction pairs generalizing index start with
  | nil =>
    cases h
    simp
  | cons p rest ih =>
    rw [compareFrom] at h
    split at h
    · cases h
    · rename_i difference hdifference
      obtain ⟨hrest, houtputs, helements⟩ := ih h
      refine ⟨?_, houtputs, ?_⟩
      · intro q hq
        rcases List.mem_cons.mp hq with rfl | hq
        · exact (compareOutput_eq_ok.mp hdifference).1
        · exact hrest q hq
      · rw [helements, List.map_cons, List.sum_cons, Nat.add_assoc]

/-- A comparison without fault has accepted as many outputs and elements as it says. -/
theorem compareOutputs_eq_ok {t : Tolerance} {names : List String} {expected actual : List Tensor}
    {agreement : Agreement} (h : compareOutputs t names expected actual = .ok agreement) :
    List.Forall₂ t.Accepts expected actual ∧ agreement.outputs = expected.length ∧
      agreement.elements = (expected.map Tensor.size).sum := by
  rw [compareOutputs] at h
  split at h
  · rename_i hlength
    obtain ⟨haccepts, houtputs, helements⟩ := compareFrom_eq_ok h
    refine ⟨List.forall₂_iff_zip.mpr ⟨hlength, haccepts _⟩, houtputs, ?_⟩
    rw [helements, Nat.zero_add]
    show (((expected.zip actual).map (Tensor.size ∘ Prod.fst))).sum = _
    rw [← List.map_map, List.map_fst_zip (Nat.le_of_eq hlength)]
  · cases h

/-! ## Equal outputs -/

private theorem Tolerance.allows_self (t : Tolerance) (x : Single) : t.allows x x = true := by
  cases x with
  | nan => rfl
  | signed negative code =>
    simp [allows, Binary.isNaN, Binary.equals, Binary.compares, Binary.rank]

private theorem deviation_self (x : Single) : deviation x x = .zero := by
  cases x with
  | nan => rfl
  | signed negative code =>
    simp [deviation, Binary.isNaN, Binary.equals, Binary.compares, Binary.rank]

private theorem Tolerance.accepts_of_values (t : Tolerance) {expected actual : Tensor}
    (hshape : expected.shape = actual.shape) (hvalues : expected.values = actual.values) :
    t.Accepts expected actual :=
  ⟨hshape, hvalues ▸ List.forall₂_same.mpr fun x _ => t.allows_self x⟩

private theorem max_zero_zero : Binary.max (.zero : Single) .zero = .zero := rfl

private theorem maxAbsolute_foldl (t : Tolerance) {p : Difference.Progress}
    (hp : p.found.maxAbsolute = .zero) (xs : List Single) :
    ((xs.zip xs).foldl (Difference.step t) p).found.maxAbsolute = .zero := by
  induction xs generalizing p with
  | nil => exact hp
  | cons x rest ih =>
    apply ih
    simp only [Difference.step, t.allows_self, if_true, deviation_self, Difference.widen, hp,
      max_zero_zero]

private theorem compareFrom_same (t : Tolerance) (names : List String) (index : Nat) {start : Agreement}
    (hstart : start.maxAbsolute = .zero) {pairs : List (Tensor × Tensor)}
    (hsame : ∀ p ∈ pairs, p.1.shape = p.2.shape ∧ p.1.values = p.2.values) :
    ∃ agreement, compareFrom t names index start pairs = .ok agreement ∧
      agreement.maxAbsolute = .zero := by
  induction pairs generalizing index start with
  | nil => exact ⟨start, rfl, hstart⟩
  | cons p rest ih =>
    obtain ⟨hshape, hvalues⟩ := hsame p List.mem_cons_self
    have hfirst : compareOutput t index (outputName names index) p.1 p.2 =
        .ok (compareValues t p.1.values.toList p.1.values.toList) :=
      compareOutput_eq_ok.mpr ⟨t.accepts_of_values hshape hvalues, by rw [hvalues]⟩
    rw [compareFrom, hfirst]
    apply ih _ _ fun q hq => hsame q (List.mem_cons_of_mem _ hq)
    show Binary.max start.maxAbsolute (compareValues _ _ _).maxAbsolute = .zero
    rw [hstart, compareValues, maxAbsolute_foldl t rfl, max_zero_zero]

theorem compareOutputs_same (t : Tolerance) (names : List String) {expected actual : List Tensor}
    (h : List.Forall₂ (fun e a => e.shape = a.shape ∧ e.values = a.values) expected actual) :
    ∃ agreement, compareOutputs t names expected actual = .ok agreement ∧
      agreement.maxAbsolute = .zero := by
  obtain ⟨hlength, hsame⟩ := List.forall₂_iff_zip.mp h
  rw [compareOutputs, if_pos hlength]
  exact compareFrom_same t names 0 rfl fun p hp => hsame hp

end LoweringCheck
