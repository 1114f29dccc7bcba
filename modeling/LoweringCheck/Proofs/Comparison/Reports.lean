import LoweringCheck.Proofs.Comparison.Worst
/-!
# What a report says

Outputs are compared in order. What is reported is the first output whose shapes differ or that has a
rejected pair, and a report on values shows one of its rejected pairs where it stands in the output.
-/
namespace LoweringCheck

namespace Tensor

/-- The value at a coordinate. -/
def valueAt (t : Tensor) (c : List Nat) (h : Shape.Within t.shape c) : Single :=
  t.dtype.cast .f32 (t.grid.get c h)

private theorem valueAt_coordinate {t : Tensor} {shape : List Nat} (hshape : t.shape = shape) {i : Nat}
    {x : Single} (h : t.values.toList[i]? = some x) :
    t.values.getD i .zero = x ∧
      ∃ inside : Shape.Within t.shape (Shape.coordinate shape i), x = t.valueAt _ inside := by
  subst hshape
  have hx : t.values[i]? = some x := by simpa using h
  obtain ⟨hi, hget⟩ := Array.getElem?_eq_some_iff.mp hx
  have hvolume : i < Shape.volume t.shape := by
    rw [← t.size_eq_volume]
    simpa [values, size] using hi
  refine ⟨by simp [Array.getD, hi, hget], Shape.coordinate_within hvolume, ?_⟩
  have hoffset : Shape.offset t.grid.shape (Shape.coordinate t.shape i) = i :=
    Shape.offset_coordinate hvolume
  rw [← hget]
  simp only [valueAt, values, Grid.get, Array.getElem_map, hoffset]

end Tensor

/-- The first output that a tolerance does not accept. -/
structure FirstRefused (t : Tolerance) (expected actual : List Tensor) (k : Nat) (e a : Tensor) :
    Prop where
  expected_eq : expected[k]? = some e
  actual_eq : actual[k]? = some a
  refused : ¬ t.Accepts e a
  earlier : ∀ (j : Nat) (e' a' : Tensor), j < k → expected[j]? = some e' → actual[j]? = some a' →
    t.Accepts e' a'

/-- The report counts the rejected pairs of an output and shows one of them where it stands. -/
structure MismatchReport.Locates (r : MismatchReport) (t : Tolerance) (k : Nat) (e a : Tensor) :
    Prop where
  index : r.index = k
  rejected : r.difference.rejected =
    (e.values.toList.zip a.values.toList).countP fun p => !t.allows p.1 p.2
  total : r.total = e.size
  expected : ∃ inside : Shape.Within e.shape r.coordinate, r.expected = e.valueAt _ inside
  actual : ∃ inside : Shape.Within a.shape r.coordinate, r.actual = a.valueAt _ inside
  outside : t.allows r.expected r.actual = false

theorem compareOutput_eq_error {t : Tolerance} {index : Nat} {name : String} {e a : Tensor}
    {fault : ComparisonFault} (h : compareOutput t index name e a = .error fault) :
    ¬ t.Accepts e a ∧ ((e.shape ≠ a.shape ∧ fault = .shape index name e.shape a.shape) ∨
      (e.shape = a.shape ∧ ∃ report, fault = .values report ∧ report.name = name ∧
        report.Locates t index e a)) := by
  have hnot : ¬ t.Accepts e a := by
    intro haccepts
    rw [compareOutput_eq_ok.mpr ⟨haccepts, rfl⟩] at h
    cases h
  refine ⟨hnot, ?_⟩
  rw [compareOutput] at h
  split at h
  · rename_i hshape
    right
    refine ⟨hshape, ?_⟩
    dsimp only at h
    split at h
    · cases h
    · rename_i hrejected
      cases h
      refine ⟨_, rfl, rfl, ?_⟩
      obtain ⟨p, hp, hrejects⟩ := exists_rejected hrejected
      obtain ⟨hexpected, hactual⟩ := List.getElem?_zip_eq_some.mp hp
      obtain ⟨heval, heplace⟩ := Tensor.valueAt_coordinate rfl hexpected
      obtain ⟨haval, haplace⟩ := Tensor.valueAt_coordinate hshape.symm hactual
      constructor
      · rfl
      · exact rejected_compareValues t _ _
      · rfl
      · rw [heval]
        exact heplace
      · rw [haval]
        exact haplace
      · rw [heval, haval]
        exact hrejects
  · rename_i hshape
    cases h
    exact .inl ⟨hshape, rfl⟩

/-- A comparison stops at the first output with a fault. -/
theorem compareFrom_eq_error {t : Tolerance} {names : List String} {index : Nat} {start : Agreement}
    {pairs : List (Tensor × Tensor)} {fault : ComparisonFault}
    (h : compareFrom t names index start pairs = .error fault) :
    ∃ k p, pairs[k]? = some p ∧
      (∀ (j : Nat) (q : Tensor × Tensor), j < k → pairs[j]? = some q → t.Accepts q.1 q.2) ∧
      compareOutput t (index + k) (outputName names (index + k)) p.1 p.2 = .error fault := by
  induction pairs generalizing index start with
  | nil => cases h
  | cons p rest ih =>
    rw [compareFrom] at h
    split at h
    · rename_i hfirst
      cases h
      exact ⟨0, p, rfl, by simp, hfirst⟩
    · rename_i difference hfirst
      obtain ⟨k, q, hq, hearlier, hfault⟩ := ih h
      refine ⟨k + 1, q, hq, ?_, ?_⟩
      · intro j w hj hw
        cases j with
        | zero =>
          cases hw
          exact (compareOutput_eq_ok.mp hfirst).1
        | succ j => exact hearlier j w (by omega) hw
      · rw [show index + (k + 1) = index + 1 + k by omega]
        exact hfault

theorem compareOutputs_eq_error {t : Tolerance} {names : List String} {expected actual : List Tensor}
    {fault : ComparisonFault} (hlength : expected.length = actual.length)
    (h : compareOutputs t names expected actual = .error fault) :
    ∃ k e a, FirstRefused t expected actual k e a ∧
      compareOutput t k (outputName names k) e a = .error fault := by
  rw [compareOutputs, if_pos hlength] at h
  obtain ⟨k, p, hp, hearlier, hfault⟩ := compareFrom_eq_error h
  rw [Nat.zero_add] at hfault
  obtain ⟨hexpected, hactual⟩ := List.getElem?_zip_eq_some.mp hp
  refine ⟨k, p.1, p.2, ⟨hexpected, hactual, (compareOutput_eq_error hfault).1, ?_⟩, hfault⟩
  intro j e' a' hj he' ha'
  exact hearlier j (e', a') hj (List.getElem?_zip_eq_some.mpr ⟨he', ha'⟩)

private theorem compareOutputs_total {t : Tolerance} (names : List String) {expected actual : List Tensor}
    (h : List.Forall₂ t.Accepts expected actual) :
    ∃ agreement, compareOutputs t names expected actual = .ok agreement := by
  cases hcompare : compareOutputs t names expected actual with
  | ok agreement => exact ⟨agreement, rfl⟩
  | error fault =>
    obtain ⟨k, e, a, hrefused, -⟩ := compareOutputs_eq_error h.length_eq hcompare
    have hmem : (e, a) ∈ expected.zip actual :=
      List.mem_of_getElem? (List.getElem?_zip_eq_some.mpr ⟨hrefused.expected_eq, hrefused.actual_eq⟩)
    exact absurd ((List.forall₂_iff_zip.mp h).2 hmem) hrefused.refused

/-- Outputs pass exactly if there are as many on both sides, their shapes are the same in pairs and every
pair of values is within the tolerance; then all elements are counted. Otherwise, unless the numbers
differ, the fault is about the first output that does not pass: its shapes, or a report on its values. -/
theorem compareOutputs_reports_first (t : Tolerance) (names : List String)
    (expected actual : List Tensor) :
    ((∃ agreement, compareOutputs t names expected actual = .ok agreement) ↔
      List.Forall₂ t.Accepts expected actual) ∧
    (∀ agreement, compareOutputs t names expected actual = .ok agreement →
      agreement.elements = (expected.map Tensor.size).sum) ∧
    (expected.length ≠ actual.length → compareOutputs t names expected actual =
      .error (.outputCount expected.length actual.length)) ∧
    (expected.length = actual.length → ∀ fault,
      compareOutputs t names expected actual = .error fault →
      ∃ k e a, FirstRefused t expected actual k e a ∧
        ((e.shape ≠ a.shape ∧ fault = .shape k (outputName names k) e.shape a.shape) ∨
          (e.shape = a.shape ∧ ∃ report, fault = .values report ∧
            report.name = outputName names k ∧ report.Locates t k e a))) := by
  refine ⟨⟨?_, compareOutputs_total names⟩, ?_, ?_, ?_⟩
  · rintro ⟨agreement, hagreement⟩
    exact (compareOutputs_eq_ok hagreement).1
  · intro agreement hagreement
    exact (compareOutputs_eq_ok hagreement).2.2
  · intro hlength
    rw [compareOutputs, if_neg hlength]
  · intro hlength fault hfault
    obtain ⟨k, e, a, hrefused, houtput⟩ := compareOutputs_eq_error hlength hfault
    exact ⟨k, e, a, hrefused, (compareOutput_eq_error houtput).2⟩

/-- After an output without elements the second one is reported, at the place where NaN met a number: the
pair before it deviates by 3 only, and the infinities agree. -/
theorem compareOutputs_nan_worst :
    let exact : Tolerance := ⟨.zero, .zero⟩
    let empty : Tensor := ⟨.f32, [0, 3], #[], rfl⟩
    let e : Tensor := ⟨.f32, [2, 2], #[.ofInt .single 1, .nan, .infinite true, .ofInt .single 5], rfl⟩
    let a : Tensor :=
      ⟨.f32, [2, 2], #[.ofInt .single 4, .ofInt .single 7, .infinite true, .ofInt .single 5], rfl⟩
    let difference : Difference := ⟨1, .infinite false, .ofInt .single 3, 2⟩
    let report : MismatchReport :=
      ⟨1, "output_1", [0, 1], .nan, .ofInt .single 7, difference, 4, exact⟩
    compareOutputs exact ["first"] [empty, e] [empty, a] = .error (.values report) ∧
      FirstRefused exact [empty, e] [empty, a] 1 e a ∧ report.Locates exact 1 e a := by
  intro exact empty e a difference report
  have hfault : compareOutputs exact ["first"] [empty, e] [empty, a] = .error (.values report) := by
    decide +kernel
  refine ⟨hfault, ?_⟩
  obtain ⟨k, e', a', hfirst, hcase⟩ :=
    (compareOutputs_reports_first exact ["first"] [empty, e] [empty, a]).2.2.2 rfl _ hfault
  obtain ⟨-, hshape⟩ | ⟨-, report', hsame, -, hlocates⟩ := hcase
  · cases hshape
  · cases hsame
    have hk : 1 = k := hlocates.index
    subst hk
    cases hfirst.expected_eq
    cases hfirst.actual_eq
    exact ⟨hfirst, hlocates⟩

end LoweringCheck
