import Mathlib.Data.List.Flatten
import Mathlib.Logic.Function.Iterate
import LoweringCheck.Proofs.Equivalence.Inputs
import LoweringCheck.Proofs.Tensor.Casting
/-!
# Inputs from one stream

A seed fixes a sequence of integers, and inputs take them in order, however they are shaped. Floating-point
types hold all of these integers, so what is read out does not depend on the types either.
-/
namespace LoweringCheck

namespace Random.Stream
variable {low : Int} {width : Nat}

/-- The stream behind its first integers. -/
def after (low : Int) (width : Nat) (s : Stream) (n : Nat) : Stream :=
  (fun s => (s.draw low width).2)^[n] s

/-- The integer at a place of the stream. -/
def integer (low : Int) (width : Nat) (s : Stream) (n : Nat) : Int := ((s.after low width n).draw low width).1

private theorem integer_range (low : Int) (hwidth : 0 < width) (s : Stream) (n : Nat) :
    low ≤ s.integer low width n ∧ s.integer low width n < low + width :=
  search_range hwidth _ _

private theorem integer_after (s : Stream) (m n : Nat) :
    (s.after low width m).integer low width n = s.integer low width (m + n) := by
  rw [integer, integer, after, after, after, ← Function.iterate_add_apply, Nat.add_comm]

private theorem draws_eq (n : Nat) (s : Stream) :
    s.draws low width n = ((List.range n).map (s.integer low width), s.after low width n) := by
  induction n generalizing s with
  | zero => rfl
  | succ n ih =>
    have hrest : ((s.draw low width).2.integer low width) = fun i => s.integer low width (i + 1) := by
      funext i
      rw [Nat.add_comm, ← integer_after]
      rfl
    simp only [draws, ih, List.range_succ_eq_map, List.map_cons, List.map_map, hrest]
    rfl

end Random.Stream

/-- The integer at a place of the sequence that a seed fixes. -/
def drawn (seed : UInt64) (i : Nat) : Int := (Random.Stream.ofSeed seed).integer (-255) 510 i

/-- The number of values of an input. -/
def InputSpec.count (spec : InputSpec) : Nat := Shape.volume spec.shape

private theorem drawValues_eq (count : Nat) (s : Random.Stream) :
    drawValues count s = ((List.range count).map fun i => Binary.ofInt .single (s.integer (-255) 510 i),
      s.after (-255) 510 count) := by
  simp only [drawValues, Random.Stream.draws_eq, List.map_map]
  rfl

private theorem Tensor.values_ofValues {data : List Single} {shape : List Nat} {dtype : DType} {t : Tensor}
    (hdtype : dtype.isFloat = true)
    (hdata : ∀ x ∈ data, ∃ i : Int, i.natAbs < 256 ∧ x = Binary.ofInt .single i)
    (h : ofValues data.toArray shape dtype = .ok t) : t.values.toList = data := by
  rw [ofValues] at h
  split at h
  case isFalse => cases h
  cases h
  have hread : ∀ x ∈ data, dtype.cast .f32 (DType.f32.cast dtype x) = x := by
    intro x hx
    obtain ⟨i, hi, rfl⟩ := hdata x hx
    exact (DType.cast_whole hdtype rfl hi).trans (DType.cast_f32_f32 _)
  simp only [values, List.map_toArray, List.map_map]
  exact (List.map_congr_left hread).trans (List.map_id _)

private theorem fillInputs_values {specs : List InputSpec}
    (hfloat : ∀ spec ∈ specs, spec.dtype.isFloat = true)
    {s : Random.Stream} {inputs : List Tensor} (h : fillInputs specs s = .ok inputs) :
    (inputs.map (·.values.toList)).flatten = (drawValues (specs.map InputSpec.count).sum s).1 := by
  induction specs generalizing s inputs with
  | nil =>
    cases h
    rfl
  | cons spec rest ih =>
    obtain ⟨hspec, hrest⟩ := List.forall_mem_cons.mp hfloat
    obtain ⟨t, ts, ht, hts, rfl⟩ := fillInputs_cons_eq_ok h
    have hvalues := Tensor.values_ofValues hspec (drawValues_whole _ s).2 ht
    have hlater := ih hrest hts
    rw [List.map_cons, List.flatten_cons, hvalues, hlater]
    simp only [drawValues_eq, Random.Stream.integer_after, List.map_cons, List.sum_cons, List.range_add,
      List.map_append, List.map_map]
    rfl

private theorem fillInputs_take {specs : List InputSpec} {s : Random.Stream} {inputs : List Tensor}
    (h : fillInputs specs s = .ok inputs) (k : Nat) :
    fillInputs (specs.take k) s = .ok (inputs.take k) := by
  induction specs generalizing s inputs k with
  | nil =>
    cases h
    rw [List.take_nil, List.take_nil, fillInputs]
  | cons spec rest ih =>
    obtain ⟨t, ts, ht, hts, rfl⟩ := fillInputs_cons_eq_ok h
    cases k with
    | zero => rfl
    | succ k => simp only [List.take_succ_cons, fillInputs, ht, ih hts k]

private theorem fillInputs_counts {specs : List InputSpec} {s : Random.Stream} {inputs : List Tensor}
    (h : fillInputs specs s = .ok inputs) :
    (inputs.map (·.values.toList)).map List.length = specs.map InputSpec.count := by
  have hfilled := fillInputs_eq_ok h
  clear h
  induction hfilled with
  | nil => rfl
  | @cons spec t _ _ hfirst _ ih =>
    have hcount : t.values.toList.length = spec.count := by
      rw [Array.length_toList, Tensor.values, Array.size_map, t.grid.size_eq, InputSpec.count, ← hfirst.1]
      rfl
    rw [List.map_cons, List.map_cons, List.map_cons, ih, hcount]

/-- Inputs of floating-point types are generated with the shapes and types asked for. Together they hold
the first integers that the seed fixes, in order, and none of these is changed by rounding. So inputs that
are as large as others in the same places hold the same values, whatever comes after them. -/
theorem generateInputs_stream {specs : List InputSpec}
    (hfloat : ∀ spec ∈ specs, spec.dtype.isFloat = true) (seed : UInt64) :
    (∀ i, -255 ≤ drawn seed i ∧ drawn seed i < 255) ∧
      ∃ inputs, generateInputs specs seed = .ok inputs ∧
        List.Forall₂ (fun spec t => t.shape = spec.shape ∧ t.dtype = spec.dtype) specs inputs ∧
        (inputs.map (·.values.toList)).flatten =
          (List.range (specs.map InputSpec.count).sum).map (fun i => Binary.ofInt .single (drawn seed i)) ∧
        ∀ (others : List InputSpec) (k : Nat), (∀ spec ∈ others, spec.dtype.isFloat = true) →
          (others.take k).map InputSpec.count = (specs.take k).map InputSpec.count →
          ∃ inputs', generateInputs others seed = .ok inputs' ∧
            (inputs'.take k).map Tensor.values = (inputs.take k).map Tensor.values := by
  refine ⟨Random.Stream.integer_range (-255) (by decide : 0 < 510) _, ?_⟩
  obtain ⟨inputs, hinputs⟩ := generateInputs_total specs seed
  refine ⟨inputs, hinputs, fillInputs_eq_ok hinputs, ?_, ?_⟩
  · rw [fillInputs_values hfloat hinputs, drawValues_eq]
    rfl
  · intro others k hothers hcounts
    obtain ⟨inputs', hinputs'⟩ := generateInputs_total others seed
    refine ⟨inputs', hinputs', ?_⟩
    have hfirst := fillInputs_take hinputs k
    have hfirst' := fillInputs_take hinputs' k
    have hvalues := fillInputs_values (fun spec hspec => hfloat spec (List.mem_of_mem_take hspec)) hfirst
    have hvalues' := fillInputs_values (fun spec hspec => hothers spec (List.mem_of_mem_take hspec)) hfirst'
    -- as many values from the same start of the stream, parted in the same way
    have hlists : (inputs'.take k).map (·.values.toList) = (inputs.take k).map (·.values.toList) := by
      refine List.eq_iff_flatten_eq.mpr ⟨?_, ?_⟩
      · rw [hvalues, hvalues', hcounts]
      · rw [fillInputs_counts hfirst, fillInputs_counts hfirst', hcounts]
    have harrays := congrArg (List.map List.toArray) hlists
    simpa only [List.map_map, Function.comp_def, Array.toArray_toList] using harrays

/-- A tensor in half precision, and one in full precision of another shape before one more. -/
theorem generateInputs_halfAndFull :
    ∃ half full other, generateInputs [⟨"x", [16, 16], .f16⟩] 3 = .ok [half] ∧
      generateInputs [⟨"y", [256], .f32⟩, ⟨"z", [2], .bf16⟩] 3 = .ok [full, other] ∧
      half.dtype = .f16 ∧ full.dtype = .f32 ∧ half.values = full.values := by
  have hfloat : ∀ spec ∈ [(⟨"x", [16, 16], .f16⟩ : InputSpec)], spec.dtype.isFloat = true := by decide
  obtain ⟨-, inputs, hinputs, hfilled, -, hsame⟩ := generateInputs_stream hfloat 3
  obtain ⟨inputs', hinputs', hvalues⟩ :=
    hsame [⟨"y", [256], .f32⟩, ⟨"z", [2], .bf16⟩] 1 (by decide) (by decide)
  have hfilled' := fillInputs_eq_ok hinputs'
  obtain ⟨half, _, hhalf, hnil, rfl⟩ := List.forall₂_cons_left_iff.mp hfilled
  cases hnil
  obtain ⟨full, _, hfull, hrest, rfl⟩ := List.forall₂_cons_left_iff.mp hfilled'
  obtain ⟨other, _, -, hnil, rfl⟩ := List.forall₂_cons_left_iff.mp hrest
  cases hnil
  exact ⟨half, full, other, hinputs, hinputs', hhalf.2, hfull.2, (List.cons.inj hvalues).1.symm⟩

end LoweringCheck
