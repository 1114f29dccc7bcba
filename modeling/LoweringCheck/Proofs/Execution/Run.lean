import Mathlib.Data.List.Forall2
import LoweringCheck.Execution.Run
import LoweringCheck.Proofs.Lookup
import LoweringCheck.Proofs.Tensor.Slicing
/-!
# Entering and leaving a graph

What a terminal accepts is an extent for every axis, any one where 0 is declared. The values that enter
are cast to the element type of a precision, those that leave to single precision.
-/
namespace LoweringCheck

theorem Terminal.accepts_iff {x : Terminal} {shape : List Nat} :
    x.accepts shape = true ↔ List.Forall₂ (fun d e => d = 0 ∨ d = e) x.shape shape := by
  rw [List.forall₂_iff_zip, accepts]
  simp [List.all_eq_true]

private theorem forall₂_extents {declared shape : List Nat} (hpos : 0 ∉ declared) :
    List.Forall₂ (fun d e => d = 0 ∨ d = e) declared shape ↔ declared = shape := by
  induction declared generalizing shape with
  | nil => simp [eq_comm]
  | cons d rest ih =>
    rw [List.mem_cons, not_or] at hpos
    cases shape with
    | nil => simp
    | cons e shape =>
      rw [List.forall₂_cons, ih hpos.2, List.cons.injEq, or_iff_right (Ne.symm hpos.1)]

theorem Terminal.accepts_cons {name : String} {batch : Nat} {declared shape : List Nat}
    {dtype : DType} (hpos : 0 ∉ declared) :
    Terminal.accepts ⟨name, batch :: declared, dtype⟩ shape = true ↔
      ∃ b, shape = b :: declared ∧ (batch = 0 ∨ batch = b) := by
  rw [accepts_iff]
  cases shape with
  | nil => simp
  | cons b rest =>
    rw [List.forall₂_cons, forall₂_extents hpos]
    simp only [List.cons.injEq]
    constructor
    · rintro ⟨hbatch, rfl⟩
      exact ⟨b, ⟨rfl, rfl⟩, hbatch⟩
    · rintro ⟨b', ⟨rfl, rfl⟩, hbatch⟩
      exact ⟨hbatch, rfl⟩

namespace Values

def toDType (values : Values) (dtype : DType) : Values :=
  values.map fun v => (v.1, v.2.toDType dtype)

theorem lookup_toDType (values : Values) (dtype : DType) (name : String) :
    (values.toDType dtype).lookup name = (values.lookup name).map (·.toDType dtype) :=
  lookup_map (fun t : Tensor => t.toDType dtype) values name

end Values

namespace Graph

private theorem bindInputs_eq {dtype : DType} {pairs : List (Terminal × Tensor)} {values : Values}
    (h : ∀ p ∈ pairs, p.1.accepts p.2.shape = true) : bindInputs dtype pairs values =
      .ok ((pairs.map fun p => (p.1.name, p.2.toDType dtype)).reverse ++ values) := by
  induction pairs generalizing values with
  | nil => rfl
  | cons p rest ih =>
    rw [bindInputs, if_pos (h p List.mem_cons_self), ih fun q hq => h q (List.mem_cons_of_mem _ hq)]
    simp

theorem bindInputs_eq_ok {dtype : DType} {pairs : List (Terminal × Tensor)}
    {values bound : Values} (h : bindInputs dtype pairs values = .ok bound) :
    ∀ p ∈ pairs, p.1.accepts p.2.shape = true := by
  induction pairs generalizing values with
  | nil => simp
  | cons p rest ih =>
    rw [bindInputs] at h
    split at h
    · rename_i haccepts
      intro q hq
      rcases List.mem_cons.mp hq with rfl | hq
      · exact haccepts
      · exact ih h q hq
    · cases h

theorem collect_eq {values : Values} {xs : List Terminal} {ts : List Tensor}
    (h : List.Forall₂ (fun x t => values.lookup x.name = some t ∧ x.accepts t.shape = true) xs ts) :
    collect values xs = .ok (ts.map (·.toDType .f32)) := by
  induction h with
  | nil => rfl
  | cons hx _ ih => simp only [collect, hx.1, if_pos hx.2, ih, List.map_cons]

theorem accepts_of_run {g : Graph} {ops : OperatorSet} {precision : Precision}
    {inputs outputs : List Tensor} (h : g.run ops precision inputs = .ok outputs) :
    List.Forall₂ (fun x t => x.accepts t.shape = true) g.inputs inputs := by
  rw [run] at h
  split at h
  · rename_i hlength
    split at h
    · cases h
    · rename_i bound hbound
      exact List.forall₂_iff_zip.mpr ⟨hlength.symm, bindInputs_eq_ok hbound _⟩
  · cases h

/-- A graph runs if its nodes do, in the order of its schedule. -/
theorem run_eq {g : Graph} {ops : OperatorSet} {precision : Precision} {inputs : List Tensor}
    {order : List Nat} (horder : g.schedule = .ok order)
    (haccepts : List.Forall₂ (fun x t => x.accepts t.shape = true) g.inputs inputs) :
    g.run ops precision inputs = g.runInOrder ops order
      ((g.inputs.zip inputs).map fun p => (p.1.name, p.2.toDType precision.dtype)).reverse := by
  obtain ⟨hlength, hall⟩ := List.forall₂_iff_zip.mp haccepts
  rw [run, if_pos hlength.symm, bindInputs_eq fun p hp => hall hp, List.append_nil]
  simp only [horder]

theorem run_of_schedule_error {g : Graph} {ops : OperatorSet} {precision : Precision} {inputs : List Tensor}
    {fault : ScheduleFault} (hfault : g.schedule = .error fault)
    (haccepts : List.Forall₂ (fun x t => x.accepts t.shape = true) g.inputs inputs) :
    g.run ops precision inputs = .error (.schedule fault) := by
  obtain ⟨hlength, hall⟩ := List.forall₂_iff_zip.mp haccepts
  rw [run, if_pos hlength.symm, bindInputs_eq fun p hp => hall hp]
  simp only [hfault]

end Graph
end LoweringCheck
