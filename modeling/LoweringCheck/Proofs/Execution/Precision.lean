import LoweringCheck.Proofs.Execution.Run
import LoweringCheck.Proofs.Operator.Uniform
import LoweringCheck.Proofs.Tensor.Casting
/-!
# Precision only rounds

A graph of operators that commute with casts runs in the same way at every precision: it finds the same
names, reads the same shapes and meets the same faults. So of tensors in single precision it computes at
another precision what it computes in single precision, with every element rounded on the way.
-/
namespace LoweringCheck

/-- The value that is read back after it was stored in half precision. -/
def Binary.throughHalf (x : Single) : Single := (x.convert .half).convert .single

namespace Tensor

/-- The tensor as it leaves a graph that ran on another element type. -/
def through (t : Tensor) (dtype : DType) : Tensor := (t.toDType dtype).toDType .f32

@[simp] theorem shape_through (t : Tensor) (dtype : DType) : (t.through dtype).shape = t.shape := by
  simp [through]

private theorem dtype_toDType (t : Tensor) (dtype : DType) : (t.toDType dtype).dtype = dtype := by
  by_cases h : t.dtype = dtype
  · rw [toDType, if_pos h, h]
  · rw [toDType, if_neg h]

theorem toDType_eq_self_iff {t : Tensor} {dtype : DType} :
    t.toDType dtype = t ↔ t.dtype = dtype := by
  constructor
  · intro h
    rw [← h]
    exact t.dtype_toDType dtype
  · intro h
    rw [toDType, if_pos h]

private theorem values_through_f16 {t : Tensor} (h : t.dtype = .f32) :
    (t.through .f16).values = t.values.map Binary.throughHalf := by
  obtain ⟨dtype, grid⟩ := t
  cases h
  rw [through, values_toDType_f32]
  show (grid.cells.map (DType.cast .f32 .f16)).map (DType.cast .f16 .f32) =
    (grid.cells.map (DType.cast .f32 .f32)).map Binary.throughHalf
  rw [Array.map_map, Array.map_map]
  rfl

end Tensor

namespace Graph
variable {ops : OperatorSet} {values : Values}

private theorem gather_cast (values : Values) (dtype : DType) (tensors : List String) :
    gather (values.toDType dtype) tensors =
      (gather values tensors).map (List.map (·.toDType dtype)) := by
  induction tensors with
  | nil => rfl
  | cons tensor rest ih =>
    rw [gather, gather, Values.lookup_toDType, ih]
    cases values.lookup tensor with
    | none => rfl
    | some t =>
      cases gather values rest with
      | ok ts => rfl
      | error fault => rfl

private theorem runNode_cast (hops : ops.Uniform) (n : Node) (values : Values) (dtype : DType) :
    runNode ops n (values.toDType dtype) = (runNode ops n values).map (·.toDType dtype) := by
  rw [runNode, runNode]
  cases hfind : ops.find n.op with
  | error e => rfl
  | ok op =>
    simp only [gather_cast]
    cases gather values n.inputs with
    | error fault => rfl
    | ok inputs =>
      simp only [Except.map, hops n.op op hfind dtype inputs n.attributes]
      cases op.execute inputs n.attributes with
      | error e => rfl
      | ok results =>
        simp only [List.length_map]
        split
        · simp [Values.toDType, List.zip_map_right, List.map_reverse, Prod.map]
        · rfl

private theorem runNodes_cast (hops : ops.Uniform) (g : Graph) (order : List Nat) (values : Values)
    (dtype : DType) : runNodes ops g order (values.toDType dtype) =
      (runNodes ops g order values).map (·.toDType dtype) := by
  induction order generalizing values with
  | nil => rfl
  | cons id rest ih =>
    rw [runNodes, runNodes]
    cases g.node? id with
    | none => rfl
    | some n =>
      simp only [runNode_cast hops]
      cases runNode ops n values with
      | error fault => rfl
      | ok next => exact ih next

private theorem runNodes_single (hops : ops.Uniform) {g : Graph} {order : List Nat} {last : Values}
    (hvalues : values.toDType .f32 = values) (h : runNodes ops g order values = .ok last) :
    last.toDType .f32 = last := by
  have hcast := runNodes_cast hops g order values .f32
  rw [hvalues, h] at hcast
  exact (Except.ok.inj hcast).symm

private theorem bindInputs_cast (dtype : DType) {pairs : List (Terminal × Tensor)}
    (hpairs : ∀ p ∈ pairs, p.2.dtype = .f32) (values : Values) :
    bindInputs dtype pairs (values.toDType dtype) =
      (bindInputs .f32 pairs values).map (·.toDType dtype) := by
  induction pairs generalizing values with
  | nil => rfl
  | cons p rest ih =>
    have hkept : p.2.toDType .f32 = p.2 :=
      Tensor.toDType_eq_self_iff.mpr (hpairs p List.mem_cons_self)
    rw [bindInputs, bindInputs, hkept]
    split
    · exact ih (fun q hq => hpairs q (List.mem_cons_of_mem _ hq)) ((p.1.name, p.2) :: values)
    · rfl

private theorem bindInputs_single {pairs : List (Terminal × Tensor)} {bound : Values}
    (hpairs : ∀ p ∈ pairs, p.2.dtype = .f32) (h : bindInputs .f32 pairs [] = .ok bound) :
    bound.toDType .f32 = bound := by
  have hcast := bindInputs_cast .f32 hpairs []
  rw [show Values.toDType [] .f32 = [] from rfl, h] at hcast
  exact (Except.ok.inj hcast).symm

private theorem lookup_single (hvalues : values.toDType .f32 = values) {name : String} {t : Tensor}
    (h : values.lookup name = some t) : t.toDType .f32 = t := by
  have hcast := values.lookup_toDType .f32 name
  rw [hvalues, h] at hcast
  exact (Option.some.inj hcast).symm

private theorem collect_cast (hvalues : values.toDType .f32 = values) (dtype : DType)
    (xs : List Terminal) : collect (values.toDType dtype) xs =
      (collect values xs).map (List.map (·.through dtype)) := by
  induction xs with
  | nil => rfl
  | cons x rest ih =>
    rw [collect, collect, Values.lookup_toDType, ih]
    cases hlookup : values.lookup x.name with
    | none => rfl
    | some t =>
      simp only [Option.map_some, Tensor.shape_toDType, lookup_single hvalues hlookup]
      split
      · cases collect values rest with
        | ok ts => rfl
        | error fault => rfl
      · rfl

private theorem collect_single {xs : List Terminal} {outputs : List Tensor}
    (h : collect values xs = .ok outputs) : ∀ t ∈ outputs, t.dtype = .f32 := by
  induction xs generalizing outputs with
  | nil =>
    cases h
    simp
  | cons x rest ih =>
    rw [collect] at h
    split at h
    · cases h
    · rename_i t _
      split at h
      · split at h
        · rename_i ts hrest
          cases h
          intro u hu
          rcases List.mem_cons.mp hu with rfl | hu
          · exact t.dtype_toDType .f32
          · exact ih hrest u hu
        · cases h
      · cases h

private theorem dtype_of_run {g : Graph} {precision : Precision} {inputs outputs : List Tensor}
    (h : g.run ops precision inputs = .ok outputs) : ∀ t ∈ outputs, t.dtype = .f32 := by
  rw [run] at h
  split at h
  · split at h
    · cases h
    · split at h
      · cases h
      · rw [runInOrder] at h
        split at h
        · cases h
        · exact collect_single h
  · cases h

/-- At every precision a graph computes of tensors in single precision what it computes in single
precision, cast to the element type of the precision and back. -/
theorem run_cast (hops : ops.Uniform) (g : Graph) (precision : Precision) {inputs : List Tensor}
    (hinputs : ∀ t ∈ inputs, t.dtype = .f32) : g.run ops precision inputs =
      (g.run ops .fp32 inputs).map (List.map (·.through precision.dtype)) := by
  have hpairs : ∀ p ∈ g.inputs.zip inputs, p.2.dtype = .f32 :=
    fun p hp => hinputs p.2 (List.of_mem_zip hp).2
  have hbound := bindInputs_cast precision.dtype hpairs []
  rw [run, run]
  split
  · rw [show bindInputs precision.dtype (g.inputs.zip inputs) [] = _ from hbound]
    simp only [Precision.dtype]
    cases hbind : bindInputs .f32 (g.inputs.zip inputs) [] with
    | error fault => rfl
    | ok values =>
      have hvalues := bindInputs_single hpairs hbind
      cases g.schedule with
      | error fault => rfl
      | ok order =>
        simp only [Except.map, runInOrder, runNodes_cast hops]
        cases hrun : runNodes ops g order values with
        | error fault => rfl
        | ok last => exact collect_cast (runNodes_single hops hvalues hrun) _ _
  · rfl

/-- In half precision a graph of standard operators runs on tensors in single precision exactly if it does
in single precision, with the same fault otherwise. The outputs have the same shapes, and every element is
rounded to half precision and read back. -/
theorem run_fp16_rounds (g : Graph) {inputs : List Tensor}
    (hinputs : ∀ t ∈ inputs, t.dtype = .f32) :
    (∃ outputs rounded, g.run .standard .fp32 inputs = .ok outputs ∧
      g.run .standard .fp16 inputs = .ok rounded ∧
      List.Forall₂ (fun t r : Tensor => t.dtype = .f32 ∧ r.dtype = .f32 ∧ r.shape = t.shape ∧
        r.values = t.values.map Binary.throughHalf) outputs rounded) ∨
    ∃ fault, g.run .standard .fp32 inputs = .error fault ∧
      g.run .standard .fp16 inputs = .error fault := by
  have hcast := run_cast OperatorSet.uniform_standard g .fp16 hinputs
  cases hrun : g.run .standard .fp32 inputs with
  | error fault =>
    right
    rw [hrun] at hcast
    exact ⟨fault, rfl, hcast⟩
  | ok outputs =>
    left
    rw [hrun] at hcast
    refine ⟨outputs, _, rfl, hcast, ?_⟩
    apply List.forall₂_map_right_iff.mpr
    apply List.forall₂_same.mpr
    intro t ht
    have hdtype := dtype_of_run hrun t ht
    exact ⟨hdtype, Tensor.dtype_toDType _ .f32, t.shape_through .f16, Tensor.values_through_f16 hdtype⟩

/-- Drops the first of its values. -/
def dropping : Graph where
  nodes := [⟨0, "Slice", none, ["x"], ["rest"],
    .ofList [("starts", .ints [1]), ("ends", .ints [3]), ("axes", .ints [-1])]⟩]
  edges := []
  inputs := [⟨"x", [0], .f32⟩]
  outputs := [⟨"rest", [0], .f32⟩]
  metadata := .empty

/-- Half precision has no 2049, and everything from 65520 on is infinite. -/
theorem run_dropping_fp16 :
    let t : Tensor := ⟨.f32, [3], #[.nan, .ofInt .single 2049, .ofInt .single 70000], rfl⟩
    ∃ rest rounded, dropping.run .standard .fp32 [t] = .ok [rest] ∧
      dropping.run .standard .fp16 [t] = .ok [rounded] ∧
      rest.values = #[.ofInt .single 2049, .ofInt .single 70000] ∧
      rounded.values = #[.ofInt .single 2048, .infinite false] := by
  intro t
  rcases run_fp16_rounds dropping (by simp [t] : ∀ u ∈ [t], u.dtype = .f32) with
    ⟨outputs, rounded, hsingle, hhalf, hpairs⟩ | ⟨fault, hfault, -⟩
  · cases hsingle
    cases hpairs with
    | cons hfirst hrest =>
      cases hrest
      refine ⟨_, _, rfl, hhalf, ?_, ?_⟩
      · decide +kernel
      · rw [hfirst.2.2.2]
        decide +kernel
  · cases hfault

end Graph
end LoweringCheck
