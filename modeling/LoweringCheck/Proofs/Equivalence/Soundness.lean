import LoweringCheck.Proofs.Comparison.Outputs
import LoweringCheck.Proofs.Equivalence.Completeness
import LoweringCheck.Proofs.Equivalence.Stages
import LoweringCheck.Proofs.Graph.Schedule
import LoweringCheck.Proofs.Model.Execution
import LoweringCheck.Proofs.Model.Trace
/-!
# Soundness

A case passes only if the graph that was read back puts out what the model does, whatever the
converter and the provider are. Nothing passes without elements to compare: no tensor on the way is empty.
-/
namespace LoweringCheck

namespace Reference

private theorem firstDifference_eq_none {α : Type} [DecidableEq α] {position : Nat} {xs ys : List α}
    (hlength : xs.length = ys.length) (h : firstDifference position xs ys = none) : xs = ys := by
  induction xs generalizing position ys with
  | nil => exact (List.eq_nil_of_length_eq_zero hlength.symm).symm
  | cons x xs ih =>
    cases ys with
    | nil => cases hlength
    | cons y ys =>
      rw [firstDifference] at h
      split at h
      · rename_i heq
        rw [heq, ih (Nat.succ.inj hlength) h]
      · cases h

theorem checkOps_eq_ok {expected found : List String} (h : checkOps expected found = .ok ()) :
    expected = found := by
  rw [checkOps] at h
  split at h
  · cases h
  · rename_i hnone
    split at h
    · rename_i hlength
      exact firstDifference_eq_none hlength hnone
    · cases h

theorem checkOutputs_eq_ok {expected found : List (List Nat)}
    (h : checkOutputs expected found = .ok ()) : expected = [] ∨ expected = found := by
  rw [checkOutputs] at h
  split at h
  · rename_i hempty
    exact .inl (by simpa using hempty)
  · split at h
    · rename_i hlength
      split at h
      · cases h
      · rename_i hnone
        exact .inr (firstDifference_eq_none hlength hnone)
    · cases h

/-- A graph has the operators in an order that follows its edges and, where any are given, the output
shapes of a reference. -/
structure Describes (r : Reference) (g : Graph) : Prop where
  ops : ∃ order, g.IsSchedule order ∧ g.schedule = .ok order ∧
    order.map (fun id => (g.node? id).map (·.op)) = r.ops.map some
  outputShapes : r.outputShapes = [] ∨ r.outputShapes = g.outputs.map (·.shape)

private theorem map_node_op {g : Graph} {order : List Nat} (h : ∀ id ∈ order, id < g.size) :
    order.map (fun id => (g.node? id).map (·.op)) =
      (order.filterMap fun id => (g.node? id).map (·.op)).map some := by
  induction order with
  | nil => rfl
  | cons id rest ih =>
    have hid : id < g.nodes.length := h id List.mem_cons_self
    have hnode : (g.node? id).map (·.op) = some g.nodes[id].op := by
      rw [Graph.node?, List.getElem?_eq_getElem hid, Option.map_some]
    rw [List.map_cons, ih fun i hi => h i (List.mem_cons_of_mem _ hi), List.filterMap_cons, hnode]
    rfl

private theorem describes_of_check {r : Reference} {g : Graph} (h : r.check g = .ok ()) :
    r.Describes g := by
  rw [check, Graph.opSequence] at h
  cases horder : g.schedule with
  | error fault => simp [horder] at h
  | ok order =>
    simp only [horder] at h
    split at h
    · cases h
    · rename_i hops
      have hschedule := Graph.isSchedule_of_schedule horder
      have hrange : ∀ id ∈ order, id < g.size := fun id hid =>
        List.mem_range.mp (hschedule.perm.mem_iff.mp hid)
      refine ⟨⟨order, hschedule, horder, ?_⟩, checkOutputs_eq_ok h⟩
      rw [map_node_op hrange, ← checkOps_eq_ok hops]

end Reference

private theorem Shape.volume_pos {shape : List Nat} (h : 0 ∉ shape) : 0 < volume shape := by
  induction shape with
  | nil => exact Nat.one_pos
  | cons d rest ih =>
    rw [List.mem_cons, not_or] at h
    exact Nat.mul_pos (Nat.pos_of_ne_zero (Ne.symm h.1)) (ih h.2)

private theorem generateInputs_positive {p : CaseParams} {seed : UInt64} {inputs : List Tensor}
    (hzipped : p.Zipped) (hcheck : p.check = .ok ())
    (h : generateInputs p.specs seed = .ok inputs) : ∀ t ∈ inputs, 0 ∉ t.shape := by
  intro t ht
  have hshape : t.shape ∈ p.shapes := generateInputs_shapes hzipped hcheck h ▸ List.mem_map_of_mem ht
  exact ((CaseParams.check_eq_ok hcheck).2.2.1 _ hshape).2

/-- No model, whatever its functions do, makes an empty output of inputs that are not empty. -/
theorem Model.predict_positive {m : Model} {inputs outputs : List Tensor}
    (h : m.predict inputs = .ok outputs) (hinputs : ∀ t ∈ inputs, 0 ∉ t.shape) :
    outputs.length = m.outputs.length ∧ ∀ t ∈ outputs, 0 ∉ t.shape := by
  obtain ⟨_, _, _, _, houtputs⟩ := predict_eq_ok.mp h
  exact ⟨houtputs.length_eq.symm,
    predict_forall (fun _ _ _ _ hu hpos => LayerSpec.execute_positive hu hpos) h hinputs⟩

/-- What a report says of the outputs of two runs. -/
structure Report.Vouches (r : Report) (expected actual : List Tensor) : Prop where
  outputs : r.agreement.outputs = expected.length
  outputs_pos : 1 ≤ r.agreement.outputs
  accepts : List.Forall₂ r.tolerance.Accepts expected actual
  elements : r.agreement.elements = (expected.map Tensor.size).sum
  size_pos : ∀ t ∈ expected, 1 ≤ t.size

namespace Harness

/-- No wrong conversion passes. Whatever converter and provider do, the outputs of the graph that was
loaded and of the model on the same inputs are as many as reported and equal in shape, and every pair of
their values is allowed. No output is empty. The graph has the structure that was expected. -/
theorem run_sound {h : Harness} {build : Builder} {p : CaseParams} {s s' : Surroundings} {r : Report}
    (hzipped : p.Zipped)
    (hbuild : ∀ built, build .empty p = .ok built → built.model.Constructed)
    (hrun : h.run build p s = (.ok r, s')) :
    p.check = .ok () ∧ ∃ built version written folder converted inputs expected provider actual,
      build .empty p = .ok built ∧ p.checkAgainst built.model = .ok () ∧
      h.converter.convert built.model ⟨version, some p.shapes⟩ s.folder = (.ok written, folder) ∧
      Converted.load folder written.file = .ok converted ∧
      generateInputs p.specs h.config.seed = .ok inputs ∧
      built.model.predict inputs = .ok expected ∧
      h.chooseProvider s.registry = (.ok provider, s'.registry) ∧
      provider.execute converted.graph inputs = .ok actual ∧
      r.tolerance = h.config.effectiveTolerance ∧ r.Vouches expected actual ∧
      ∀ reference, built.reference = some reference → reference.Describes converted.graph := by
  obtain ⟨built, version, converted, folder, hconstruct, _, hconvert, hjudge⟩ := run_eq_ok hrun
  obtain ⟨hcheck, hbuilt, hagainst⟩ := construct_eq_ok hconstruct
  obtain ⟨written, hwritten, hload⟩ := convert_eq_ok hconvert
  obtain ⟨inputs, expected, provider, agreement, hnative, hprovider, hcompare, rfl⟩ :=
    judge_eq_ok hjudge
  obtain ⟨hinputs, hpredict⟩ := runNative_eq_ok hnative
  obtain ⟨actual, hactual, hagree, hreference⟩ := compare_eq_ok hcompare
  obtain ⟨haccepts, houtputs, helements⟩ := compareOutputs_eq_ok hagree
  obtain ⟨hlength, hpos⟩ :=
    Model.predict_positive hpredict (generateInputs_positive hzipped hcheck hinputs)
  obtain ⟨_, hm⟩ := (hbuild built hbuilt).wellFormed
  have hvouches : (h.report version p built converted.file provider agreement).Vouches expected
      actual := by
    refine ⟨houtputs, ?_, haccepts, helements, fun t ht => ?_⟩
    · show 1 ≤ agreement.outputs
      rw [houtputs, hlength]
      exact List.length_pos_iff.mpr hm.outputs_ne_nil
    · rw [t.size_eq_volume]
      exact Shape.volume_pos (hpos t ht)
  exact ⟨hcheck, built, version, written, folder, converted, inputs, expected, provider, actual,
    hbuilt, hagainst, hwritten, hload, hinputs, hpredict, hprovider, hactual, rfl, hvouches,
    fun reference hreferenced => Reference.describes_of_check (hreference reference hreferenced)⟩

/-- A cropping that passes with the graph that is expected of it. -/
theorem run_sound_rows :
    let reference : Reference := ⟨["Slice"], [[4, 3, 1], [4, 2, 1]]⟩
    let build : Builder := fun _ _ => .ok ⟨.rowCrop, some reference⟩
    let h : Harness := { config := {} }
    let p : CaseParams := { names := ["x"], shapes := [[4, 3, 1]], dtype := .f64 }
    p.Zipped ∧ ∃ r s' g expected actual,
      h.run build p ⟨.empty, .absent⟩ = (.ok r, s') ∧
        r.Vouches expected actual ∧ reference.Describes g := by
  intro reference build h p
  have hzipped : p.Zipped := rfl
  let built : BuiltModel := ⟨.rowCrop, some reference⟩
  have hbuild : build .empty p = .ok built := rfl
  have hconstruct : construct build p = .ok built := rfl
  have hversion : h.version = .ok .latest := rfl
  have hbuiltIn : h.BuiltIn Registry.empty := ⟨rfl, rfl, rfl, by decide, fun _ hi => by cases hi⟩
  have hcheck : p.check = .ok () := rfl
  have haddr : ∀ shape ∈ p.shapes, Shape.Addressable shape := by simp [p, Shape.Addressable]
  have hallowed : Folder.absent.allows (Folder.absent.path ++ [Artifact.fileName Model.rowCrop.name]) =
      true := by decide +kernel
  obtain ⟨declared, hwell⟩ : ∃ declared, built.model.WellFormed declared :=
    Model.rowCrop_constructed.wellFormed
  obtain ⟨converted, _, _, hconvert, hread, hlower, hg⟩ := convert_crops (h := h) rfl hwell
    Model.rowCrop_cropsOnly (by decide) hcheck rfl haddr hallowed .latest
  have hreference : ∀ other, built.reference = some other → other.check converted.graph = .ok () := by
    intro other hother
    rw [← Option.some.inj hother, ← Except.ok.inj hlower]
    rfl
  obtain ⟨_, _, hjudge, _⟩ := judge_crops hbuiltIn hzipped hcheck hwell hg hreference haddr .latest
  obtain ⟨s', hrun⟩ := run_of_stages (s := ⟨.empty, .absent⟩) hconstruct hversion hconvert hjudge hread
  have hconstructed : ∀ other, build .empty p = .ok other → other.model.Constructed := by
    intro other hother
    rw [← Except.ok.inj hother]
    exact Model.rowCrop_constructed
  obtain ⟨_, other, _, _, _, loaded, _, expected, _, actual, hother, _, _, _, _, _, _, _, _, hvouches,
    hdescribes⟩ := run_sound hzipped hconstructed hrun
  have hreferenced : other.reference = some reference := by
    rw [← Except.ok.inj (hbuild.symm.trans hother)]
  exact ⟨hzipped, _, s', loaded.graph, expected, actual, hrun, hvouches, hdescribes _ hreferenced⟩

end Harness
end LoweringCheck
