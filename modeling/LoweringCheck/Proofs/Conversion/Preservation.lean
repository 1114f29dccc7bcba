import LoweringCheck.Proofs.Conversion.Lowering
import LoweringCheck.Proofs.Execution.Run
import LoweringCheck.Proofs.Model.Trace
import LoweringCheck.Proofs.Tensor.Casting
/-!
# Conversion preserves meaning

A graph runs its nodes in another order than its model runs the layers. In every such order each node
finds the cast of what its layer reads natively and leaves the cast of what its layer writes.
-/
namespace LoweringCheck

namespace Lowering

theorem of_layerBatches (batches : Batches) (layers : List Layer) (name : String) :
    (layerBatches batches layers).of name = batches.of (origin layers name) := by
  induction layers generalizing batches with
  | nil => rfl
  | cons layer rest ih =>
    show (layerBatches ((layer.output, batches.of layer.input) :: batches) rest).of name = _
    rw [ih]
    show Batches.of _ _ =
      batches.of (if origin rest name = layer.output then layer.input else origin rest name)
    unfold Batches.of
    rw [lookup_cons_eq_ite]
    split <;> rfl

end Lowering

private theorem Values.batch?_of_forall₂ {values : Values} {batches : Lowering.Batches}
    (h : List.Forall₂ (fun b v => b.1 = v.1 ∧ (b.2 = 0 ∨ some b.2 = v.2.shape.head?)) batches
      values) (name : String) :
    batches.of name = 0 ∨ some (batches.of name) = values.batch? name := by
  induction h with
  | nil => exact .inl rfl
  | @cons b v _ _ hfirst _ ih =>
    unfold Lowering.Batches.of batch? at ih ⊢
    rw [List.lookup_cons, List.lookup_cons, hfirst.1]
    split
    · exact hfirst.2
    · exact ih

namespace Graph

/-- Every input has the batch that the graph fixes for it; a fixed 0 stands for any. -/
def TakesBatches (g : Graph) (inputs : List Tensor) : Prop :=
  List.Forall₂ (fun x t => x.shape.head? = some 0 ∨ x.shape.head? = t.shape.head?) g.inputs inputs

end Graph

namespace Model
variable {m : Model} {declared : String → Option Symbolic} {shapes : List (List Nat)} {g : Graph}

open Lowering

/-- The inputs of a model and the outputs of layers that are done. -/
def Known (m : Model) (done : List Nat) (name : String) : Prop :=
  name ∈ m.inputNames ∨ ∃ i ∈ done, ∃ layer, m.layers[i]? = some layer ∧ layer.output = name

/-- The values of known tensors are the native ones, cast. -/
def Casts (m : Model) (native : Values) (dtype : DType) (done : List Nat) (values : Values) :
    Prop :=
  ∀ name, m.Known done name → values.lookup name = (native.lookup name).map (·.toDType dtype)

section Simulation
variable {native values : Values} {dtype : DType}

/-- Every layer agrees with its native values, which have few enough axes and elements. -/
def Solves (m : Model) (native : Values) : Prop :=
  ∀ layer ∈ m.layers, ∃ t u, native.lookup layer.input = some t ∧
    layer.spec.execute layer.name t = .ok u ∧ native.lookup layer.output = some u ∧
    t.shape.length ≤ 2 ^ 63 ∧ ∀ extent ∈ t.shape.tail, extent < 2 ^ 63

private theorem Casts.runNode {done : List Nat} {id : Nat} {layer : Layer} {margins : List Margin}
    {format : DataFormat} (h : m.Casts native dtype done values) (hsolves : m.Solves native)
    (hlayer : m.layers[id]? = some layer) (hspec : layer.spec = .cropping margins format)
    (hinput : m.Known done layer.input) :
    ∃ next, Graph.runNode .standard (sliceNode id layer margins format) values = .ok next ∧
      m.Casts native dtype (id :: done) next := by
  obtain ⟨t, u, ht, hu, hout, hrank, hlarge⟩ := hsolves layer (List.mem_of_getElem? hlayer)
  have hvalue : values.lookup layer.input = some (t.toDType dtype) := by
    rw [h _ hinput, ht, Option.map_some]
  have hslice : Operator.slice.execute [t.toDType dtype] (sliceAttributes margins format) =
      .ok [u.toDType dtype] :=
    Slice.execute_sliceAttributes dtype hrank hlarge (hspec ▸ hu)
  refine ⟨(layer.output, u.toDType dtype) :: values, ?_, ?_⟩
  · simp only [Graph.runNode, sliceNode, find_slice, Graph.gather, hvalue, hslice,
      List.length_singleton, if_true]
    rfl
  · intro name hname
    rw [lookup_cons_eq_ite]
    by_cases heq : name = layer.output
    · rw [if_pos heq, heq, hout, Option.map_some]
    · rw [if_neg heq]
      apply h
      refine hname.imp_right ?_
      rintro ⟨i, hi, l, hl, rfl⟩
      rcases List.mem_cons.mp hi with rfl | hi
      · rw [hlayer, Option.some.injEq] at hl
        exact absurd (congrArg Layer.output hl.symm) heq
      · exact ⟨i, hi, l, hl, rfl⟩

private theorem LoweredTo.known_input (hg : m.LoweredTo shapes g) (h : m.WellFormed declared)
    {later done : List Nat} {id : Nat} (hordered : g.Ordered (later ++ id :: done)) {layer : Layer}
    (hlayer : m.layers[id]? = some layer) : m.Known done layer.input := by
  refine (h.runnable.input_earlier hlayer).imp_right ?_
  rintro ⟨i, _, l, hl, houtput⟩
  have hedge : ⟨i, id, layer.input⟩ ∈ g.edges :=
    (hg.edges _).mpr ⟨l, layer, hl, hlayer, houtput, rfl⟩
  exact ⟨i, hordered.source_mem hedge rfl, l, hl, houtput⟩

/-- The nodes run in every order that follows the edges. -/
theorem LoweredTo.runNodes (hg : m.LoweredTo shapes g) (h : m.WellFormed declared)
    (hsolves : m.Solves native) {rest done : List Nat} (hordered : g.Ordered (rest.reverse ++ done))
    (hrange : ∀ id ∈ rest, id < g.size) (hcasts : m.Casts native dtype done values) :
    ∃ last, Graph.runNodes .standard g rest values = .ok last ∧
      m.Casts native dtype (rest.reverse ++ done) last := by
  induction rest generalizing done values with
  | nil => exact ⟨values, rfl, hcasts⟩
  | cons id rest ih =>
    rw [List.reverse_cons, List.append_assoc, List.singleton_append] at hordered ⊢
    have hid : id < m.layers.length := hg.size_eq ▸ hrange id List.mem_cons_self
    have hlayer := List.getElem?_eq_getElem hid
    obtain ⟨margins, format, hspec, hnode⟩ := hg.nodes.node hlayer
    rw [Nat.zero_add] at hnode
    obtain ⟨next, hnext, hcasts'⟩ :=
      hcasts.runNode hsolves hlayer hspec (hg.known_input h hordered hlayer)
    obtain ⟨last, hlast, hdone⟩ := ih hordered
      (fun i hi => hrange i (List.mem_cons_of_mem _ hi)) hcasts'
    refine ⟨last, ?_, hdone⟩
    rw [Graph.runNodes, show g.node? id = _ from hnode]
    simp only [hnext, hlast]

end Simulation

theorem LoweredTo.accepts_iff (hg : m.LoweredTo shapes g) (hpos : ∀ x ∈ m.inputs, 0 ∉ x.shape)
    {inputs : List Tensor} :
    List.Forall₂ (fun x t => x.accepts t.shape = true) g.inputs inputs ↔
      List.Forall₂ (fun x t => fits x.shape t.shape = true) m.inputs inputs ∧
        g.TakesBatches inputs := by
  unfold Graph.TakesBatches
  rw [hg.inputs]
  have hshapes := hg.shapes_fit
  clear hg
  generalize m.inputs = xs at hpos hshapes
  revert inputs
  induction hshapes with
  | nil => simp
  | @cons x shape rest _ hx _ ih =>
    obtain ⟨batch, rfl⟩ := fits_iff.mp hx
    intro inputs
    cases inputs with
    | nil => simp
    | cons t ts =>
      have hrest := @ih (fun y hy => hpos y (List.mem_cons_of_mem _ hy)) ts
      have hfirst : Terminal.accepts ⟨x.name, batch :: x.shape, x.dtype⟩ t.shape = true ↔
          fits x.shape t.shape = true ∧ (batch = 0 ∨ some batch = t.shape.head?) := by
        rw [Terminal.accepts_cons (hpos x List.mem_cons_self), fits_iff]
        constructor
        · rintro ⟨b, hb, hbatch⟩
          exact ⟨⟨b, hb⟩, hbatch.imp_right fun heq => by rw [hb, heq, List.head?_cons]⟩
        · rintro ⟨⟨b, hb⟩, hbatch⟩
          refine ⟨b, hb, hbatch.imp_right fun heq => ?_⟩
          rw [hb, List.head?_cons, Option.some.injEq] at heq
          exact heq
      simp only [List.zipWith_cons_cons, List.forall₂_cons, inputTerminal, hfirst, hrest,
        List.head?_cons, Option.some.injEq]
      tauto

private theorem LoweredTo.fed_toDType (hg : m.LoweredTo shapes g) {inputs : List Tensor} (dtype : DType) :
    ((g.inputs.zip inputs).map fun p => (p.1.name, p.2.toDType dtype)).reverse =
      (fed m.inputs inputs).toDType dtype := by
  rw [fed, Values.toDType, List.map_reverse, List.map_map, hg.inputs]
  have hshapes := hg.shapes_fit
  clear hg
  generalize m.inputs = xs at hshapes
  congr 1
  induction hshapes generalizing inputs with
  | nil => rfl
  | cons _ _ ih =>
    cases inputs with
    | nil => rfl
    | cons t ts => exact congrArg (_ :: ·) ih

private theorem LoweredTo.batch_fed (hg : m.LoweredTo shapes g) {inputs : List Tensor}
    (hbatches : g.TakesBatches inputs) (name : String) :
    (inputBatches g.inputs).of name = 0 ∨
      some ((inputBatches g.inputs).of name) = (fed m.inputs inputs).batch? name := by
  apply Values.batch?_of_forall₂
  rw [inputBatches, fed, List.forall₂_reverse_iff, List.forall₂_map_left_iff,
    List.forall₂_map_right_iff]
  unfold Graph.TakesBatches at hbatches
  rw [hg.inputs] at hbatches ⊢
  have hshapes := hg.shapes_fit
  clear hg
  generalize m.inputs = xs at hshapes hbatches
  induction hshapes generalizing inputs with
  | nil =>
    cases hbatches
    exact .nil
  | @cons x shape rest _ hx _ ih =>
    obtain ⟨batch, rfl⟩ := fits_iff.mp hx
    cases hbatches with
    | @cons _ t _ ts hfirst hrest =>
      refine .cons ⟨rfl, ?_⟩ (ih hrest)
      simpa [inputTerminal] using hfirst

theorem LoweredTo.cropsOnly (hg : m.LoweredTo shapes g) : m.CropsOnly := by
  intro layer hlayer
  obtain ⟨i, hi⟩ := List.mem_iff_getElem?.mp hlayer
  obtain ⟨margins, format, hspec, _⟩ := hg.nodes.node hi
  exact ⟨margins, format, hspec⟩

private theorem WellFormed.solves (h : m.WellFormed declared)
    (haddr : ∀ x ∈ m.inputs, Shape.Addressable x.shape) {values last : Values}
    (hlast : runLayers m.layers values = .ok last)
    (hfits : ∀ name, name ∈ m.inputNames ∨ name ∈ m.layers.map (·.output) →
      last.Fits declared name) : m.Solves last := by
  intro layer hlayer
  obtain ⟨t, u, ht, hu, hout⟩ := (runLayers_solves h.runnable hlast).2 layer hlayer
  refine ⟨t, u, ht, hu, hout, ?_⟩
  obtain ⟨i, hi⟩ := List.mem_iff_getElem?.mp hlayer
  have hinput : layer.input ∈ m.inputNames ∨ layer.input ∈ m.layers.map (·.output) := by
    refine (h.runnable.input_earlier hi).imp_right ?_
    rintro ⟨j, _, l, hl, heq⟩
    exact List.mem_map.mpr ⟨l, List.mem_of_getElem? hl, heq⟩
  obtain ⟨x, t', hx, ht', hfit⟩ := hfits _ hinput
  obtain rfl : t = t' := Option.some.inj (ht.symm.trans ht')
  obtain ⟨batch, hbatch⟩ := fits_iff.mp hfit
  rw [hbatch]
  exact h.addressable haddr hinput hx

private theorem WellFormed.known_output (h : m.WellFormed declared) {done : List Nat}
    (hdone : ∀ i < m.layers.length, i ∈ done) {x : Symbolic} (hx : x ∈ m.outputs) :
    m.Known done x.name := by
  refine (h.output_known x hx).imp_right fun hmem => ?_
  obtain ⟨layer, hlayer, heq⟩ := List.mem_map.mp hmem
  obtain ⟨i, hi⟩ := List.mem_iff_getElem?.mp hlayer
  exact ⟨i, hdone i (List.getElem?_eq_some_iff.mp hi).1, layer, hi, heq⟩

private theorem LoweredTo.collect_eq (hg : m.LoweredTo shapes g) (h : m.WellFormed declared)
    {native values : Values} {dtype : DType} {done : List Nat} {outputs : List Tensor}
    (houtputs : List.Forall₂ (fun x t => native.lookup x.name = some t) m.outputs outputs)
    (hfits : ∀ x ∈ m.outputs, native.Fits declared x.name)
    (hbatches : ∀ name, (inputBatches g.inputs).of (origin m.layers name) = 0 ∨
      some ((inputBatches g.inputs).of (origin m.layers name)) = native.batch? name)
    (hcasts : m.Casts native dtype done values) (hdone : ∀ i < m.layers.length, i ∈ done) :
    Graph.collect values g.outputs =
      .ok (outputs.map fun t => (t.toDType dtype).toDType .f32) := by
  have hcollect : List.Forall₂ (fun x t => values.lookup x.name = some t ∧
      x.accepts t.shape = true) g.outputs (outputs.map (·.toDType dtype)) := by
    rw [hg.outputs, List.forall₂_map_left_iff, List.forall₂_map_right_iff]
    obtain ⟨hsame, hpairs⟩ := List.forall₂_iff_zip.mp houtputs
    refine List.forall₂_iff_zip.mpr ⟨hsame, fun {x t} hp => ?_⟩
    have hx : x ∈ m.outputs := (List.of_mem_zip hp).1
    have ht : native.lookup x.name = some t := hpairs hp
    obtain ⟨y, t', hy, ht', hfit⟩ := hfits x hx
    obtain rfl : t = t' := Option.some.inj (ht.symm.trans ht')
    obtain rfl : x = y := Option.some.inj ((h.output_declared x hx).symm.trans hy)
    obtain ⟨batch, hbatch⟩ := fits_iff.mp hfit
    constructor
    · show values.lookup x.name = _
      rw [hcasts _ (h.known_output hdone hx), ht, Option.map_some]
    · rw [outputTerminal, Terminal.accepts_cons (h.positive _ x hy), Tensor.shape_toDType]
      refine ⟨batch, hbatch, ?_⟩
      rw [of_layerBatches]
      refine (hbatches x.name).imp_right fun heq => ?_
      rw [Values.batch?, ht, Option.bind_some, hbatch, List.head?_cons, Option.some.injEq] at heq
      exact heq
  rw [Graph.collect_eq hcollect, List.map_map]
  rfl

/-- On inputs that fit its model and have the fixed batches, a lowered graph computes what the model
does. -/
theorem LoweredTo.run_eq (hg : m.LoweredTo shapes g) (h : m.WellFormed declared)
    (haddr : ∀ x ∈ m.inputs, Shape.Addressable x.shape) (precision : Precision)
    {inputs outputs : List Tensor} (hpredict : m.predict inputs = .ok outputs)
    (hbatches : g.TakesBatches inputs) :
    g.run .standard precision inputs =
      .ok (outputs.map fun t => (t.toDType precision.dtype).toDType .f32) := by
  obtain ⟨hlength, hfits, last, hlast, houtputs⟩ := predict_eq_ok.mp hpredict
  obtain ⟨last', _, hlast', hall, _⟩ := predict_crops h hg.cropsOnly hlength hfits
  obtain rfl : last = last' := Except.ok.inj (hlast.symm.trans hlast')
  have haccepts := (hg.accepts_iff h.input_positive).mpr
    ⟨List.forall₂_iff_zip.mpr ⟨hlength.symm, hfits _⟩, hbatches⟩
  obtain ⟨order, horder⟩ := Graph.exists_schedule (hg.acyclic h) (hg.sparse h) (hg.edge_range h)
  obtain ⟨hperm, hordered⟩ := Graph.isSchedule_of_schedule horder
  rw [Graph.run_eq horder haccepts, hg.fed_toDType, Graph.runInOrder]
  -- at first only the inputs are known
  have hstart : m.Casts last precision.dtype [] ((fed m.inputs inputs).toDType precision.dtype) := by
    intro name hname
    rcases hname with hname | ⟨i, hi, _⟩
    · rw [Values.lookup_toDType, (runLayers_solves h.runnable hlast).1 name hname]
    · cases hi
  obtain ⟨values, hvalues, hcasts⟩ := hg.runNodes h (h.solves haddr hlast hall)
    (by rwa [List.append_nil]) (fun id hid => List.mem_range.mp (hperm.mem_iff.mp hid)) hstart
  rw [hvalues]
  apply hg.collect_eq h houtputs (fun x hx => hall x.name (h.output_known x hx)) _ hcasts
  · intro i hi
    simpa [hperm.mem_iff, hg.size_eq] using hi
  · intro name
    rw [runLayers_batch hlast]
    exact hg.batch_fed hbatches _

/-- Conversion preserves meaning. At any precision a lowered graph runs on the inputs that its model runs
on and that have the batches fixed in it, and computes the outputs of the model, cast. Rank and
extents of the inputs are those of tensors that 64-bit indices can address. -/
theorem run_lower_iff_predict {m : Model} (hm : m.Constructed)
    (haddr : ∀ x ∈ m.inputs, Shape.Addressable x.shape) {options : ConversionOptions} {g : Graph}
    (hlower : m.lower .standard options = .ok g) (precision : Precision) (inputs : List Tensor) :
    ((∃ results, g.run .standard precision inputs = .ok results) ↔
      (∃ outputs, m.predict inputs = .ok outputs) ∧ g.TakesBatches inputs) ∧
    ∀ results, g.run .standard precision inputs = .ok results →
      ∃ outputs, m.predict inputs = .ok outputs ∧
        results = outputs.map (fun t => (t.toDType precision.dtype).toDType .f32) ∧
        (precision = .fp32 → results.map Tensor.shape = outputs.map Tensor.shape ∧
          results.map Tensor.values = outputs.map Tensor.values) := by
  obtain ⟨declared, h⟩ := hm.wellFormed
  obtain ⟨shapes, _, hg⟩ := h.loweredTo hlower
  have hback : ∀ results, g.run .standard precision inputs = .ok results →
      (∃ outputs, m.predict inputs = .ok outputs) ∧ g.TakesBatches inputs := by
    intro results hrun
    obtain ⟨hfits, hbatches⟩ := (hg.accepts_iff h.input_positive).mp (Graph.accepts_of_run hrun)
    obtain ⟨hlength, hpairs⟩ := List.forall₂_iff_zip.mp hfits
    obtain ⟨_, outputs, _, _, hpredict⟩ :=
      predict_crops h hg.cropsOnly hlength.symm fun p hp => hpairs hp
    exact ⟨⟨outputs, hpredict⟩, hbatches⟩
  refine ⟨⟨fun ⟨results, hrun⟩ => hback results hrun, ?_⟩, ?_⟩
  · rintro ⟨⟨outputs, hpredict⟩, hbatches⟩
    exact ⟨_, hg.run_eq h haddr precision hpredict hbatches⟩
  · intro results hrun
    obtain ⟨⟨outputs, hpredict⟩, hbatches⟩ := hback results hrun
    rw [hg.run_eq h haddr precision hpredict hbatches, Except.ok.injEq] at hrun
    refine ⟨outputs, hpredict, hrun.symm, ?_⟩
    rintro rfl
    rw [← hrun, List.map_map, List.map_map]
    refine ⟨?_, ?_⟩
    · simp [Function.comp_def]
    · simp [Function.comp_def, Precision.dtype, Tensor.values_toDType_f32]

/-- One row less of each of two tensors, in half precision. -/
theorem run_lower_crop_half :
    let t := Tensor.zeros [2, 3, 1] .f64
    ∃ g u, rowCrop.lower .standard {} = .ok g ∧ rowCrop.predict [t] = .ok [t, u] ∧
      u.shape = [2, 2, 1] ∧ g.run .standard .fp16 [t] =
        .ok [(t.toDType .f16).toDType .f32, (u.toDType .f16).toDType .f32] := by
  intro t
  have haddr : ∀ x ∈ rowCrop.inputs, Shape.Addressable x.shape := by
    simp [rowCrop, Shape.Addressable]
  have hlower : rowCrop.lower .standard {} = .ok _ := rfl
  obtain ⟨hiff, hresults⟩ := run_lower_iff_predict rowCrop_constructed haddr hlower .fp16 [t]
  obtain ⟨u, hu, hshape⟩ : ∃ u, rowCrop.predict [t] = .ok [t, u] ∧ u.shape = [2, 2, 1] :=
    ⟨_, rfl, rfl⟩
  obtain ⟨results, hrun⟩ := hiff.mpr ⟨⟨_, hu⟩, .cons (.inl rfl) .nil⟩
  obtain ⟨outputs, houtputs, hcast, _⟩ := hresults results hrun
  refine ⟨_, u, hlower, hu, hshape, ?_⟩
  rw [hu, Except.ok.injEq] at houtputs
  rw [hrun, hcast, ← houtputs]
  rfl

end Model
end LoweringCheck
