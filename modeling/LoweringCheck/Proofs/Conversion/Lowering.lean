import LoweringCheck.Proofs.Conversion.Slices
import LoweringCheck.Proofs.Graph.Connection
import LoweringCheck.Proofs.Model.Execution
/-!
# Lowered graphs

The nodes of a lowered graph are the layers of its model, and its edges lead from the layer that writes
a tensor to the layers that read it, hence always to a later layer. Models of croppings can be lowered.
-/
namespace LoweringCheck

namespace Lowering

/-- The node of a cropping layer. -/
def sliceNode (id : Nat) (layer : Layer) (margins : List Margin) (format : DataFormat) : Node where
  id := id
  op := Slice.name
  name := some layer.name
  inputs := [layer.input]
  outputs := [layer.output]
  attributes := sliceAttributes margins format

theorem lowerLayer_eq_ok {id : Nat} {layer : Layer} {n : Node} :
    lowerLayer id layer = .ok n ↔ ∃ margins format,
      layer.spec = .cropping margins format ∧ n = sliceNode id layer margins format := by
  rw [lowerLayer]
  cases hspec : layer.spec with
  | cropping margins format => simp [sliceNode, eq_comm]
  | lambda function => simp

theorem find_slice : OperatorSet.standard.find Slice.name = .ok .slice := by
  simp [OperatorSet.find, OperatorSet.standard, OperatorSet.register, Dictionary.get?_insert,
    Operator.slice, Operator.identity, Slice.name]

private theorem checkNode_sliceNode {ops : OperatorSet} (hops : ops.find Slice.name = .ok .slice) (id : Nat)
    (layer : Layer) (margins : List Margin) (format : DataFormat) :
    checkNode ops (sliceNode id layer margins format) = .ok () := by
  have hcheck : Operator.slice.check (sliceAttributes margins format) = .ok () :=
    check_sliceAttributes margins format
  simp only [checkNode, sliceNode, hops, hcheck]

/-- The nodes are the layers in their order. -/
def Lowers (id : Nat) (layers : List Layer) (nodes : List Node) : Prop :=
  List.Forall₂ (fun p n => ∃ margins format, p.1.spec = .cropping margins format ∧
    n = sliceNode p.2 p.1 margins format) (layers.zipIdx id) nodes

theorem lowers_of_lowerLayers {ops : OperatorSet} {id : Nat} {layers : List Layer}
    {nodes : List Node} (h : lowerLayers ops id layers = .ok nodes) : Lowers id layers nodes := by
  induction layers generalizing id nodes with
  | nil =>
    cases h
    exact .nil
  | cons layer rest ih =>
    rw [lowerLayers] at h
    split at h
    · cases h
    · rename_i n hn
      split at h
      · cases h
      · split at h
        · rename_i ns hns
          cases h
          exact .cons (lowerLayer_eq_ok.mp hn) (ih hns)
        · cases h

private theorem exists_lowerLayers {ops : OperatorSet} (hops : ops.find Slice.name = .ok .slice) (id : Nat)
    {layers : List Layer}
    (h : ∀ layer ∈ layers, ∃ margins format, layer.spec = .cropping margins format) :
    ∃ nodes, lowerLayers ops id layers = .ok nodes := by
  induction layers generalizing id with
  | nil => exact ⟨[], rfl⟩
  | cons layer rest ih =>
    obtain ⟨margins, format, hspec⟩ := h layer List.mem_cons_self
    obtain ⟨nodes, hnodes⟩ := ih (id + 1) fun k hk => h k (List.mem_cons_of_mem _ hk)
    refine ⟨sliceNode id layer margins format :: nodes, ?_⟩
    rw [lowerLayers, lowerLayer_eq_ok.mpr ⟨margins, format, hspec, rfl⟩]
    simp only [checkNode_sliceNode hops, hnodes]

namespace Lowers
variable {id : Nat} {layers : List Layer} {nodes : List Node}

private theorem length_eq (h : Lowers id layers nodes) : nodes.length = layers.length := by
  simpa using (List.Forall₂.length_eq h).symm

theorem node (h : Lowers id layers nodes) {i : Nat} {layer : Layer} (hi : layers[i]? = some layer) :
    ∃ margins format, layer.spec = .cropping margins format ∧
      nodes[i]? = some (sliceNode (id + i) layer margins format) := by
  induction layers generalizing id nodes i with
  | nil => simp at hi
  | cons first rest ih =>
    cases h with
    | cons hfirst hrest =>
      cases i with
      | zero =>
        obtain ⟨margins, format, hspec, rfl⟩ := hfirst
        cases hi
        exact ⟨margins, format, hspec, rfl⟩
      | succ i =>
        obtain ⟨margins, format, hspec, hnode⟩ := ih hrest hi
        refine ⟨margins, format, hspec, ?_⟩
        rw [List.getElem?_cons_succ, hnode, Nat.add_right_comm, Nat.add_assoc]

theorem layer (h : Lowers 0 layers nodes) {i : Nat} {n : Node} (hn : nodes[i]? = some n) :
    ∃ layer margins format, layers[i]? = some layer ∧ layer.spec = .cropping margins format ∧
      n = sliceNode i layer margins format := by
  have hi : i < layers.length := h.length_eq ▸ (List.getElem?_eq_some_iff.mp hn).1
  obtain ⟨margins, format, hspec, hnode⟩ := h.node (List.getElem?_eq_getElem hi)
  rw [hn, Option.some.injEq, Nat.zero_add] at hnode
  exact ⟨_, margins, format, List.getElem?_eq_getElem hi, hspec, hnode⟩

private theorem productions (h : Lowers id layers nodes) :
    (nodes.flatMap fun n => n.outputs.map (·, n.id)) =
      (layers.zipIdx id).map fun p => (p.1.output, p.2) := by
  induction layers generalizing id nodes with
  | nil =>
    cases h
    rfl
  | cons first rest ih =>
    cases h with
    | cons hfirst hrest =>
      obtain ⟨margins, format, _, rfl⟩ := hfirst
      rw [List.flatMap_cons, ih hrest]
      rfl

end Lowers

theorem open_fits (xs : List Symbolic) : List.Forall₂
    (fun x shape => Model.fits x.shape shape = true) xs (xs.map fun x => 0 :: x.shape) := by
  rw [List.forall₂_map_right_iff]
  exact List.forall₂_same.mpr fun x _ => Model.fits_iff.mpr ⟨0, rfl⟩

theorem inputShapes_eq_ok_iff {m : Model} {options : ConversionOptions} {shapes : List (List Nat)} :
    inputShapes m options = .ok shapes ↔
      shapes = options.inputShapes.getD (m.inputs.map fun x => 0 :: x.shape) ∧
        List.Forall₂ (fun x shape => Model.fits x.shape shape = true) m.inputs shapes := by
  rw [inputShapes]
  cases options.inputShapes with
  | none =>
    simp only [Except.ok.injEq, Option.getD_none]
    constructor
    · rintro rfl
      exact ⟨rfl, open_fits m.inputs⟩
    · rintro ⟨rfl, _⟩
      rfl
  | some given =>
    have hfits : List.Forall₂ (fun x shape => Model.fits x.shape shape = true) m.inputs given ↔
        given.length = m.inputs.length ∧
          (m.inputs.zip given).find? (fun p => !Model.fits p.1.shape p.2) = none := by
      rw [List.forall₂_iff_zip, List.find?_eq_none, eq_comm]
      simp
    simp only [Option.getD_some]
    split
    · rename_i hlength
      split
      · rename_i hsome
        simp only [reduceCtorEq, false_iff]
        rintro ⟨rfl, h⟩
        rw [(hfits.mp h).2] at hsome
        cases hsome
      · rename_i hnone
        rw [Except.ok.injEq]
        constructor
        · rintro rfl
          exact ⟨rfl, hfits.mpr ⟨hlength, hnone⟩⟩
        · rintro ⟨rfl, _⟩
          rfl
    · rename_i hlength
      simp only [reduceCtorEq, false_iff]
      rintro ⟨rfl, h⟩
      exact hlength (hfits.mp h).1

end Lowering

namespace Model
variable {m : Model} {declared : String → Option Symbolic} {shapes : List (List Nat)} {g : Graph}

open Lowering

/-- A graph has the layers of a model as its nodes and their tensors as its edges. Batches enter with
the given input shapes. -/
structure LoweredTo (m : Model) (shapes : List (List Nat)) (g : Graph) : Prop where
  shapes_fit : List.Forall₂ (fun x shape => fits x.shape shape = true) m.inputs shapes
  nodes : Lowers 0 m.layers g.nodes
  edges : ∀ e, e ∈ g.edges ↔ ∃ l k, m.layers[e.source]? = some l ∧
    m.layers[e.target]? = some k ∧ l.output = k.input ∧ e.tensor = k.input
  edges_nodup : g.edges.Nodup
  inputs : g.inputs = m.inputs.zipWith inputTerminal shapes
  outputs : g.outputs = m.outputs.map
    (outputTerminal (layerBatches (inputBatches g.inputs) m.layers))

private theorem WellFormed.written_nodup (h : m.WellFormed declared) (hnodes : Lowers 0 m.layers g.nodes) :
    g.written.Nodup := by
  have hnames : g.written = m.layers.map (·.output) := by
    rw [← Graph.productions_names, Graph.productions, hnodes.productions, List.map_map]
    show (m.layers.zipIdx.map ((·.output) ∘ Prod.fst)) = _
    rw [← List.map_map, List.zipIdx_map_fst]
  rw [hnames]
  exact h.runnable.outputs_nodup

private theorem WellFormed.mem_drawnEdges (h : m.WellFormed declared) (hnodes : Lowers 0 m.layers g.nodes)
    {e : Edge} : e ∈ g.drawnEdges ↔ ∃ l k, m.layers[e.source]? = some l ∧
      m.layers[e.target]? = some k ∧ l.output = k.input ∧ e.tensor = k.input := by
  have hproduced : ∀ tensor id, (tensor, id) ∈ g.productions ↔
      ∃ l, m.layers[id]? = some l ∧ l.output = tensor := by
    intro tensor id
    rw [Graph.productions, hnodes.productions]
    simp [List.mem_zipIdx_iff_getElem?]
  rw [Graph.mem_drawnEdges (h.written_nodup hnodes), hproduced]
  constructor
  · rintro ⟨n, hn, htensor, htarget, l, hl, houtput⟩
    obtain ⟨i, hi⟩ := List.mem_iff_getElem?.mp hn
    obtain ⟨k, margins, format, hk, _, rfl⟩ := hnodes.layer hi
    have htensor : e.tensor = k.input := List.mem_singleton.mp htensor
    refine ⟨l, k, hl, ?_, houtput.trans htensor, htensor⟩
    rw [htarget]
    exact hk
  · rintro ⟨l, k, hl, hk, houtput, htensor⟩
    obtain ⟨margins, format, _, hn⟩ := hnodes.node hk
    refine ⟨_, List.mem_of_getElem? hn, ?_, (Nat.zero_add _).symm, l, hl, houtput.trans htensor.symm⟩
    exact List.mem_singleton.mpr htensor

private theorem drawnEdges_nodup (hnodes : Lowers 0 m.layers g.nodes) : g.drawnEdges.Nodup := by
  have htargets : ∀ (id : Nat) (layers : List Layer) (nodes : List Node), Lowers id layers nodes →
      List.Sublist ((nodes.flatMap fun n => n.inputs.filterMap fun tensor =>
        (g.productions.lookup tensor).map (⟨·, n.id, tensor⟩ : Nat → Edge)).map Edge.target)
        (List.range' id layers.length) := by
    intro id layers
    induction layers generalizing id with
    | nil =>
      intro nodes h
      cases h
      exact .slnil
    | cons layer rest ih =>
      intro nodes h
      cases h with
      | cons hfirst hrest =>
        obtain ⟨margins, format, _, rfl⟩ := hfirst
        have hlater := ih (id + 1) _ hrest
        rw [List.flatMap_cons, List.map_append, List.length_cons, List.range'_succ]
        cases hsource : g.productions.lookup layer.input with
        | none => simpa [sliceNode, hsource] using hlater.cons id
        | some source => simpa [sliceNode, hsource] using hlater.cons_cons id
  exact ((htargets 0 m.layers g.nodes hnodes).nodup List.nodup_range').of_map

theorem WellFormed.loweredTo_connected (h : m.WellFormed declared) (options : ConversionOptions)
    {nodes : List Node} (hnodes : Lowers 0 m.layers nodes)
    (hshapes : List.Forall₂ (fun x shape => fits x.shape shape = true) m.inputs shapes) :
    let g := unconnected m options shapes nodes
    g.connect = (.ok (), { g with edges := g.drawnEdges }) ∧
      m.LoweredTo shapes { g with edges := g.drawnEdges } := by
  intro g
  have hg : Lowers 0 m.layers g.nodes := hnodes
  exact ⟨Graph.connect_eq_ok_iff.mpr ⟨h.written_nodup hg, rfl⟩, hshapes, hnodes,
    fun e => h.mem_drawnEdges hg, drawnEdges_nodup hg, rfl, rfl⟩

namespace LoweredTo

theorem size_eq (hg : m.LoweredTo shapes g) : g.size = m.layers.length := hg.nodes.length_eq

theorem input_names (hg : m.LoweredTo shapes g) : g.inputs.map (·.name) = m.inputNames := by
  rw [hg.inputs, List.map_zipWith]
  show List.zipWith (fun x _ => x.name) m.inputs shapes = _
  rw [← List.map_uncurry_zip_eq_zipWith]
  show (m.inputs.zip shapes).map ((·.name) ∘ Prod.fst) = _
  rw [← List.map_map, List.map_fst_zip (Nat.le_of_eq hg.shapes_fit.length_eq)]
  rfl

private theorem edge_lt (hg : m.LoweredTo shapes g) (h : m.WellFormed declared) :
    ∀ e ∈ g.edges, e.source < e.target ∧ e.target < g.size := by
  intro e he
  obtain ⟨l, k, hl, hk, houtput, _⟩ := (hg.edges e).mp he
  refine ⟨?_, hg.size_eq ▸ (List.getElem?_eq_some_iff.mp hk).1⟩
  rcases h.runnable.input_earlier hk with hmem | ⟨i, hi, l', hl', houtput'⟩
  · exact absurd (houtput ▸ hmem) (h.runnable.output_notMem (List.mem_of_getElem? hl))
  · rwa [h.runnable.index_eq hl hl' (houtput.trans houtput'.symm)]

theorem edge_range (hg : m.LoweredTo shapes g) (h : m.WellFormed declared) :
    ∀ e ∈ g.edges, e.source < g.size ∧ e.target < g.size := by
  intro e he
  obtain ⟨hlt, htarget⟩ := hg.edge_lt h e he
  exact ⟨hlt.trans htarget, htarget⟩

theorem acyclic (hg : m.LoweredTo shapes g) (h : m.WellFormed declared) : g.Acyclic :=
  Graph.acyclic_of_lt fun e he => (hg.edge_lt h e he).1

private theorem edge_eq (hg : m.LoweredTo shapes g) (h : m.WellFormed declared) {e f : Edge}
    (he : e ∈ g.edges) (hf : f ∈ g.edges) (htarget : e.target = f.target) : e = f := by
  obtain ⟨l, k, hl, hk, houtput, htensor⟩ := (hg.edges e).mp he
  obtain ⟨l', k', hl', hk', houtput', htensor'⟩ := (hg.edges f).mp hf
  rw [htarget, hk', Option.some.injEq] at hk
  subst hk
  have hsource : e.source = f.source := h.runnable.index_eq hl hl' (houtput.trans houtput'.symm)
  cases e
  cases f
  simp_all

theorem sparse (hg : m.LoweredTo shapes g) (h : m.WellFormed declared) : g.Sparse := by
  intro id
  have hsame : ∀ e ∈ g.edgesInto id, e ∈ g.edges ∧ e.target = id := by
    intro e he
    simpa [Graph.edgesInto] using he
  have hnodup : (g.edgesInto id).Nodup := hg.edges_nodup.filter _
  rcases hinto : g.edgesInto id with _ | ⟨e, _ | ⟨f, rest⟩⟩
  · simp
  · simp
  · -- two edges into one node are one edge twice
    obtain ⟨he, htarget⟩ := hsame e (by simp [hinto])
    obtain ⟨hf, htarget'⟩ := hsame f (by simp [hinto])
    have heq : e = f := hg.edge_eq h he hf (htarget.trans htarget'.symm)
    simp [hinto, heq] at hnodup

private theorem supplies (hg : m.LoweredTo shapes g) {name : String}
    (hname : name ∈ m.inputNames ∨ name ∈ m.layers.map (·.output)) : g.supplies name = true := by
  rw [Graph.supplies_iff, hg.input_names]
  refine hname.imp_right fun hmem => ?_
  obtain ⟨layer, hlayer, rfl⟩ := List.mem_map.mp hmem
  obtain ⟨i, hi⟩ := List.mem_iff_getElem?.mp hlayer
  obtain ⟨margins, format, _, hn⟩ := hg.nodes.node hi
  exact ⟨_, List.mem_of_getElem? hn, List.mem_singleton_self _⟩

theorem validate (hg : m.LoweredTo shapes g) (h : m.WellFormed declared) :
    g.validate = .ok () := by
  refine Graph.validate_eq_ok_iff.mpr ⟨?_, hg.edge_range h, hg.acyclic h, ?_, ?_⟩
  · intro i n hn
    obtain ⟨_, _, _, _, _, rfl⟩ := hg.nodes.layer hn
    rfl
  · intro n hn tensor htensor
    obtain ⟨i, hi⟩ := List.mem_iff_getElem?.mp hn
    obtain ⟨k, _, _, hk, _, rfl⟩ := hg.nodes.layer hi
    obtain rfl : tensor = k.input := List.mem_singleton.mp htensor
    apply hg.supplies
    refine (h.runnable.input_earlier hk).imp_right ?_
    rintro ⟨j, _, l, hl, houtput⟩
    exact List.mem_map.mpr ⟨l, List.mem_of_getElem? hl, houtput⟩
  · intro terminal hterminal
    rw [hg.outputs] at hterminal
    obtain ⟨x, hx, rfl⟩ := List.mem_map.mp hterminal
    exact hg.supplies (h.output_known x hx)

end LoweredTo

theorem WellFormed.loweredTo (h : m.WellFormed declared) {ops : OperatorSet}
    {options : ConversionOptions} (hlower : m.lower ops options = .ok g) :
    ∃ shapes, inputShapes m options = .ok shapes ∧ m.LoweredTo shapes g := by
  rw [lower] at hlower
  split at hlower
  · cases hlower
  · rename_i shapes hshapes
    split at hlower
    · cases hlower
    · rename_i nodes hnodes
      obtain ⟨hconnect, hlowered⟩ := h.loweredTo_connected options
        (lowers_of_lowerLayers hnodes) (inputShapes_eq_ok_iff.mp hshapes).2
      simp only [hconnect] at hlower
      split at hlower
      · cases hlower
      · cases hlower
        exact ⟨shapes, hshapes, hlowered⟩

/-- Models of croppings are lowered with all shapes that fit. -/
theorem WellFormed.lower_total (h : m.WellFormed declared) (hcrops : m.CropsOnly)
    {ops : OperatorSet} (hops : ops.find Slice.name = .ok .slice) {options : ConversionOptions}
    (hshapes : inputShapes m options = .ok shapes) :
    ∃ g, m.lower ops options = .ok g ∧ m.LoweredTo shapes g := by
  obtain ⟨nodes, hnodes⟩ := exists_lowerLayers hops 0 hcrops
  obtain ⟨hconnect, hlowered⟩ := h.loweredTo_connected options
    (lowers_of_lowerLayers hnodes) (inputShapes_eq_ok_iff.mp hshapes).2
  refine ⟨_, ?_, hlowered⟩
  rw [lower, hshapes, hnodes]
  simp only [hconnect, hlowered.validate h]

end Model
end LoweringCheck
