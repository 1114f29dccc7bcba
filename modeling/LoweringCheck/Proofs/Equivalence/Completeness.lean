import LoweringCheck.Proofs.Comparison.Outputs
import LoweringCheck.Proofs.Conversion.Storing
import LoweringCheck.Proofs.Equivalence.Inputs
import LoweringCheck.Proofs.Model.Trace
/-!
# Completeness

Models of croppings pass with the converter and the provider that are built in. All values on the way are
small integers, so neither an element type nor half precision changes any of them.
-/
namespace LoweringCheck

namespace Model
variable {m : Model} {declared : String → Option Symbolic} {shapes : List (List Nat)}

/-- The batch of a tensor, where inputs have the given shapes: that of the input it goes back to. Of an
input that is listed twice the last shape counts. -/
def batchOf (m : Model) (shapes : List (List Nat)) (name : String) : Nat :=
  (((m.inputNames.zip shapes).reverse.lookup (origin m.layers name)).bind List.head?).getD 0

private theorem batch?_fed {inputs : List Tensor} (h : inputs.map Tensor.shape = shapes) (name : String) :
    (fed m.inputs inputs).batch? name =
      ((m.inputNames.zip shapes).reverse.lookup name).bind List.head? := by
  have hzip : (m.inputNames.zip shapes).reverse =
      (fed m.inputs inputs).map fun v => (v.1, v.2.shape) := by
    rw [← h, inputNames, fed, List.zip_map, List.map_reverse, List.map_map]
    rfl
  rw [hzip, lookup_map, Option.bind_map]
  rfl

private theorem predict_sizes (h : m.WellFormed declared) (hcrops : m.CropsOnly)
    {inputs outputs : List Tensor} (hshapes : inputs.map Tensor.shape = shapes)
    (hpredict : m.predict inputs = .ok outputs) :
    outputs.map Tensor.size =
      m.outputs.map fun x => m.batchOf shapes x.name * Shape.volume x.shape := by
  obtain ⟨hlength, hfits, last, hlast, houtputs⟩ := predict_eq_ok.mp hpredict
  obtain ⟨last', _, hlast', hall, _⟩ := predict_crops h hcrops hlength hfits
  obtain rfl : last = last' := Except.ok.inj (hlast.symm.trans hlast')
  have hsize : ∀ x ∈ m.outputs, ∀ t, last.lookup x.name = some t →
      t.size = m.batchOf shapes x.name * Shape.volume x.shape := by
    intro x hx t ht
    obtain ⟨y, t', hy, ht', hfit⟩ := hall x.name (h.output_known x hx)
    obtain rfl : t = t' := Option.some.inj (ht.symm.trans ht')
    obtain rfl : x = y := Option.some.inj ((h.output_declared x hx).symm.trans hy)
    obtain ⟨batch, hbatch⟩ := fits_iff.mp hfit
    have hroot : m.batchOf shapes x.name = batch := by
      rw [batchOf, ← batch?_fed hshapes, ← runLayers_batch hlast, Values.batch?, ht, Option.bind_some,
        hbatch]
      rfl
    rw [t.size_eq_volume, hbatch, hroot]
    rfl
  clear hall hlast hlast' hpredict
  generalize m.outputs = xs at houtputs hsize
  induction houtputs with
  | nil => rfl
  | cons hfirst _ ih =>
    rw [List.map_cons, List.map_cons, hsize _ List.mem_cons_self _ hfirst,
      ih fun x hx => hsize x (List.mem_cons_of_mem _ hx)]

private theorem LoweredTo.takesBatches {g : Graph} (hg : m.LoweredTo shapes g) {inputs : List Tensor}
    (hshapes : inputs.map Tensor.shape = shapes) : g.TakesBatches inputs := by
  have hfits := hg.shapes_fit
  unfold Graph.TakesBatches
  rw [hg.inputs]
  subst hshapes
  rw [List.forall₂_map_right_iff] at hfits
  clear hg
  generalize m.inputs = xs at hfits
  induction hfits with
  | nil => exact .nil
  | cons _ _ ih => exact .cons (.inr rfl) ih

private theorem LoweredTo.run_whole {g : Graph} (hg : m.LoweredTo shapes g) (h : m.WellFormed declared)
    (haddr : ∀ shape ∈ shapes, Shape.Addressable shape) (precision : Precision)
    {inputs outputs : List Tensor} (hshapes : inputs.map Tensor.shape = shapes)
    (hwhole : ∀ t ∈ inputs, t.Whole) (hpredict : m.predict inputs = .ok outputs) :
    ∃ results, g.run .standard precision inputs = .ok results ∧
      List.Forall₂ (fun e a => e.shape = a.shape ∧ e.values = a.values) outputs results := by
  have hall : ∀ t ∈ outputs, t.Whole := by
    refine predict_forall ?_ hpredict hwhole
    intro layer hlayer t u hu ht
    obtain ⟨margins, format, hspec⟩ := hg.cropsOnly layer hlayer
    exact LayerSpec.execute_whole (hspec ▸ hu) ht
  refine ⟨_, hg.run_eq h (hg.input_addressable haddr) precision hpredict
    (hg.takesBatches hshapes), ?_⟩
  rw [List.forall₂_map_right_iff]
  refine List.forall₂_same.mpr fun t ht => ⟨by simp, ?_⟩
  have hdtype : precision.dtype.isFloat = true := by cases precision <;> rfl
  rw [Tensor.values_toDType_f32, (hall t ht).values_toDType hdtype]

end Model

namespace Harness
variable {h : Harness} {build : Builder} {p : CaseParams}

/-- Converter and provider are built in, and the format version is supported. What a registry already
holds for the processor is built in, too. -/
structure BuiltIn (h : Harness) (registry : Registry) : Prop where
  converter : h.converter = .lowering .standard
  provider : h.provider = none
  device : h.config.device = .cpu
  version : h.config.version ∈ supportedVersions
  held : ∀ i, registry.get? ⟨.cpu, h.config.precision⟩ = some i →
    i.provider = .cpu h.config.precision .standard

private theorem chooseProvider_builtIn {registry : Registry} (hbuiltIn : h.BuiltIn registry) :
    ∃ registry', h.chooseProvider registry =
      (.ok (.cpu h.config.precision .standard), registry') := by
  simp only [chooseProvider, hbuiltIn.provider, hbuiltIn.device, Registry.getOrCreate]
  cases hheld : registry.get? ⟨.cpu, h.config.precision⟩ with
  | some i => exact ⟨registry, by simp only [hbuiltIn.held i hheld]⟩
  | none =>
    have hempty : ∀ n, Registry.get? { registry with next := n } ⟨.cpu, h.config.precision⟩ = none :=
      fun _ => hheld
    simp only [Registry.create, Provider.create, Registry.putIfEmpty, hempty]
    exact ⟨_, rfl⟩

theorem convert_crops {m : Model} {declared : String → Option Symbolic} {folder : Folder}
    (hconverter : h.converter = .lowering .standard) (hm : m.WellFormed declared)
    (hcrops : m.CropsOnly) (hlayers : m.layers.length ≤ naturalLimit) (hcheck : p.check = .ok ())
    (hagainst : p.checkAgainst m = .ok ()) (haddr : ∀ shape ∈ p.shapes, Shape.Addressable shape)
    (hallowed : folder.allows (folder.path ++ [Artifact.fileName m.name]) = true)
    (version : Version) :
    ∃ converted folder' content, h.convert version p m folder = (.ok converted, folder') ∧
      folder'.read converted.file = .ok content ∧
      m.lower .standard ⟨version, some p.shapes⟩ = .ok converted.graph ∧
      m.LoweredTo p.shapes converted.graph := by
  obtain ⟨_, hnames, _⟩ := CaseParams.check_eq_ok hcheck
  obtain ⟨hinputs, hall⟩ := CaseParams.checkAgainst_eq_ok hagainst
  have hfits : List.Forall₂ (fun x shape => Model.fits x.shape shape = true) m.inputs p.shapes :=
    List.Forall₂.flip (List.forall₂_iff_zip.mpr ⟨hnames ▸ hinputs, fun hq => hall _ hq⟩)
  have hextents : ∀ shape ∈ p.shapes, ∀ extent ∈ shape, extent ≤ naturalLimit := by
    intro shape hshape extent hextent
    have hlimit : 2 ^ 63 ≤ naturalLimit := by decide
    exact ((haddr shape hshape).2 extent hextent).le.trans hlimit
  obtain ⟨converted, folder', hlower, hconvert, hload, ⟨content, hread⟩, hg⟩ :=
    Converter.lowering_total hm hcrops hlayers hfits hextents version hallowed
  refine ⟨converted, folder', content, ?_, hread, hlower, hg⟩
  simp only [convert, hconverter, hconvert, hload]

/-- The graph of a model of croppings is judged to be equivalent, at whatever precision it is run. -/
theorem judge_crops_at {built : BuiltModel} {converted : Converted} {registry registry' : Registry}
    {declared : String → Option Symbolic} {precision : Precision}
    (hprovider : h.chooseProvider registry = (.ok (.cpu precision .standard), registry'))
    (hzipped : p.Zipped) (hcheck : p.check = .ok ()) (hm : built.model.WellFormed declared)
    (hg : built.model.LoweredTo p.shapes converted.graph)
    (hreference : ∀ reference, built.reference = some reference →
      reference.check converted.graph = .ok ())
    (haddr : ∀ shape ∈ p.shapes, Shape.Addressable shape) (version : Version) :
    ∃ agreement, h.judge version p built converted registry = (.ok (h.report version p built
        converted.file (.cpu precision .standard) agreement), registry') ∧
      agreement.maxAbsolute = .zero ∧ agreement.elements = (built.model.outputs.map fun x =>
        built.model.batchOf p.shapes x.name * Shape.volume x.shape).sum := by
  obtain ⟨inputs, hinputs, hwhole⟩ := generateInputs_whole hzipped hcheck h.config.seed
  have hshapes := generateInputs_shapes hzipped hcheck hinputs
  have hfits := hg.shapes_fit
  rw [← hshapes, List.forall₂_map_right_iff] at hfits
  obtain ⟨hlength, hpairs⟩ := List.forall₂_iff_zip.mp hfits
  obtain ⟨_, expected, _, _, hpredict⟩ :=
    Model.predict_crops hm hg.cropsOnly hlength.symm fun q hq => hpairs hq
  obtain ⟨actual, hactual, hsame⟩ := hg.run_whole hm haddr precision hshapes hwhole hpredict
  have hexecute : (Provider.cpu precision .standard).execute converted.graph inputs = .ok actual :=
    hactual
  obtain ⟨agreement, hagree, hzero⟩ :=
    compareOutputs_same h.config.effectiveTolerance (built.model.outputs.map (·.name)) hsame
  have hcompare : h.compare built (.cpu precision .standard) converted.graph inputs expected =
      .ok agreement := by
    simp only [compare, hexecute, hagree]
    cases hbuilt : built.reference with
    | none => rfl
    | some reference => simp only [hreference reference hbuilt]
  refine ⟨agreement, ?_, hzero, ?_⟩
  · simp only [judge, runNative, hinputs, hpredict, hprovider, hcompare]
  · rw [(compareOutputs_eq_ok hagree).2.2, Model.predict_sizes hm hg.cropsOnly hshapes hpredict]

theorem judge_crops {built : BuiltModel} {converted : Converted} {registry : Registry}
    {declared : String → Option Symbolic} (hbuiltIn : h.BuiltIn registry) (hzipped : p.Zipped)
    (hcheck : p.check = .ok ()) (hm : built.model.WellFormed declared)
    (hg : built.model.LoweredTo p.shapes converted.graph)
    (hreference : ∀ reference, built.reference = some reference →
      reference.check converted.graph = .ok ())
    (haddr : ∀ shape ∈ p.shapes, Shape.Addressable shape) (version : Version) :
    ∃ agreement registry', h.judge version p built converted registry = (.ok (h.report version p built
        converted.file (.cpu h.config.precision .standard) agreement), registry') ∧
      agreement.maxAbsolute = .zero ∧ agreement.elements = (built.model.outputs.map fun x =>
        built.model.batchOf p.shapes x.name * Shape.volume x.shape).sum := by
  obtain ⟨registry', hprovider⟩ := chooseProvider_builtIn hbuiltIn
  obtain ⟨agreement, hjudge⟩ := judge_crops_at hprovider hzipped hcheck hm hg hreference haddr version
  exact ⟨agreement, registry', hjudge⟩

/-- No correct conversion fails. Models of croppings pass without any deviation, whatever seed, precision,
floating-point type and tolerance are, and all elements of their outputs are compared. The numbers of
layers, axes and indices are those that 64 bits can hold, and the artifact has a name that is allowed. -/
theorem run_crops {s : Surroundings} {built : BuiltModel} (hbuiltIn : h.BuiltIn s.registry)
    (hbuild : build .empty p = .ok built) (hm : built.model.Constructed)
    (hcrops : built.model.CropsOnly) (hreference : built.reference = none) (hzipped : p.Zipped)
    (hcheck : p.check = .ok ()) (hagainst : p.checkAgainst built.model = .ok ())
    (haddr : ∀ shape ∈ p.shapes, Shape.Addressable shape)
    (hlayers : built.model.layers.length ≤ naturalLimit)
    (hallowed : s.folder.allows (s.folder.path ++ [Artifact.fileName built.model.name]) = true) :
    ∃ r s', h.run build p s = (.ok r, s') ∧ r.stage = .compared ∧ r.agreement.maxAbsolute = .zero ∧
      r.agreement.elements = (built.model.outputs.map fun x =>
        built.model.batchOf p.shapes x.name * Shape.volume x.shape).sum := by
  obtain ⟨declared, hwell⟩ := hm.wellFormed
  have hconstruct : construct build p = .ok built := by
    simp only [construct, hcheck, hbuild, hagainst]
  have hversion : h.version = .ok ⟨h.config.version, hbuiltIn.version⟩ := by
    simp only [Harness.version, Version.ofNat, dif_pos hbuiltIn.version]
  obtain ⟨converted, folder, content, hconvert, hread, _, hg⟩ := convert_crops hbuiltIn.converter hwell
    hcrops hlayers hcheck hagainst haddr hallowed ⟨_, hbuiltIn.version⟩
  obtain ⟨agreement, registry, hjudge, hzero, helements⟩ := judge_crops hbuiltIn hzipped hcheck hwell hg
    (by simp [hreference]) haddr ⟨_, hbuiltIn.version⟩
  obtain ⟨s', hrun⟩ := run_of_stages hconstruct hversion hconvert hjudge hread
  exact ⟨_, s', hrun, rfl, hzero, helements⟩

/-- Four inputs in half precision, with a tolerance that is not a number. -/
theorem run_crops_rows :
    let h : Harness := { config := { precision := .fp16, tolerance := some ⟨.nan, .nan⟩ } }
    let build : Builder := fun _ _ => .ok ⟨.rowCrop, none⟩
    let p : CaseParams := { names := ["x"], shapes := [[4, 3, 1]], dtype := .bf16 }
    p.Zipped ∧ ∃ r s', h.run build p ⟨.empty, .absent⟩ = (.ok r, s') ∧
      r.agreement.maxAbsolute = .zero ∧ r.agreement.elements = 20 := by
  intro h build p
  have hbuiltIn : h.BuiltIn Registry.empty := ⟨rfl, rfl, rfl, by decide, fun _ hi => by cases hi⟩
  have hzipped : p.Zipped := rfl
  have hbuild : build .empty p = .ok ⟨.rowCrop, none⟩ := rfl
  have haddr : ∀ shape ∈ [[4, 3, 1]], Shape.Addressable shape := by simp [Shape.Addressable]
  have hallowed : Folder.absent.allows (Folder.absent.path ++ [Artifact.fileName Model.rowCrop.name]) =
      true := by decide +kernel
  obtain ⟨r, s', hrun, _, hzero, helements⟩ := run_crops (s := ⟨.empty, .absent⟩) hbuiltIn hbuild
    Model.rowCrop_constructed Model.rowCrop_cropsOnly rfl hzipped rfl rfl haddr (by decide) hallowed
  exact ⟨hzipped, r, s', hrun, hzero, helements⟩

end Harness
end LoweringCheck
