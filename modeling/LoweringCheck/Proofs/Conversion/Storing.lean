import LoweringCheck.Conversion.Converter
import LoweringCheck.Proofs.Artifact.RoundTrip
import LoweringCheck.Proofs.Conversion.Preservation
/-!
# Converted models are read back

The graph of a model fits into a file as long as the numbers of its layers and the extents of its shapes
have 64 bits, so what is loaded is the graph that was lowered.
-/
namespace LoweringCheck

namespace Lowering

private theorem stable_sliceAttributes (margins : List Margin) (format : DataFormat) :
    ∀ e ∈ (sliceAttributes margins format).entries, e.2.toJson.Stable := by
  have hints : ∀ is : List Int64, (Attribute.ints is).toJson.Stable := by
    intro is
    have hitems : ∀ i ∈ is, (Json.integer i.toInt).Stable := by
      intro i _
      have hhigh := i.toInt_lt
      exact Json.reads_integer (fun _ => rfl) i.le_toInt (by unfold Json.Numeral.natLimit; omega)
    simpa [Attribute.toJson, Attribute.toJson.tagged] using hitems
  intro e he
  have hmem := Dictionary.mem_ofList he
  simp only [List.mem_cons, List.not_mem_nil, or_false] at hmem
  rcases hmem with rfl | rfl | rfl <;> exact hints _

private theorem inputBatches_of (terminals : List Terminal) (name : String) :
    (inputBatches terminals).of name = 0 ∨
      ∃ x ∈ terminals, (inputBatches terminals).of name ∈ x.shape := by
  rw [Batches.of]
  cases hlookup : (inputBatches terminals).lookup name with
  | none => exact .inl rfl
  | some batch =>
    have hmem := mem_of_lookup hlookup
    rw [inputBatches, List.mem_reverse, List.mem_map] at hmem
    obtain ⟨x, hx, hbatch⟩ := hmem
    obtain ⟨-, rfl⟩ := Prod.mk.inj hbatch
    cases hshape : x.shape with
    | nil => exact .inl rfl
    | cons extent rest => exact .inr ⟨x, hx, by rw [hshape]; exact List.mem_cons_self⟩

end Lowering

namespace Model
variable {m : Model} {declared : String → Option Symbolic} {shapes : List (List Nat)} {g : Graph}

open Lowering

private theorem LoweredTo.exists_shape (hg : m.LoweredTo shapes g) {x : Symbolic} (hx : x ∈ m.inputs) :
    ∃ batch, batch :: x.shape ∈ shapes := by
  obtain ⟨hlength, hfits⟩ := List.forall₂_iff_zip.mp hg.shapes_fit
  rw [← List.map_fst_zip (Nat.le_of_eq hlength)] at hx
  obtain ⟨pair, hpair, rfl⟩ := List.mem_map.mp hx
  obtain ⟨batch, hbatch⟩ := fits_iff.mp (hfits hpair)
  exact ⟨batch, hbatch ▸ (List.of_mem_zip hpair).2⟩

theorem LoweredTo.input_addressable (hg : m.LoweredTo shapes g)
    (hshapes : ∀ shape ∈ shapes, Shape.Addressable shape) :
    ∀ x ∈ m.inputs, Shape.Addressable x.shape := by
  intro x hx
  obtain ⟨batch, hmem⟩ := hg.exists_shape hx
  exact (hshapes _ hmem).tail

/-- A graph fits into a file if the extents of the given input shapes do. -/
theorem LoweredTo.storable (hg : m.LoweredTo shapes g) (h : m.WellFormed declared)
    (hlayers : m.layers.length ≤ naturalLimit)
    (hshapes : ∀ shape ∈ shapes, ∀ extent ∈ shape, extent ≤ naturalLimit) : g.Storable := by
  have hinputs : ∀ x ∈ g.inputs, ∀ extent ∈ x.shape, extent ≤ naturalLimit := by
    intro x hx
    rw [hg.inputs, ← List.map_uncurry_zip_eq_zipWith] at hx
    obtain ⟨pair, hpair, rfl⟩ := List.mem_map.mp hx
    exact hshapes _ (List.of_mem_zip hpair).2
  have hdeclared : ∀ x ∈ m.inputs, ∀ extent ∈ x.shape, extent ≤ naturalLimit := by
    intro x hx extent hextent
    obtain ⟨batch, hmem⟩ := hg.exists_shape hx
    exact hshapes _ hmem extent (List.mem_cons_of_mem _ hextent)
  have houtputs : ∀ x ∈ m.outputs, ∀ extent ∈ x.shape, extent ≤ naturalLimit := fun x hx =>
    h.shape_induction (P := fun shape => ∀ extent ∈ shape, extent ≤ naturalLimit) hdeclared
      (fun _ _ _ _ hs hout => LayerSpec.outputShape_le hout hs) (h.output_known x hx)
      (h.output_declared x hx)
  refine ⟨⟨?_, ?_, ?_⟩, ?_⟩
  · intro n hn
    obtain ⟨i, hi⟩ := List.mem_iff_getElem?.mp hn
    obtain ⟨_, _, _, hlayer, _, rfl⟩ := hg.nodes.layer hi
    exact (List.getElem?_eq_some_iff.mp hlayer).1.le.trans hlayers
  · intro e he
    obtain ⟨hsource, htarget⟩ := hg.edge_range h e he
    rw [hg.size_eq] at hsource htarget
    exact ⟨hsource.le.trans hlayers, htarget.le.trans hlayers⟩
  · intro x hx extent hextent
    rcases List.mem_append.mp hx with hx | hx
    · exact hinputs x hx extent hextent
    · rw [hg.outputs] at hx
      obtain ⟨y, hy, rfl⟩ := List.mem_map.mp hx
      rcases List.mem_cons.mp hextent with rfl | hextent
      · rw [of_layerBatches]
        rcases inputBatches_of g.inputs (origin m.layers y.name) with hzero | ⟨z, hz, hbatch⟩
        · exact hzero ▸ Nat.zero_le _
        · exact hinputs z hz _ hbatch
      · exact houtputs y hy extent hextent
  · intro n hn
    obtain ⟨i, hi⟩ := List.mem_iff_getElem?.mp hn
    obtain ⟨_, _, _, _, _, rfl⟩ := hg.nodes.layer hi
    exact stable_sliceAttributes _ _

end Model

namespace Converter
variable {m : Model} {declared : String → Option Symbolic} {shapes : List (List Nat)}

theorem convert_eq_ok_iff {ops : OperatorSet} {options : ConversionOptions} {folder folder' : Folder}
    {converted : Converted} :
    (lowering ops).convert m options folder = (.ok converted, folder') ↔
      m.lower ops options = .ok converted.graph ∧ converted.version = options.version ∧
        Artifact.write ⟨options.version, producerName, converted.graph⟩ folder m.name =
          (.ok converted.file, folder') := by
  show convertBy ops m options folder = _ ↔ _
  rw [convertBy]
  cases m.lower ops options with
  | error e => simp
  | ok g =>
    obtain ⟨graph, version, file⟩ := converted
    simp only [Except.ok.injEq]
    constructor
    · intro h
      split at h
      · rename_i hwrite
        cases h
        exact ⟨rfl, rfl, hwrite⟩
      · cases h
    · rintro ⟨rfl, rfl, hwrite⟩
      simp only [hwrite]

theorem load_of_content {a : Artifact} (hstorable : a.graph.Storable)
    (hvalid : a.graph.validate = .ok ()) {folder : Folder} {file : String}
    (hread : folder.read file = .ok a.content) :
    Converted.load folder file = .ok ⟨a.graph, a.version, file⟩ := by
  simp only [Converted.load, Artifact.read, hread, Artifact.parse_content hstorable hvalid]

/-- Models of croppings are converted, and what is loaded is the lowered graph. -/
theorem lowering_total (h : m.WellFormed declared) (hcrops : m.CropsOnly)
    (hlayers : m.layers.length ≤ naturalLimit)
    (hfits : List.Forall₂ (fun x shape => Model.fits x.shape shape = true) m.inputs shapes)
    (hshapes : ∀ shape ∈ shapes, ∀ extent ∈ shape, extent ≤ naturalLimit) (version : Version)
    {folder : Folder} (hallowed : folder.allows (folder.path ++ [Artifact.fileName m.name]) = true) :
    ∃ converted folder', m.lower .standard ⟨version, some shapes⟩ = .ok converted.graph ∧
      (lowering .standard).convert m ⟨version, some shapes⟩ folder = (.ok converted, folder') ∧
      Converted.load folder' converted.file = .ok converted ∧
      (∃ content, folder'.read converted.file = .ok content) ∧
      m.LoweredTo shapes converted.graph := by
  have hgiven : Lowering.inputShapes m ⟨version, some shapes⟩ = .ok shapes :=
    Lowering.inputShapes_eq_ok_iff.mpr ⟨rfl, hfits⟩
  obtain ⟨g, hlower, hg⟩ := h.lower_total hcrops Lowering.find_slice hgiven
  obtain ⟨folder', hwrite⟩ := Artifact.write_allowed ⟨version, producerName, g⟩ hallowed
  have hread := (Artifact.content_of_write hwrite).2
  have hload := load_of_content (hg.storable h hlayers hshapes) (hg.validate h) hread
  exact ⟨⟨g, version, Artifact.fileName m.name⟩, folder', hlower,
    convert_eq_ok_iff.mpr ⟨hlower, rfl, hwrite⟩, hload, ⟨_, hread⟩, hg⟩

/-- What is loaded is what was converted, as long as the file is left alone: the text of the artifact is
parsed to the same graph, which is valid again. Names are any texts; extents and numbers of layers are
those of 64 bits. -/
theorem load_convert (hm : m.Constructed) (hlayers : m.layers.length ≤ naturalLimit)
    (hextents : ∀ x ∈ m.inputs, ∀ extent ∈ x.shape, extent ≤ naturalLimit)
    {options : ConversionOptions}
    (hgiven : ∀ shapes, options.inputShapes = some shapes →
      ∀ shape ∈ shapes, ∀ extent ∈ shape, extent ≤ naturalLimit)
    {ops : OperatorSet} {folder folder' : Folder} {converted : Converted}
    (hconvert : (lowering ops).convert m options folder = (.ok converted, folder')) :
    m.lower ops options = .ok converted.graph ∧ converted.version = options.version ∧
      (∃ content, folder'.read converted.file = .ok content ∧
        Artifact.parse content = .ok ⟨converted.version, producerName, converted.graph⟩) ∧
      ∀ later : Folder, later.read converted.file = folder'.read converted.file →
        Converted.load later converted.file = .ok converted := by
  obtain ⟨declared, h⟩ := hm.wellFormed
  obtain ⟨hlower, hversion, hwrite⟩ := convert_eq_ok_iff.mp hconvert
  obtain ⟨shapes, hshapes, hg⟩ := h.loweredTo hlower
  obtain ⟨rfl, -⟩ := Lowering.inputShapes_eq_ok_iff.mp hshapes
  have hbounded : ∀ shape ∈ options.inputShapes.getD (m.inputs.map fun x => 0 :: x.shape),
      ∀ extent ∈ shape, extent ≤ naturalLimit := by
    cases hoptions : options.inputShapes with
    | some given => exact hgiven given hoptions
    | none =>
      intro shape hshape extent hextent
      obtain ⟨x, hx, rfl⟩ := List.mem_map.mp hshape
      rcases List.mem_cons.mp hextent with rfl | hmem
      · exact Nat.zero_le _
      · exact hextents x hx extent hmem
  have hstorable := hg.storable h hlayers hbounded
  have hread := (Artifact.content_of_write hwrite).2
  rw [← hversion] at hread
  refine ⟨hlower, hversion, ⟨_, hread, ?_⟩, ?_⟩
  · exact Artifact.parse_content (a := ⟨converted.version, producerName, converted.graph⟩) hstorable
      (hg.validate h)
  · intro later hlater
    exact load_of_content hstorable (hg.validate h) (hlater.trans hread)

/-- A batch of 64 bits and a name that no file can have as it stands. -/
theorem load_convert_rowCrop :
    let m : Model := { Model.rowCrop with name := "модель/1" }
    let options : ConversionOptions := { inputShapes := some [[naturalLimit, 3, 1]] }
    ∃ converted folder', (lowering .standard).convert m options .absent = (.ok converted, folder') ∧
      converted.file = "модель_1.ir.json" ∧ Converted.load folder' converted.file = .ok converted := by
  intro m options
  have hm : m.Constructed := Model.rowCrop_constructed
  have hextents : ∀ x ∈ m.inputs, ∀ extent ∈ x.shape, extent ≤ naturalLimit := by decide
  have hgiven : ∀ shapes, options.inputShapes = some shapes →
      ∀ shape ∈ shapes, ∀ extent ∈ shape, extent ≤ naturalLimit := by
    rintro shapes ⟨⟩
    decide
  have hallowed : Folder.absent.allows (Folder.absent.path ++ [Artifact.fileName m.name]) = true := by
    decide +kernel
  obtain ⟨declared, hwell⟩ := hm.wellFormed
  obtain ⟨converted, folder', -, hconvert, -, -, -⟩ := lowering_total hwell Model.rowCrop_cropsOnly
    (by decide) (.cons rfl .nil) (hgiven _ rfl) .latest hallowed
  obtain ⟨-, -, -, hload⟩ := load_convert hm (by decide) hextents hgiven hconvert
  obtain ⟨hfile, -⟩ := Artifact.content_of_write (convert_eq_ok_iff.mp hconvert).2.2
  have hname : Artifact.fileName m.name = "модель_1.ir.json" := by decide +kernel
  exact ⟨converted, folder', hconvert, hfile.trans hname, hload folder' rfl⟩

end Converter
end LoweringCheck
