import LoweringCheck.Proofs.Conversion.Storing
import LoweringCheck.Proofs.Equivalence.Inputs
import LoweringCheck.Proofs.Model.Trace
/-!
# Early failures

Cases fail for their parameters, for their models or for the conversion before anything is written. Some
of the later steps could fail in the same ways: an artifact is read back, and inputs are generated. They
never do, so these failures tell that nothing was written.
-/
namespace LoweringCheck

/-- A precondition that does not hold, a model that cannot be built, or a conversion that fails for
anything else than a file. -/
def EquivalenceError.Early : EquivalenceError → Prop
  | .params _ | .inputs _ | .construction _ => True
  | .conversion e => e.kind ≠ "io"
  | _ => False

private theorem Converter.lowering_error {ops : OperatorSet} {m : Model} {options : ConversionOptions}
    {folder folder' : Folder} {e : ConversionError}
    (h : (lowering ops).convert m options folder = (.error e, folder')) :
    folder' = folder ∨ e.kind = "io" := by
  change convertBy ops m options folder = _ at h
  rw [convertBy] at h
  split at h
  · cases h
    exact .inl rfl
  · rw [Artifact.write] at h
    split at h
    · cases h
    · rename_i hwrite
      split at hwrite
      · cases hwrite
      · cases hwrite
        cases h
        exact .inr rfl

namespace Harness
variable {h : Harness} {build : Builder} {p : CaseParams} {s s' : Surroundings} {e : EquivalenceError}

/-- The stage at which a case stopped, with what was done before. -/
inductive Stops (h : Harness) (build : Builder) (p : CaseParams) (s : Surroundings)
    (e : EquivalenceError) (s' : Surroundings) : Prop
  | construct (failed : construct build p = .error e) (left : s' = s)
  | version {built : BuiltModel} (constructed : Harness.construct build p = .ok built)
      (failed : h.version = .error e) (left : s' = s)
  | convert {built : BuiltModel} {version : Version} {folder : Folder}
      (constructed : Harness.construct build p = .ok built) (known : h.version = .ok version)
      (failed : h.convert version p built.model s.folder = (.error e, folder))
      (left : s' = { s with folder := folder })
  | judge {built : BuiltModel} {version : Version} {converted : Converted} {folder : Folder}
      {registry : Registry} (constructed : Harness.construct build p = .ok built)
      (known : h.version = .ok version)
      (loaded : h.convert version p built.model s.folder = (.ok converted, folder))
      (failed : h.judge version p built converted s.registry = (.error e, registry))
      (left : s' = ⟨registry, folder⟩)
  | tidy {built : BuiltModel} {version : Version} {converted : Converted} {folder folder' : Folder}
      {registry : Registry} {r : Report} (constructed : Harness.construct build p = .ok built)
      (known : h.version = .ok version)
      (loaded : h.convert version p built.model s.folder = (.ok converted, folder))
      (judged : h.judge version p built converted s.registry = (.ok r, registry))
      (failed : h.tidy r folder = (.error e, folder')) (left : s' = ⟨registry, folder'⟩)

private theorem run_error (hrun : h.run build p s = (.error e, s')) : h.Stops build p s e s' := by
  rw [run] at hrun
  split at hrun
  · rename_i hconstruct
    cases hrun
    exact .construct hconstruct rfl
  · rename_i built hconstruct
    split at hrun
    · rename_i hversion
      cases hrun
      exact .version hconstruct hversion rfl
    · rename_i version hversion
      split at hrun
      · rename_i hconvert
        cases hrun
        exact .convert hconstruct hversion hconvert rfl
      · rename_i converted folder hconvert
        split at hrun
        · rename_i hjudge
          cases hrun
          exact .judge hconstruct hversion hconvert hjudge rfl
        · rename_i r registry hjudge
          rcases htidy : h.tidy r folder with ⟨result, last⟩
          simp only [htidy] at hrun
          cases hrun
          exact .tidy hconstruct hversion hconvert hjudge htidy rfl

/-! ## Steps after the artifact is written -/

private theorem runNative_error {m : Model} (hnative : h.runNative p m = .error e) :
    ∃ fault, e = .nativeExecution fault := by
  obtain ⟨inputs, hinputs⟩ := generateInputs_total p.specs h.config.seed
  simp only [runNative, hinputs] at hnative
  split at hnative
  · cases hnative
    exact ⟨_, rfl⟩
  · cases hnative

private theorem chooseProvider_error {registry registry' : Registry}
    (hprovider : h.chooseProvider registry = (.error e, registry')) :
    ∃ fault, e = .unavailable h.config.device fault := by
  rw [chooseProvider] at hprovider
  split at hprovider
  · cases hprovider
  · split at hprovider
    · cases hprovider
    · cases hprovider
      exact ⟨_, rfl⟩

private theorem compare_error {built : BuiltModel} {provider : Provider} {g : Graph}
    {inputs expected : List Tensor} (hcompare : h.compare built provider g inputs expected = .error e) :
    (∃ fault, e = .convertedExecution fault) ∨ (∃ fault, e = .comparison fault) ∨
      ∃ fault, e = .structural fault := by
  rw [compare] at hcompare
  split at hcompare
  · cases hcompare
    exact .inl ⟨_, rfl⟩
  · split at hcompare
    · cases hcompare
      exact .inr (.inl ⟨_, rfl⟩)
    · split at hcompare
      · cases hcompare
      · split at hcompare
        · cases hcompare
          exact .inr (.inr ⟨_, rfl⟩)
        · cases hcompare

private theorem judge_error {version : Version} {built : BuiltModel} {converted : Converted}
    {registry registry' : Registry}
    (hjudge : h.judge version p built converted registry = (.error e, registry')) : ¬ e.Early := by
  rw [judge] at hjudge
  split at hjudge
  · rename_i hnative
    cases hjudge
    obtain ⟨fault, rfl⟩ := runNative_error hnative
    exact id
  · split at hjudge
    · rename_i hprovider
      cases hjudge
      obtain ⟨fault, rfl⟩ := chooseProvider_error hprovider
      exact id
    · split at hjudge
      · rename_i hcompare
        cases hjudge
        obtain ⟨fault, rfl⟩ | ⟨fault, rfl⟩ | ⟨fault, rfl⟩ := compare_error hcompare <;> exact id
      · cases hjudge

private theorem tidy_error {r : Report} {folder folder' : Folder}
    (htidy : h.tidy r folder = (.error e, folder')) :
    ∃ fault, e = .file fault := by
  rw [tidy] at htidy
  split at htidy
  · cases htidy
  · split at htidy
    · cases htidy
    · cases htidy
      exact ⟨_, rfl⟩

/-! ## What is written is loaded -/

/-- The callback gives models that calls on sessions make, of no more layers than 64 bits can number. -/
def Builds (build : Builder) (p : CaseParams) : Prop :=
  ∀ built, build .empty p = .ok built →
    built.model.Constructed ∧ built.model.layers.length ≤ naturalLimit

variable {ops : OperatorSet} (hconverter : h.converter = .lowering ops) (hbuild : Builds build p)
  (hextents : ∀ shape ∈ p.shapes, ∀ extent ∈ shape, extent ≤ naturalLimit)
include hconverter hbuild hextents

/-- The artifact that the converter wrote is loaded as it was converted, as long as the file is left
alone. -/
theorem load_written {built : BuiltModel} (hconstruct : construct build p = .ok built)
    {version : Version} {folder folder' : Folder} {written : Converted}
    (hwritten : h.converter.convert built.model ⟨version, some p.shapes⟩ folder =
      (.ok written, folder'))
    {later : Folder} (hlater : later.read written.file = folder'.read written.file) :
    Converted.load later written.file = .ok written := by
  obtain ⟨-, hbuilt, -⟩ := construct_eq_ok hconstruct
  obtain ⟨hconstructed, hlayers⟩ := hbuild built hbuilt
  obtain ⟨declared, hwell⟩ := hconstructed.wellFormed
  rw [hconverter] at hwritten
  obtain ⟨hlower, hversion, hwrite⟩ := Converter.convert_eq_ok_iff.mp hwritten
  obtain ⟨shapes, hshapes, hg⟩ := hwell.loweredTo hlower
  obtain ⟨rfl, -⟩ := Lowering.inputShapes_eq_ok_iff.mp hshapes
  have hread := (Artifact.content_of_write hwrite).2
  rw [← hversion] at hread
  exact Converter.load_of_content (hg.storable hwell hlayers hextents) (hg.validate hwell)
    (hlater.trans hread)

/-- A conversion with the built-in converter fails before it writes, or for a file. -/
theorem convert_error {built : BuiltModel} (hconstruct : construct build p = .ok built)
    {version : Version} {folder folder' : Folder}
    (hconvert : h.convert version p built.model folder = (.error e, folder')) (hearly : e.Early) :
    folder' = folder := by
  rw [convert] at hconvert
  split at hconvert
  · rename_i fault last hwritten
    cases hconvert
    rw [hconverter] at hwritten
    exact (Converter.lowering_error hwritten).resolve_right hearly
  · rename_i written last hwritten
    have hload := load_written hconverter hbuild hextents hconstruct hwritten rfl
    simp only [hload] at hconvert
    cases hconvert

/-- A case of the built-in converter that fails for a precondition, for its model or for its conversion,
files apart, leaves everything as it was. Once the artifact is written it is loaded as it was converted,
as long as the file is left alone, and inputs are generated. -/
theorem run_early :
    (∀ e s', h.run build p s = (.error e, s') → e.Early → s' = s) ∧
    ∀ built version written folder, construct build p = .ok built →
      h.converter.convert built.model ⟨version, some p.shapes⟩ s.folder = (.ok written, folder) →
        (∀ later : Folder, later.read written.file = folder.read written.file →
          Converted.load later written.file = .ok written) ∧
        ∃ inputs, generateInputs p.specs h.config.seed = .ok inputs := by
  constructor
  · intro e s' hrun hearly
    cases run_error hrun with
    | construct failed left => exact left
    | version constructed failed left => exact left
    | convert constructed known failed left =>
      rw [left, convert_error hconverter hbuild hextents constructed failed hearly]
    | judge constructed known loaded failed left =>
      exact absurd hearly (judge_error failed)
    | tidy constructed known loaded judged failed left =>
      obtain ⟨fault, rfl⟩ := tidy_error failed
      exact absurd hearly id
  · intro built version written folder hconstruct hwritten
    exact ⟨fun later => load_written hconverter hbuild hextents hconstruct hwritten,
      generateInputs_total p.specs h.config.seed⟩

omit hconverter hbuild hextents

/-- A version that is not supported is refused before anything is written. Under one that is, the artifact
is written and loaded. -/
theorem run_early_rowCrop :
    let build : Builder := fun _ _ => .ok ⟨.rowCrop, none⟩
    let p : CaseParams := { names := ["x"], shapes := [[4, 3, 1]], dtype := .f64 }
    let s : Surroundings := ⟨.empty, .absent⟩
    (∃ s', run { config := { version := 12 } } build p s =
        (.error (.conversion (.artifact (.version (.unsupported 12)))), s') ∧ s' = s) ∧
      ∃ written folder, (Converter.lowering .standard).convert .rowCrop ⟨.latest, some p.shapes⟩
          s.folder = (.ok written, folder) ∧ Converted.load folder written.file = .ok written := by
  intro build p s
  have hbuild : Builds build p := by
    rintro built ⟨⟩
    exact ⟨Model.rowCrop_constructed, by decide⟩
  have hextents : ∀ shape ∈ p.shapes, ∀ extent ∈ shape, extent ≤ naturalLimit := by decide
  constructor
  · have hrun : run { config := { version := 12 } } build p s =
        (.error (.conversion (.artifact (.version (.unsupported 12)))), s) := rfl
    have hkind : (ConversionError.artifact (.version (.unsupported 12))).kind ≠ "io" := by decide
    exact ⟨s, hrun, (run_early rfl hbuild hextents).1 _ _ hrun hkind⟩
  · have hallowed : s.folder.allows (s.folder.path ++ [Artifact.fileName Model.rowCrop.name]) = true := by
      decide +kernel
    obtain ⟨declared, hwell⟩ := Model.rowCrop_constructed.wellFormed
    obtain ⟨written, folder, -, hwritten, -⟩ := Converter.lowering_total hwell
      Model.rowCrop_cropsOnly (by decide) (.cons rfl .nil) hextents .latest hallowed
    have hload := ((run_early (h := { config := {} }) (s := s) rfl hbuild hextents).2 ⟨.rowCrop, none⟩
      .latest written folder rfl hwritten).1
    exact ⟨written, folder, hwritten, hload folder rfl⟩

end Harness
end LoweringCheck
