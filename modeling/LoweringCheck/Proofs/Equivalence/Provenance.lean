import LoweringCheck.Proofs.Equivalence.Completeness
import LoweringCheck.Proofs.Equivalence.EarlyFailures
import LoweringCheck.Proofs.Provider.Slots
/-!
# What reports tell of runs

A report takes device and precision from the provider, but the version and the tolerance from the
configuration. Which version the artifact has is up to the converter, and a provider that is given need not
run at the precision that is configured. With what is built in the one agrees with the other.
-/
namespace LoweringCheck

theorem Version.ofNat_eq_ok {number : Nat} {version : Version} (h : ofNat number = .ok version) :
    version.number = number := by
  rw [ofNat] at h
  split at h
  · cases h
    rfl
  · cases h

private theorem Tolerance.ofPrecision_inj {a b : Precision} (h : ofPrecision a = ofPrecision b) :
    a = b := by
  have hdistinct : fp32 ≠ fp16 := by decide
  cases a <;> cases b
  · rfl
  · exact absurd h hdistinct
  · exact absurd h.symm hdistinct
  · rfl

theorem Converted.load_eq_ok {folder : Folder} {file : String} {converted : Converted}
    (h : load folder file = .ok converted) :
    ∃ a, Artifact.read folder file = .ok a ∧ converted = ⟨a.graph, a.version, file⟩ := by
  rw [load] at h
  split at h
  · rename_i a ha
    cases h
    exact ⟨a, ha, rfl⟩
  · cases h

namespace Harness
variable {h : Harness} {build : Builder} {p : CaseParams} {s s' : Surroundings} {r : Report}

theorem version_eq_ok {version : Version} (hversion : h.version = .ok version) :
    version.number = h.config.version := by
  rw [Harness.version] at hversion
  split at hversion
  · rename_i hnumber
    cases hversion
    exact Version.ofNat_eq_ok hnumber
  · cases hversion

/-- What a case has gone through that passed with a report: the artifact that was read from the file, and
the provider that ran its graph. -/
structure Ran (h : Harness) (build : Builder) (p : CaseParams) (s s' : Surroundings) (r : Report)
    (artifact : Artifact) (provider : Provider) : Prop where
  loaded : ∃ built folder, construct build p = .ok built ∧
    h.convert r.version p built.model s.folder =
      (.ok ⟨artifact.graph, artifact.version, r.file⟩, folder) ∧
    Artifact.read folder r.file = .ok artifact
  chosen : h.chooseProvider s.registry = (.ok provider, s'.registry)
  compared : ∃ names inputs expected actual, provider.execute artifact.graph inputs = .ok actual ∧
    compareOutputs r.tolerance names expected actual = .ok r.agreement
  asked : h.version = .ok r.version
  device : r.device = provider.device
  precision : r.precision = provider.precision
  tolerance : r.tolerance = h.config.effectiveTolerance

private theorem run_ran (hrun : h.run build p s = (.ok r, s')) :
    ∃ artifact provider, h.Ran build p s s' r artifact provider := by
  obtain ⟨built, version, converted, folder, hconstruct, hversion, hconvert, hjudge⟩ := run_eq_ok hrun
  obtain ⟨inputs, expected, provider, agreement, -, hprovider, hcompare, rfl⟩ := judge_eq_ok hjudge
  obtain ⟨actual, hactual, hagree, -⟩ := compare_eq_ok hcompare
  obtain ⟨written, -, hload⟩ := convert_eq_ok hconvert
  obtain ⟨artifact, hread, rfl⟩ := Converted.load_eq_ok hload
  exact ⟨artifact, provider, ⟨built, folder, hconstruct, hconvert, hread⟩, hprovider,
    ⟨_, inputs, expected, actual, hactual, hagree⟩, hversion, rfl, rfl, rfl⟩

section Ran
variable {artifact : Artifact} {provider : Provider} (hran : h.Ran build p s s' r artifact provider)
include hran

theorem Ran.version_eq_iff :
    r.version = artifact.version ↔ artifact.version.number = h.config.version := by
  have hasked := version_eq_ok hran.asked
  constructor
  · intro heq
    rw [← heq, hasked]
  · intro hnumber
    have hsame : r.version.number = artifact.version.number := hasked.trans hnumber.symm
    rcases hr : r.version with ⟨n, hn⟩
    rcases ha : artifact.version with ⟨m, hm⟩
    rw [hr, ha] at hsame
    cases hsame
    rfl

theorem Ran.tolerance_eq_iff (hnone : h.config.tolerance = none) :
    r.tolerance = .ofPrecision r.precision ↔ r.precision = h.config.precision := by
  rw [hran.tolerance, Config.effectiveTolerance, hnone, Option.getD_none]
  exact ⟨fun heq => (Tolerance.ofPrecision_inj heq).symm, fun heq => by rw [heq]⟩

private theorem Ran.version_of_lowering {ops : OperatorSet} (hconverter : h.converter = .lowering ops)
    (hbuild : Builds build p) (hextents : ∀ shape ∈ p.shapes, ∀ extent ∈ shape, extent ≤ naturalLimit) :
    r.version = artifact.version := by
  obtain ⟨built, folder, hconstruct, hconvert, -⟩ := hran.loaded
  obtain ⟨written, hwritten, hload⟩ := convert_eq_ok hconvert
  have hsame := load_written hconverter hbuild hextents hconstruct hwritten rfl
  obtain rfl := Except.ok.inj (hsame.symm.trans hload)
  rw [hconverter] at hwritten
  exact (Converter.convert_eq_ok_iff.mp hwritten).2.1.symm

private theorem Ran.precision_of_registry (hprovider : h.provider = none)
    (hregistry : s.registry.Reachable) :
    r.precision = h.config.precision := by
  have hchosen := hran.chosen
  rw [chooseProvider, hprovider] at hchosen
  split at hchosen
  · rename_i heq
    cases heq
  · split at hchosen
    · rename_i i registry hget
      cases hchosen
      rw [hran.precision]
      exact congrArg Slot.precision (hregistry.slot_of_getOrCreate hget)
    · cases hchosen

end Ran

/-! ## Runs of one case -/

/-- The converter that is built in, but for the version: it writes the same one, whatever is asked for. -/
def fixedVersion (version : Version) : Converter where
  name := producerName
  convert m options := Converter.convertBy .standard m { options with version := version }

def rows : CaseParams := { names := ["x"], shapes := [[4, 3, 1]], dtype := .f64 }

def buildRows : Builder := fun _ _ => .ok ⟨.rowCrop, none⟩

private theorem rows_extents : ∀ shape ∈ rows.shapes, ∀ extent ∈ shape, extent ≤ naturalLimit := by decide

private theorem builds_rows : Builds buildRows rows := by
  rintro built ⟨⟩
  exact ⟨Model.rowCrop_constructed, by decide⟩

private theorem run_rows (asked version : Version) (precision : Precision) {registry : Registry}
    (hversion : h.version = .ok asked)
    (hconverter : h.converter.convert .rowCrop ⟨asked, some rows.shapes⟩ .absent =
      (Converter.lowering .standard).convert .rowCrop ⟨version, some rows.shapes⟩ .absent)
    (hprovider : h.chooseProvider .empty = (.ok (.cpu precision .standard), registry)) :
    ∃ r s' artifact, h.run buildRows rows ⟨.empty, .absent⟩ = (.ok r, s') ∧
      h.Ran buildRows rows ⟨.empty, .absent⟩ s' r artifact (.cpu precision .standard) ∧
      r.version = asked ∧ artifact.version = version := by
  have hallowed : Folder.absent.allows (Folder.absent.path ++ [Artifact.fileName Model.rowCrop.name]) =
      true := by decide +kernel
  have hzipped : rows.Zipped := rfl
  have haddr : ∀ shape ∈ rows.shapes, Shape.Addressable shape := by simp [rows, Shape.Addressable]
  have hfits : List.Forall₂ (fun x shape => Model.fits x.shape shape = true) Model.rowCrop.inputs
    rows.shapes := .cons rfl .nil
  let built : BuiltModel := ⟨.rowCrop, none⟩
  have hconstruct : construct buildRows rows = .ok built := rfl
  obtain ⟨declared, hwell⟩ : ∃ declared, built.model.WellFormed declared :=
    Model.rowCrop_constructed.wellFormed
  obtain ⟨converted, folder, -, hwritten, hload, ⟨content, hread⟩, hg⟩ := Converter.lowering_total hwell
    Model.rowCrop_cropsOnly (by decide) hfits rows_extents version hallowed
  have hconvert : h.convert asked rows built.model .absent = (.ok converted, folder) := by
    rw [convert, hconverter.trans hwritten]
    simp only [hload]
  obtain ⟨agreement, hjudge, -⟩ := judge_crops_at hprovider hzipped rfl hwell hg (by simp)
    haddr asked
  obtain ⟨s', hrun⟩ := run_of_stages (s := ⟨.empty, .absent⟩) hconstruct hversion hconvert hjudge hread
  obtain ⟨artifact, provider, hran⟩ := run_ran hrun
  have hasked := Except.ok.inj (hran.asked.symm.trans hversion)
  obtain rfl : provider = .cpu precision .standard := by
    have hsame := congrArg Prod.fst (hran.chosen.symm.trans hprovider)
    exact Except.ok.inj hsame
  refine ⟨_, s', artifact, hrun, hran, hasked, ?_⟩
  obtain ⟨other, last, hother, hloaded, -⟩ := hran.loaded
  obtain rfl := Except.ok.inj (hother.symm.trans hconstruct)
  rw [hasked] at hloaded
  have hsame := Except.ok.inj (congrArg Prod.fst (hconvert.symm.trans hloaded))
  have hwrote := (Converter.convert_eq_ok_iff.mp hwritten).2.1
  rw [hsame] at hwrote
  exact hwrote

/-! ## Reports -/

/-- A report tells the version of the artifact that was run exactly if that is the one asked for, and a
tolerance by the precision of the run exactly if that is the one configured. The built-in converter sees to
the former, registries see to the latter. -/
theorem run_provenance (hrun : h.run build p s = (.ok r, s')) :
    ∃ artifact provider, h.Ran build p s s' r artifact provider ∧
      (r.version = artifact.version ↔ artifact.version.number = h.config.version) ∧
      (h.config.tolerance = none →
        (r.tolerance = .ofPrecision r.precision ↔ provider.precision = h.config.precision)) ∧
      (∀ ops, h.converter = .lowering ops → Builds build p →
        (∀ shape ∈ p.shapes, ∀ extent ∈ shape, extent ≤ naturalLimit) →
          r.version = artifact.version) ∧
      (h.provider = none → s.registry.Reachable → h.config.tolerance = none →
        r.tolerance = .ofPrecision r.precision) := by
  obtain ⟨artifact, provider, hran⟩ := run_ran hrun
  refine ⟨artifact, provider, hran, hran.version_eq_iff, ?_, ?_, ?_⟩
  · intro hnone
    rw [← hran.precision]
    exact hran.tolerance_eq_iff hnone
  · intro ops hconverter hbuild hextents
    exact hran.version_of_lowering hconverter hbuild hextents
  · intro hprovider hregistry hnone
    exact (hran.tolerance_eq_iff hnone).mpr (hran.precision_of_registry hprovider hregistry)

/-- A case with all that is built in, under version 10 and in half precision. -/
theorem run_provenance_rows :
    let h : Harness := { config := { version := 10, precision := .fp16 } }
    ∃ r s' artifact provider, h.run buildRows rows ⟨.empty, .absent⟩ = (.ok r, s') ∧
      h.Ran buildRows rows ⟨.empty, .absent⟩ s' r artifact provider ∧ r.version = artifact.version ∧
      r.tolerance = .ofPrecision r.precision := by
  intro h
  obtain ⟨r, s', -, hrun, -⟩ := run_rows (h := h) ⟨10, by decide⟩ ⟨10, by decide⟩ .fp16 rfl rfl rfl
  obtain ⟨artifact, provider, hran, -, -, hversion, htolerance⟩ := run_provenance hrun
  exact ⟨r, s', artifact, provider, hrun, hran, hversion .standard rfl builds_rows rows_extents,
    htolerance rfl .empty rfl⟩

/-- A report tells version 11 of an artifact of version 10, and the tolerance of single precision for a
run in half precision. -/
theorem run_tells_configuration :
    let h : Harness := { config := {}, converter := fixedVersion ⟨10, by decide⟩,
                         provider := some (.cpu .fp16 .standard) }
    ∃ r s' artifact, h.run buildRows rows ⟨.empty, .absent⟩ = (.ok r, s') ∧
      h.Ran buildRows rows ⟨.empty, .absent⟩ s' r artifact (.cpu .fp16 .standard) ∧
      r.version.number = 11 ∧ artifact.version.number = 10 ∧
      h.config.tolerance = none ∧ r.precision = .fp16 ∧ r.tolerance = .ofPrecision .fp32 ∧
      r.tolerance ≠ .ofPrecision r.precision := by
  intro h
  obtain ⟨r, s', artifact, hrun, hran, hasked, hversion⟩ :=
    run_rows (h := h) .latest ⟨10, by decide⟩ .fp16 rfl rfl rfl
  refine ⟨r, s', artifact, hrun, hran, by rw [hasked]; rfl, by rw [hversion], rfl, hran.precision,
    hran.tolerance, ?_⟩
  rw [Ne, hran.tolerance_eq_iff rfl, hran.precision]
  decide

end Harness
end LoweringCheck
