import Mathlib.Data.List.Forall2
import LoweringCheck.Equivalence.Check
/-!
# The stages of a case

A case that passes has passed every stage, and each stage hands on what the next one reads.
-/
namespace LoweringCheck

theorem CaseParams.check_eq_ok {p : CaseParams} (h : p.check = .ok ()) :
    p.shapes ≠ [] ∧ p.names.length = p.shapes.length ∧
      (∀ shape ∈ p.shapes, shape ≠ [] ∧ 0 ∉ shape) ∧ p.dtype.isFloat = true := by
  rw [check] at h
  split at h
  · cases h
  · rename_i hfault
    rw [fault?] at hfault
    split at hfault
    · cases hfault
    · rename_i hshapes
      split at hfault
      · cases hfault
      · rename_i hlength
        rw [ne_eq, not_not] at hlength
        split at hfault
        · cases hfault
        · rename_i hnone
          split at hfault
          · rename_i hfloat
            refine ⟨by simpa using hshapes, hlength, ?_, hfloat⟩
            intro shape hshape
            rw [← List.map_snd_zip (Nat.le_of_eq hlength.symm)] at hshape
            obtain ⟨pair, hpair, rfl⟩ := List.mem_map.mp hshape
            simpa using List.find?_eq_none.mp hnone pair hpair
          · cases hfault

theorem CaseParams.checkAgainst_eq_ok {p : CaseParams} {m : Model} (h : p.checkAgainst m = .ok ()) :
    p.names.length = m.inputs.length ∧
      ∀ q ∈ p.shapes.zip m.inputs, Model.fits q.2.shape q.1 = true := by
  rw [checkAgainst] at h
  split at h
  · cases h
  · rename_i hlength
    split at h
    · cases h
    · rename_i hnone
      refine ⟨by simpa using hlength, fun q hq => ?_⟩
      simpa using List.find?_eq_none.mp hnone q hq

theorem fillInputs_cons_eq_ok {spec : InputSpec} {rest : List InputSpec} {s : Random.Stream}
    {inputs : List Tensor} (h : fillInputs (spec :: rest) s = .ok inputs) : ∃ t ts,
      Tensor.ofValues (drawValues (Shape.volume spec.shape) s).1.toArray spec.shape spec.dtype = .ok t ∧
      fillInputs rest (drawValues (Shape.volume spec.shape) s).2 = .ok ts ∧ inputs = t :: ts := by
  simp only [fillInputs] at h
  split at h
  · cases h
  · rename_i t ht
    split at h
    · rename_i ts hts
      cases h
      exact ⟨t, ts, ht, hts, rfl⟩
    · cases h

theorem fillInputs_eq_ok {specs : List InputSpec} {s : Random.Stream} {inputs : List Tensor}
    (h : fillInputs specs s = .ok inputs) :
    List.Forall₂ (fun spec t => t.shape = spec.shape ∧ t.dtype = spec.dtype) specs inputs := by
  induction specs generalizing s inputs with
  | nil =>
    cases h
    exact .nil
  | cons spec rest ih =>
    obtain ⟨t, ts, ht, hts, rfl⟩ := fillInputs_cons_eq_ok h
    refine .cons ?_ (ih hts)
    rw [Tensor.ofValues] at ht
    split at ht
    · cases ht
      exact ⟨rfl, rfl⟩
    · cases ht

theorem CaseParams.Zipped.dtype_eq {p : CaseParams} (hzipped : p.Zipped) {spec : InputSpec}
    (h : spec ∈ p.specs) : spec.dtype = p.dtype := by
  rw [hzipped, ← List.map_uncurry_zip_eq_zipWith] at h
  obtain ⟨pair, -, rfl⟩ := List.mem_map.mp h
  rfl

private theorem CaseParams.Zipped.shapes_eq {p : CaseParams} (hzipped : p.Zipped)
    (h : p.names.length = p.shapes.length) : p.specs.map (·.shape) = p.shapes := by
  rw [hzipped, ← List.map_uncurry_zip_eq_zipWith, List.map_map]
  exact List.map_snd_zip (Nat.le_of_eq h.symm)

theorem generateInputs_shapes {p : CaseParams} {seed : UInt64} {inputs : List Tensor}
    (hzipped : p.Zipped) (hcheck : p.check = .ok ())
    (h : generateInputs p.specs seed = .ok inputs) : inputs.map Tensor.shape = p.shapes := by
  obtain ⟨_, hlength, _⟩ := CaseParams.check_eq_ok hcheck
  rw [← hzipped.shapes_eq hlength]
  have hfilled := fillInputs_eq_ok h
  clear h
  generalize p.specs = specs at hfilled
  induction hfilled with
  | nil => rfl
  | cons hfirst _ ih => rw [List.map_cons, List.map_cons, hfirst.1, ih]

namespace Harness
variable {h : Harness} {build : Builder} {p : CaseParams}

theorem construct_eq_ok {built : BuiltModel} (hbuilt : construct build p = .ok built) :
    p.check = .ok () ∧ build .empty p = .ok built ∧ p.checkAgainst built.model = .ok () := by
  rw [construct] at hbuilt
  split at hbuilt
  · cases hbuilt
  · rename_i hcheck
    split at hbuilt
    · cases hbuilt
    · rename_i b hb
      split at hbuilt
      · cases hbuilt
      · rename_i hagainst
        cases hbuilt
        exact ⟨hcheck, hb, hagainst⟩

theorem convert_eq_ok {version : Version} {m : Model} {folder folder' : Folder}
    {converted : Converted} (hconvert : h.convert version p m folder = (.ok converted, folder')) :
    ∃ written, h.converter.convert m ⟨version, some p.shapes⟩ folder = (.ok written, folder') ∧
      Converted.load folder' written.file = .ok converted := by
  rw [convert] at hconvert
  split at hconvert
  · cases hconvert
  · rename_i written f hwritten
    split at hconvert
    · cases hconvert
    · rename_i c hc
      cases hconvert
      exact ⟨written, hwritten, hc⟩

theorem runNative_eq_ok {m : Model} {inputs expected : List Tensor}
    (hnative : h.runNative p m = .ok (inputs, expected)) :
    generateInputs p.specs h.config.seed = .ok inputs ∧ m.predict inputs = .ok expected := by
  rw [runNative] at hnative
  split at hnative
  · cases hnative
  · rename_i ts hts
    split at hnative
    · cases hnative
    · rename_i outputs houtputs
      cases hnative
      exact ⟨hts, houtputs⟩

theorem compare_eq_ok {built : BuiltModel} {provider : Provider} {g : Graph}
    {inputs expected : List Tensor} {agreement : Agreement}
    (hcompare : h.compare built provider g inputs expected = .ok agreement) :
    ∃ actual, provider.execute g inputs = .ok actual ∧
      compareOutputs h.config.effectiveTolerance (built.model.outputs.map (·.name)) expected
        actual = .ok agreement ∧
      ∀ reference, built.reference = some reference → reference.check g = .ok () := by
  rw [compare] at hcompare
  split at hcompare
  · cases hcompare
  · rename_i actual hactual
    split at hcompare
    · cases hcompare
    · rename_i a ha
      split at hcompare
      · rename_i hnone
        cases hcompare
        exact ⟨actual, hactual, ha, by simp [hnone]⟩
      · rename_i reference hreference
        split at hcompare
        · cases hcompare
        · rename_i hcheck
          cases hcompare
          refine ⟨actual, hactual, ha, ?_⟩
          intro other hother
          rw [hreference, Option.some.injEq] at hother
          rw [← hother, hcheck]

theorem judge_eq_ok {version : Version} {built : BuiltModel} {converted : Converted}
    {registry registry' : Registry} {r : Report}
    (hjudge : h.judge version p built converted registry = (.ok r, registry')) :
    ∃ inputs expected provider agreement, h.runNative p built.model = .ok (inputs, expected) ∧
      h.chooseProvider registry = (.ok provider, registry') ∧
      h.compare built provider converted.graph inputs expected = .ok agreement ∧
      r = h.report version p built converted.file provider agreement := by
  rw [judge] at hjudge
  split at hjudge
  · cases hjudge
  · rename_i inputs expected hnative
    split at hjudge
    · cases hjudge
    · rename_i provider _ hprovider
      split at hjudge
      · cases hjudge
      · rename_i agreement hagreement
        cases hjudge
        exact ⟨inputs, expected, provider, agreement, hnative, hprovider, hagreement, rfl⟩

theorem tidy_eq_ok {r r' : Report} {folder folder' : Folder}
    (htidy : h.tidy r folder = (.ok r', folder')) : r' = r := by
  rw [tidy] at htidy
  split at htidy
  · cases htidy
    rfl
  · split at htidy
    · cases htidy
      rfl
    · cases htidy

private theorem tidy_total {r : Report} {folder : Folder} {content : Text.Symbols}
    (hread : folder.read r.file = .ok content) : ∃ folder', h.tidy r folder = (.ok r, folder') := by
  rw [tidy]
  split
  · exact ⟨folder, rfl⟩
  · refine ⟨folder.erase r.file, ?_⟩
    rw [Folder.remove, hread]

theorem run_eq_ok {s s' : Surroundings} {r : Report} (hrun : h.run build p s = (.ok r, s')) :
    ∃ built version converted folder, construct build p = .ok built ∧ h.version = .ok version ∧
      h.convert version p built.model s.folder = (.ok converted, folder) ∧
      h.judge version p built converted s.registry = (.ok r, s'.registry) := by
  rw [run] at hrun
  split at hrun
  · cases hrun
  · rename_i built hbuilt
    split at hrun
    · cases hrun
    · rename_i version hversion
      split at hrun
      · cases hrun
      · rename_i converted folder hconverted
        split at hrun
        · cases hrun
        · rename_i r' registry hjudge
          rcases htidy : h.tidy r' folder with ⟨result, last⟩
          simp only [htidy] at hrun
          cases hrun
          obtain rfl := tidy_eq_ok htidy
          exact ⟨built, version, converted, folder, hbuilt, hversion, hconverted, hjudge⟩

theorem run_of_stages {s : Surroundings} {built : BuiltModel} {version : Version}
    {converted : Converted} {folder : Folder} {registry : Registry} {r : Report}
    {content : Text.Symbols} (hbuilt : construct build p = .ok built)
    (hversion : h.version = .ok version)
    (hconverted : h.convert version p built.model s.folder = (.ok converted, folder))
    (hjudge : h.judge version p built converted s.registry = (.ok r, registry))
    (hread : folder.read r.file = .ok content) : ∃ s', h.run build p s = (.ok r, s') := by
  obtain ⟨folder', htidy⟩ := tidy_total (h := h) hread
  refine ⟨⟨registry, folder'⟩, ?_⟩
  simp only [run, hbuilt, hversion, hconverted, hjudge, htidy]

end Harness
end LoweringCheck
