import LoweringCheck.Conversion.Converter
import LoweringCheck.Equivalence.Error
import LoweringCheck.Equivalence.Inputs
import LoweringCheck.Model.Predict
import LoweringCheck.Provider.Registry
/-!
# Equivalence checks

A case builds a model, converts it, runs the model and the converted graph on the same inputs, and
compares what they put out. What is run is the graph that was read back from the artifact.
-/
namespace LoweringCheck

/-- A model with the structure that its graph is expected to have. -/
structure BuiltModel where
  model : Model
  reference : Option Reference := none

/-- What builds the model of a case in a fresh session. -/
abbrev Builder := Session → CaseParams → Except ModelError BuiltModel

structure Harness where
  config : Config
  converter : Converter := .lowering .standard
  /-- `none` takes the provider from the registry -/
  provider : Option Provider := none

/-- What cases share and leave behind. -/
structure Surroundings where
  registry : Registry
  folder : Folder

/-- What a case without failure reports. -/
structure Report where
  label : String
  device : Device
  precision : Precision
  version : Version
  file : String
  stage : Stage
  agreement : Agreement
  tolerance : Tolerance
  structureChecked : Bool

namespace Harness

def description (h : Harness) : String :=
  Text.record "EquivalenceHarness"
    [("config", h.config.description), ("converter", Text.quoted h.converter.name)]

/-- Builds the model of a case. -/
def construct (build : Builder) (p : CaseParams) : Except EquivalenceError BuiltModel :=
  match p.check with
  | .error fault => .error (.params fault)
  | .ok () =>
    match build .empty p with
    | .error e => .error (.construction e)
    | .ok built =>
      match p.checkAgainst built.model with
      | .error fault => .error (.params fault)
      | .ok () => .ok built

/-- The format version that is asked for. -/
def version (h : Harness) : Except EquivalenceError Version :=
  match Version.ofNat h.config.version with
  | .ok version => .ok version
  | .error e => .error (.conversion (.artifact (.version e)))

/-- Converts a model and reads the artifact back. -/
def convert (h : Harness) (version : Version) (p : CaseParams) (m : Model) (folder : Folder) :
    Except EquivalenceError Converted × Folder :=
  match h.converter.convert m ⟨version, some p.shapes⟩ folder with
  | (.error e, folder) => (.error (.conversion e), folder)
  | (.ok written, folder) =>
    match Converted.load folder written.file with
    | .error e => (.error (.conversion (.artifact e)), folder)
    | .ok converted => (.ok converted, folder)

/-- Generates the inputs of a case and runs the model on them. -/
def runNative (h : Harness) (p : CaseParams) (m : Model) :
    Except EquivalenceError (List Tensor × List Tensor) :=
  match generateInputs p.specs h.config.seed with
  | .error fault => .error (.inputs fault)
  | .ok inputs =>
    match m.predict inputs with
    | .error e => .error (.nativeExecution e)
    | .ok outputs => .ok (inputs, outputs)

def chooseProvider (h : Harness) (registry : Registry) :
    Except EquivalenceError Provider × Registry :=
  match h.provider with
  | some p => (.ok p, registry)
  | none =>
    match registry.getOrCreate ⟨h.config.device, h.config.precision⟩ with
    | (.ok i, registry) => (.ok i.provider, registry)
    | (.error e, registry) => (.error (.unavailable h.config.device e), registry)

/-- Runs a graph and compares its outputs and its structure with those of the model. -/
def compare (h : Harness) (built : BuiltModel) (provider : Provider) (g : Graph)
    (inputs expected : List Tensor) : Except EquivalenceError Agreement :=
  match provider.execute g inputs with
  | .error fault => .error (.convertedExecution fault)
  | .ok actual =>
    match compareOutputs h.config.effectiveTolerance (built.model.outputs.map (·.name)) expected
        actual with
    | .error fault => .error (.comparison fault)
    | .ok agreement =>
      match built.reference with
      | none => .ok agreement
      | some reference =>
        match reference.check g with
        | .error fault => .error (.structural fault)
        | .ok () => .ok agreement

def report (h : Harness) (version : Version) (p : CaseParams) (built : BuiltModel)
    (file : String) (provider : Provider) (agreement : Agreement) : Report where
  label := p.label
  device := provider.device
  precision := provider.precision
  version := version
  file := file
  stage := .compared
  agreement := agreement
  tolerance := h.config.effectiveTolerance
  structureChecked := built.reference.isSome

/-- Judges a converted model. -/
def judge (h : Harness) (version : Version) (p : CaseParams) (built : BuiltModel)
    (converted : Converted) (registry : Registry) : Except EquivalenceError Report × Registry :=
  match h.runNative p built.model with
  | .error e => (.error e, registry)
  | .ok (inputs, expected) =>
    match h.chooseProvider registry with
    | (.error e, registry) => (.error e, registry)
    | (.ok provider, registry) =>
      match h.compare built provider converted.graph inputs expected with
      | .error e => (.error e, registry)
      | .ok agreement =>
        (.ok (h.report version p built converted.file provider agreement), registry)

/-- Removes the artifact of a case that has passed, unless artifacts are kept. -/
def tidy (h : Harness) (r : Report) (folder : Folder) : Except EquivalenceError Report × Folder :=
  if h.config.keepArtifacts then (.ok r, folder)
  else
    match folder.remove r.file with
    | (.ok (), folder) => (.ok r, folder)
    | (.error e, folder) => (.error (.file e), folder)

/-- Runs one case. -/
def run (h : Harness) (build : Builder) (p : CaseParams) (s : Surroundings) :
    Except EquivalenceError Report × Surroundings :=
  match construct build p with
  | .error e => (.error e, s)
  | .ok built =>
    match h.version with
    | .error e => (.error e, s)
    | .ok version =>
      match h.convert version p built.model s.folder with
      | (.error e, folder) => (.error e, { s with folder := folder })
      | (.ok converted, folder) =>
        match h.judge version p built converted s.registry with
        | (.error e, registry) => (.error e, ⟨registry, folder⟩)
        | (.ok r, registry) =>
          let (result, folder) := h.tidy r folder
          (result, ⟨registry, folder⟩)

end Harness
end LoweringCheck
