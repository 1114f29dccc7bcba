import LoweringCheck.Conversion.Lowering
/-!
# Converters

A converter writes the artifact of a model into a folder.
-/
namespace LoweringCheck

/-- A converted model and the file that holds it. -/
structure Converted where
  graph : Graph
  version : Version
  file : String
deriving DecidableEq

def Converted.load (folder : Folder) (file : String) : Except ArtifactError Converted :=
  match Artifact.read folder file with
  | .ok a => .ok ⟨a.graph, a.version, file⟩
  | .error e => .error e

structure Converter where
  name : String
  convert : Model → ConversionOptions → Folder → Except ConversionError Converted × Folder

namespace Converter

def convertBy (ops : OperatorSet) (m : Model) (options : ConversionOptions) (folder : Folder) :
    Except ConversionError Converted × Folder :=
  match m.lower ops options with
  | .error e => (.error e, folder)
  | .ok g =>
    match Artifact.write ⟨options.version, producerName, g⟩ folder m.name with
    | (.ok file, folder) => (.ok ⟨g, options.version, file⟩, folder)
    | (.error e, folder) => (.error (.artifact e), folder)

/-- The converter that lowers models to the given operators. -/
def lowering (ops : OperatorSet) : Converter := ⟨producerName, convertBy ops⟩

end Converter
end LoweringCheck
