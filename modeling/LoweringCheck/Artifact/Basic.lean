import LoweringCheck.Artifact.Version
import LoweringCheck.Folder
import LoweringCheck.Graph.Codec
import LoweringCheck.Graph.Validate
import LoweringCheck.Json.Lexer
import LoweringCheck.Json.Writer
/-!
# Artifacts

An artifact is a graph with a format version and the name of its producer. It is kept in a file as
indented JSON. Reading checks the version before the graph.
-/
namespace LoweringCheck

structure Artifact where
  version : Version
  producer : String
  graph : Graph
deriving DecidableEq

inductive ArtifactError where
  | version (e : VersionError)
  | unreadable (problem : Json.Problem)
  | invalidGraph (fault : Graph.Fault)
  | file (e : FileError)
deriving DecidableEq, Repr

namespace ArtifactError

/-- The name of the kind of an error. -/
def kind : ArtifactError → String
  | version e => e.kind
  | unreadable _ => "serialization"
  | invalidGraph _ => "invalid_graph"
  | file _ => "io"

def message : ArtifactError → String
  | version e => e.message
  | unreadable _ => "Serialization error"
  | invalidGraph fault => "Invalid graph: " ++ fault.message
  | file e => "IO error: " ++ e.message

end ArtifactError

namespace Artifact

def toJson (a : Artifact) : Json :=
  .object [("ir_version", .natural a.version.number), ("producer", .text a.producer),
    ("graph", a.graph.toJson)]

/-- The content of an artifact's file. -/
def content (a : Artifact) : Text.Symbols := Text.symbols a.toJson.renderIndented

/-- An artifact whose version and graph are still to be checked. -/
structure Unchecked where
  number : Nat
  producer : String
  graph : Graph

private structure Draft where
  number : Option Nat := none
  producer : Option String := none
  graph : Option Graph := none

open Json.Reader in
def Unchecked.read : Json.Reader Unchecked :=
  (record (σ := Draft)
    [part "ir_version" (·.number) (fun d x => { d with number := some x }) (natural Version.limit),
     part "producer" (·.producer) (fun d x => { d with producer := some x }) text,
     part "graph" (·.graph) (fun d x => { d with graph := some x }) Graph.read]
    false {}).filterMap fun d => do return ⟨← d.number, ← d.producer, ← d.graph⟩

def Unchecked.check (a : Unchecked) : Except ArtifactError Artifact :=
  match Version.ofNat a.number with
  | .error e => .error (.version e)
  | .ok version =>
    match a.graph.validate with
    | .error fault => .error (.invalidGraph fault)
    | .ok () => .ok ⟨version, a.producer, a.graph⟩

def parse (content : Text.Symbols) : Except ArtifactError Artifact :=
  match Unchecked.read.run (Json.tokenize content) with
  | .error problem => .error (.unreadable problem)
  | .ok a => a.check

/-- The file of the artifact of a model. Characters that separate paths become underscores. -/
def fileName (model : String) : String :=
  String.ofList (model.toList.map fun c => if c = '/' ∨ c = '\\' ∨ c = ':' then '_' else c) ++
    ".ir.json"

/-- Writes an artifact into a folder and answers the name of its file. -/
def write (a : Artifact) (folder : Folder) (model : String) :
    Except ArtifactError String × Folder :=
  match folder.write (fileName model) a.content with
  | (.ok (), folder) => (.ok (fileName model), folder)
  | (.error e, folder) => (.error (.file e), folder)

def read (folder : Folder) (file : String) : Except ArtifactError Artifact :=
  match folder.read file with
  | .error e => .error (.file e)
  | .ok content => parse content

end Artifact
end LoweringCheck
