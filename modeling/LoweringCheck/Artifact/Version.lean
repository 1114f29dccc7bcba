import LoweringCheck.Json.Reader
import LoweringCheck.Text.Blank
import LoweringCheck.Text.Integer
import LoweringCheck.Text.Quoted
/-!
# Format versions

The versions of the artifact format that can be written and read.
-/
namespace LoweringCheck

/-- The versions in ascending order. -/
def supportedVersions : List Nat := [10, 11]

structure Version where
  number : Nat
  supported : number ∈ supportedVersions
deriving DecidableEq

inductive VersionError where
  | unsupported (number : Nat)
  | notNumber (text : String)
deriving DecidableEq, Repr

namespace VersionError

/-- The name of the kind of an error. -/
def kind : VersionError → String
  | unsupported _ => "unsupported_ir_version"
  | notNumber _ => "invalid_attribute"

def message : VersionError → String
  | unsupported number =>
    let known := Text.naturals supportedVersions
    s!"Unsupported IR version {number} (supported: {known})"
  | notNumber text => s!"Invalid attribute 'ir_version': '{text}' is not a version number"

end VersionError

namespace Version

def latest : Version := ⟨11, by decide⟩

/-- The largest number that may be asked for. -/
def limit : Nat := 4294967295

def ofNat (number : Nat) : Except VersionError Version :=
  if h : number ∈ supportedVersions then .ok ⟨number, h⟩ else .error (.unsupported number)

/-- A version from its number between blanks. -/
def parse (text : String) : Except VersionError Version :=
  match Text.natural? limit (Text.trim text).toList with
  | some number => ofNat number
  | none => .error (.notNumber text)

def read : Json.Reader Version :=
  (Json.Reader.natural limit).filterMap fun number => (ofNat number).toOption

end Version
end LoweringCheck
