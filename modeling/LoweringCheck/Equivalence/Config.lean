import LoweringCheck.Artifact.Version
import LoweringCheck.Comparison.Tolerance
import LoweringCheck.Decimal.Layout
import LoweringCheck.Graph.Codec
import LoweringCheck.Json.Writer
import LoweringCheck.Selection
/-!
# Configurations

The settings of equivalence checks. They are read from named settings, where those that are absent keep
their defaults, or from JSON.
-/
namespace LoweringCheck

structure Config where
  device : Device := .cpu
  precision : Precision := .fp32
  /-- the number of the format version; whether it is supported is seen on conversion -/
  version : Nat := Version.latest.number
  seed : UInt64 := 0
  /-- `none` takes the tolerance of the precision -/
  tolerance : Option Tolerance := none
  keepArtifacts : Bool := true
deriving DecidableEq

/-- What is wrong with the text of a setting. -/
inductive SettingFault where
  | selection (e : SelectionError)
  | notNumber (text : String)
deriving DecidableEq, Repr

def SettingFault.message : SettingFault → String
  | selection e => e.message
  | notNumber text => s!"'{text}' is not a number"

structure ConfigError where
  setting : String
  fault : SettingFault
deriving DecidableEq, Repr

def ConfigError.message (e : ConfigError) : String := e.setting ++ ": " ++ e.fault.message

namespace Config

def default : Config := {}

def effectiveTolerance (c : Config) : Tolerance := c.tolerance.getD (.ofPrecision c.precision)

/-- Reads one setting. -/
def setting {α : Type} (lookup : String → Option String) (name : String) (default : α)
    (read : String → Except SettingFault α) : Except ConfigError α :=
  match lookup name with
  | none => .ok default
  | some text =>
    match read text with
    | .ok x => .ok x
    | .error fault => .error ⟨name, fault⟩

def selecting {α : Type} (select : String → Except SelectionError α) (text : String) :
    Except SettingFault α :=
  match select text with
  | .ok x => .ok x
  | .error e => .error (.selection e)

/-- A number between blanks. -/
def number (limit : Nat) (text : String) : Except SettingFault Nat :=
  match Text.natural? limit (Text.trim text).toList with
  | some n => .ok n
  | none => .error (.notNumber text)

/-- The configuration that named settings give. The first one that is malformed is reported. -/
def ofLookup (lookup : String → Option String) : Except ConfigError Config :=
  match setting lookup "CONVCHECK_DEVICE" default.device (selecting Device.select) with
  | .error e => .error e
  | .ok device =>
    match setting lookup "CONVCHECK_PRECISION" default.precision (selecting Precision.select) with
    | .error e => .error e
    | .ok precision =>
      match setting lookup "CONVCHECK_IR_VERSION" default.version (number Version.limit) with
      | .error e => .error e
      | .ok version =>
        match setting lookup "CONVCHECK_SEED" default.seed.toNat (number naturalLimit) with
        | .error e => .error e
        | .ok seed =>
          .ok { default with
            device := device
            precision := precision
            version := version
            seed := UInt64.ofNat seed }

end Config

/-! ## JSON -/

def Device.read : Json.Reader Device :=
  Json.Reader.choice (Device.all.map fun d => (d.name, d))

def Precision.read : Json.Reader Precision :=
  Json.Reader.choice (Precision.all.map fun p => (p.name, p))

namespace Tolerance

private structure Draft where
  absolute : Option Single := none
  relative : Option Single := none

open Json.Reader in
def read : Json.Reader Tolerance :=
  (record (σ := Draft)
    [part "atol" (·.absolute) (fun d x => { d with absolute := some x }) (real .single),
     part "rtol" (·.relative) (fun d x => { d with relative := some x }) (real .single)]
    false {}).filterMap fun d => do return ⟨← d.absolute, ← d.relative⟩

def toJson (t : Tolerance) : Json :=
  .object [("atol", .number (.real .single t.absolute)),
    ("rtol", .number (.real .single t.relative))]

end Tolerance

namespace Config

private structure Draft where
  device : Option Device := none
  precision : Option Precision := none
  version : Option Nat := none
  seed : Option Nat := none
  tolerance : Option (Option Tolerance) := none
  keepArtifacts : Option Bool := none

open Json.Reader in
/-- Parts that are absent keep their defaults. -/
def read : Json.Reader Config :=
  (record (σ := Draft)
    [part "device" (·.device) (fun d x => { d with device := some x }) Device.read,
     part "precision" (·.precision) (fun d x => { d with precision := some x }) Precision.read,
     part "ir_version" (·.version) (fun d x => { d with version := some x })
       (natural Version.limit),
     part "seed" (·.seed) (fun d x => { d with seed := some x }) size,
     part "tolerance" (·.tolerance) (fun d x => { d with tolerance := some x })
       (optional Tolerance.read),
     part "keep_artifacts" (·.keepArtifacts) (fun d x => { d with keepArtifacts := some x }) truth]
    true {}).map fun d =>
      { device := d.device.getD default.device
        precision := d.precision.getD default.precision
        version := d.version.getD default.version
        seed := (d.seed.map UInt64.ofNat).getD default.seed
        tolerance := d.tolerance.getD default.tolerance
        keepArtifacts := d.keepArtifacts.getD default.keepArtifacts }

def toJson (c : Config) : Json :=
  .object [("device", .text c.device.name), ("precision", .text c.precision.name),
    ("ir_version", .natural c.version), ("seed", .natural c.seed.toNat),
    ("tolerance", match c.tolerance with | some t => t.toJson | none => .null),
    ("keep_artifacts", .truth c.keepArtifacts)]

end Config

/-! ## Descriptions -/

def Tolerance.description (t : Tolerance) : String :=
  let write (x : Single) : String := String.ofList (Decimal.Layout.description.render x)
  Text.record "Tolerance" [("atol", write t.absolute), ("rtol", write t.relative)]

def Config.description (c : Config) : String :=
  Text.record "HarnessConfig"
    [("device", c.device.tag), ("precision", c.precision.name), ("ir_version", toString c.version),
      ("seed", toString c.seed.toNat),
      ("tolerance", Text.optional Tolerance.description c.tolerance),
      ("keep_artifacts", Text.truth c.keepArtifacts)]

end LoweringCheck
