import LoweringCheck.Target
import LoweringCheck.Text.Blank
/-!
# Selecting by name

Element types, devices and precisions chosen by their names in any ASCII letter case. Devices and
precisions may stand between blanks.
-/
namespace LoweringCheck

inductive SelectionError where
  | unknownDType (text : String)
  | unknownDevice (text : String)
  | unknownPrecision (text : String)
deriving DecidableEq, Repr

namespace SelectionError

/-- The name of the kind of an error. -/
def kind : SelectionError → String
  | unknownDType _ => "unknown_data_type"
  | unknownDevice _ | unknownPrecision _ => "invalid_argument"

def message : SelectionError → String
  | unknownDType text => s!"Unknown data type: {text}"
  | unknownDevice text => s!"Invalid argument: unknown device '{text}', expected CPU or GPU"
  | unknownPrecision text =>
    s!"Invalid argument: unknown precision '{text}', expected FP32 or FP16"

end SelectionError

def DType.select (text : String) : Except SelectionError DType :=
  match DType.all.find? (fun t => t.spellings.contains (Text.lower text)) with
  | some t => .ok t
  | none => .error (.unknownDType text)

def Device.select (text : String) : Except SelectionError Device :=
  let name := Text.upper (Text.trim text)
  match Device.all.find? (fun d => d.name == name) with
  | some d => .ok d
  | none => .error (.unknownDevice name)

def Precision.select (text : String) : Except SelectionError Precision :=
  let name := Text.upper (Text.trim text)
  match Precision.all.find? (fun p => p.name == name) with
  | some p => .ok p
  | none => .error (.unknownPrecision name)

end LoweringCheck
