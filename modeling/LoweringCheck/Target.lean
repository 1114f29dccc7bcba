import LoweringCheck.DType
/-!
# Execution targets

Where a graph runs and at which precision.
-/
namespace LoweringCheck

inductive Device where
  | cpu
  | gpu
deriving DecidableEq, Repr

namespace Device

def all : List Device := [cpu, gpu]

def name : Device → String
  | cpu => "CPU"
  | gpu => "GPU"

def tag : Device → String
  | cpu => "Cpu"
  | gpu => "Gpu"

end Device

inductive Precision where
  | fp32
  | fp16
deriving DecidableEq, Repr

namespace Precision

def all : List Precision := [fp32, fp16]

def name : Precision → String
  | fp32 => "FP32"
  | fp16 => "FP16"

/-- The element type that values are cast to while a graph runs. -/
def dtype : Precision → DType
  | fp32 => .f32
  | fp16 => .f16

end Precision
end LoweringCheck
