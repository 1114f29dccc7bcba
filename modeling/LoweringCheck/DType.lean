/-!
# Element types

The element types of tensors with their names: the long one of messages, the code of files, and the tag
of descriptions.
-/
namespace LoweringCheck

inductive DType where
  | f32
  | f16
  | bf16
  | f64
  | u8
  | u32
  | i64
deriving DecidableEq, Repr

namespace DType

def all : List DType := [f32, f16, bf16, f64, u8, u32, i64]

def bytes : DType → Nat
  | u8 => 1
  | f16 | bf16 => 2
  | f32 | u32 => 4
  | f64 | i64 => 8

def isFloat : DType → Bool
  | f32 | f16 | bf16 | f64 => true
  | u8 | u32 | i64 => false

def name : DType → String
  | f32 => "float32"
  | f16 => "float16"
  | bf16 => "bfloat16"
  | f64 => "float64"
  | u8 => "uint8"
  | u32 => "uint32"
  | i64 => "int64"

def code : DType → String
  | f32 => "f32"
  | f16 => "f16"
  | bf16 => "bf16"
  | f64 => "f64"
  | u8 => "u8"
  | u32 => "u32"
  | i64 => "i64"

def tag : DType → String
  | f32 => "F32"
  | f16 => "F16"
  | bf16 => "BF16"
  | f64 => "F64"
  | u8 => "U8"
  | u32 => "U32"
  | i64 => "I64"

/-- Every spelling that selects the type, in lower case. -/
def spellings : DType → List String
  | f32 => ["float32", "f32", "fp32"]
  | f16 => ["float16", "f16", "fp16", "half"]
  | bf16 => ["bfloat16", "bf16"]
  | f64 => ["float64", "f64", "double"]
  | u8 => ["uint8", "u8"]
  | u32 => ["uint32", "u32"]
  | i64 => ["int64", "i64"]

end DType
end LoweringCheck
