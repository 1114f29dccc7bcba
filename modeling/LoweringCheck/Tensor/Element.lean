import LoweringCheck.Binary.Convert
import LoweringCheck.DType
/-!
# Tensor elements

The elements of each element type and the casts between them. A cast reads an element as a real or an
integer and stores that in the other type.
-/
namespace LoweringCheck

abbrev DType.Element : DType → Type
  | .f32 => Single
  | .f16 => Binary .half
  | .bf16 => Binary .brain
  | .f64 => Binary .double
  | .u8 => UInt8
  | .u32 => UInt32
  | .i64 => Int64

/-- What an element denotes. -/
inductive Scalar where
  | real (f : Binary.Format) (x : Binary f)
  | whole (i : Int)

namespace Scalar

def ofElement : (t : DType) → t.Element → Scalar
  | .f32, x => .real .single x
  | .f16, x => .real .half x
  | .bf16, x => .real .brain x
  | .f64, x => .real .double x
  | .u8, (n : UInt8) => .whole n.toNat
  | .u32, (n : UInt32) => .whole n.toNat
  | .i64, (i : Int64) => .whole i.toInt

def round (g : Binary.Format) : Scalar → Binary g
  | .real _ x => x.convert g
  | .whole i => .ofInt g i

/-- Rounded to single precision first. -/
def roundTwice (g : Binary.Format) (s : Scalar) : Binary g :=
  (s.round .single).convert g

/-- A real is cut toward zero and clamped; an integer keeps its value, to be wrapped by the caller. -/
def toIntWithin (low high : Int) : Scalar → Int
  | .real _ x => x.toIntWithin low high
  | .whole i => i

/-- A double loses its lowest 32 bits before it becomes a brain float. -/
def toBrain : Scalar → Binary .brain
  | .real f x => if f = .double then (x.clearLow 32).convert .brain else x.convert .brain
  | .whole i => (Scalar.whole i).roundTwice .brain

def toElement (s : Scalar) : (t : DType) → t.Element
  | .f32 => s.round .single
  | .f16 => s.roundTwice .half
  | .bf16 => s.toBrain
  | .f64 => s.round .double
  | .u8 => UInt8.ofInt (s.toIntWithin 0 255)
  | .u32 => UInt32.ofInt (s.toIntWithin 0 4294967295)
  | .i64 => Int64.ofInt (s.toIntWithin (-9223372036854775808) 9223372036854775807)

end Scalar

def DType.cast (source target : DType) (x : source.Element) : target.Element :=
  (Scalar.ofElement source x).toElement target

end LoweringCheck
