import LoweringCheck.Tensor.Basic
/-!
# Casts that keep values

A cast to the type that an element has already keeps it, and what is read out in single precision does
not change by a cast to single precision.
-/
namespace LoweringCheck

@[simp] theorem Binary.convert_self {f : Binary.Format} (x : Binary f) : x.convert f = x :=
  dif_pos rfl

theorem DType.cast_f32_f32 (x : Single) : DType.cast .f32 .f32 x = x := Binary.convert_self x

theorem Tensor.values_toDType_f32 (t : Tensor) : (t.toDType .f32).values = t.values := by
  unfold toDType
  split
  · rfl
  · have hcast : DType.cast .f32 .f32 ∘ t.dtype.cast .f32 = t.dtype.cast .f32 :=
      funext fun _ => DType.cast_f32_f32 _
    simp only [values, Grid.map, Array.map_map, hcast]

end LoweringCheck
