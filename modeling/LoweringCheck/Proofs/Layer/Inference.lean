import Mathlib.Algebra.Ring.Nat
import LoweringCheck.Layer.Spec
/-!
# Inferred shapes

Shape inference keeps the number of axes and leaves something of every axis. No axis grows, so what
64-bit indices can address stays addressable.
-/
namespace LoweringCheck

/-- Axes and indices of the shape are 63-bit numbers. -/
def Shape.Addressable (shape : List Nat) : Prop :=
  shape.length < 2 ^ 63 ∧ ∀ extent ∈ shape, extent < 2 ^ 63

theorem Shape.Addressable.tail {extent : Nat} {shape : List Nat} (h : Addressable (extent :: shape)) :
    Addressable shape :=
  ⟨Nat.lt_of_succ_lt h.1, fun e he => h.2 e (List.mem_cons_of_mem _ he)⟩

namespace LayerSpec

/-- A cut leaves something of its axis. The extent is read off the shape cropped so far. -/
theorem cropShape_cons_ok_iff {layer : String} {axis place : Nat} {margin : Margin}
    {rest : List (Nat × Margin)} {shape result : List Nat} :
    cropShape layer axis ((place, margin) :: rest) shape = .ok result ↔
      margin.before + margin.after < shape.getD place 0 ∧
        cropShape layer (axis + 1) rest
          (shape.set place (shape.getD place 0 - margin.before - margin.after)) = .ok result := by
  rw [cropShape]
  by_cases hleft : margin.before + margin.after < shape.getD place 0
  · have hexhausts : ¬ margin.exhausts (shape.getD place 0) = true := by
      simpa [Margin.exhausts] using hleft
    simp only [if_neg hexhausts, hleft, true_and]
  · have hexhausts : margin.exhausts (shape.getD place 0) = true := by
      simpa [Margin.exhausts] using hleft
    simp only [if_pos hexhausts, hleft, false_and, reduceCtorEq]

/-- What every cut preserves holds of an inferred shape. -/
theorem outputShape_induction {P : List Nat → Prop} {spec : LayerSpec} {layer : String}
    {shape result : List Nat}
    (hcut : ∀ (shape : List Nat) (place : Nat) (margin : Margin),
      margin.before + margin.after < shape.getD place 0 → P shape →
        P (shape.set place (shape.getD place 0 - margin.before - margin.after)))
    (h : spec.outputShape layer shape = .ok result) (hshape : P shape) : P result := by
  have hcuts : ∀ (cuts : List (Nat × Margin)) (axis : Nat) (shape : List Nat),
      cropShape layer axis cuts shape = .ok result → P shape → P result := by
    intro cuts
    induction cuts with
    | nil =>
      rintro _ shape ⟨⟩ hshape
      exact hshape
    | cons cut rest ih =>
      intro axis shape h hshape
      obtain ⟨hleft, h⟩ := cropShape_cons_ok_iff.mp h
      exact ih _ _ h (hcut shape cut.1 cut.2 hleft hshape)
  cases spec with
  | cropping margins format =>
    simp only [outputShape] at h
    split at h
    · exact hcuts _ _ _ h hshape
    · cases h
  | lambda function =>
    cases h
    exact hshape

theorem outputShape_positive {spec : LayerSpec} {layer : String} {shape result : List Nat}
    (h : spec.outputShape layer shape = .ok result) (hpos : 0 ∉ shape) : 0 ∉ result := by
  refine outputShape_induction (P := fun shape => 0 ∉ shape) ?_ h hpos
  intro shape place margin hleft hpos hzero
  rcases List.mem_or_eq_of_mem_set hzero with hmem | heq
  · exact hpos hmem
  · omega

private theorem outputShape_length {spec : LayerSpec} {layer : String} {shape result : List Nat}
    (h : spec.outputShape layer shape = .ok result) : result.length = shape.length := by
  refine outputShape_induction (P := fun s => s.length = shape.length) ?_ h rfl
  intro cut place margin _ hlength
  simpa using hlength

theorem outputShape_le {spec : LayerSpec} {layer : String} {shape result : List Nat} {limit : Nat}
    (h : spec.outputShape layer shape = .ok result) (hshape : ∀ extent ∈ shape, extent ≤ limit) :
    ∀ extent ∈ result, extent ≤ limit := by
  refine outputShape_induction (P := fun shape => ∀ extent ∈ shape, extent ≤ limit) ?_ h hshape
  intro shape place margin hleft hshape extent hextent
  rcases List.mem_or_eq_of_mem_set hextent with hmem | rfl
  · exact hshape extent hmem
  · -- an axis out of bounds has no extent, so nothing could be left of it
    by_cases hplace : place < shape.length
    · have := hshape _ (List.getElem_mem hplace)
      rw [List.getD_eq_getElem?_getD, List.getElem?_eq_getElem hplace, Option.getD_some]
      omega
    · rw [List.getD_eq_getElem?_getD, List.getElem?_eq_none (Nat.not_lt.mp hplace)] at hleft
      cases hleft

theorem outputShape_addressable {spec : LayerSpec} {layer : String} {shape result : List Nat}
    (h : spec.outputShape layer shape = .ok result) (hshape : Shape.Addressable shape) :
    Shape.Addressable result := by
  refine ⟨outputShape_length h ▸ hshape.1, ?_⟩
  have hle : ∀ extent ∈ shape, extent ≤ 2 ^ 63 - 1 := fun e he => Nat.le_sub_one_of_lt (hshape.2 e he)
  intro extent hextent
  have hresult := outputShape_le h hle extent hextent
  omega

end LayerSpec
end LoweringCheck
