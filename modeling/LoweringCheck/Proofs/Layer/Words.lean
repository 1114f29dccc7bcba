import LoweringCheck.Proofs.Layer.Execution
/-!
# Croppings in 64-bit arithmetic

Inference and execution once more, with every sum and difference taken of 64-bit numbers. Where one has more
bits or lies below zero there is no result, except that margins may add up to as much as they like: then they
leave nothing. On extents of 64 bits there always is a result, and it is that of unbounded arithmetic.
-/
namespace LoweringCheck

namespace Word

def sum? (a b : Nat) : Option Nat := if a + b < 2 ^ 64 then some (a + b) else none

def difference? (a b : Nat) : Option Nat := if b ≤ a then some (a - b) else none

private theorem sum?_eq {a b : Nat} (h : a + b < 2 ^ 64) : sum? a b = some (a + b) := if_pos h

private theorem difference?_eq {a b : Nat} (h : b ≤ a) : difference? a b = some (a - b) := if_pos h

end Word

open Word

/-- Margins without a sum exhaust every extent. -/
def Margin.exhaustsWord (m : Margin) (extent : Nat) : Bool :=
  (sum? m.before m.after).all fun total => decide (extent ≤ total)

private theorem Margin.exhaustsWord_eq (m : Margin) {extent : Nat} (h : extent < 2 ^ 64) :
    m.exhaustsWord extent = m.exhausts extent := by
  unfold exhaustsWord exhausts sum?
  split
  · rfl
  · simp only [Option.all_none, Bool.true_eq, decide_eq_true_eq]
    omega

/-- The spatial axes, up to the rank or the one behind it. -/
def DataFormat.spatialAxes? (format : DataFormat) (rank : Nat) : Option (List Nat) :=
  match format with
  | channelsLast => some (List.range' 1 rank)
  | channelsFirst => (sum? rank 1).map fun last => List.range' 2 (last - 1)

private theorem DataFormat.spatialAxes?_eq (format : DataFormat) {rank : Nat} (h : rank + 1 < 2 ^ 64) :
    format.spatialAxes? rank = some (format.spatialAxes rank) := by
  cases format with
  | channelsLast => rfl
  | channelsFirst => rw [spatialAxes?, sum?_eq h, Option.map_some, Nat.add_sub_cancel, spatialAxes]

/-- Narrowing adds the start of a range to its length. -/
def Tensor.slice? (t : Tensor) : List Range → Option (Except Fault Tensor)
  | [] => some (.ok t)
  | r :: rs =>
    if r.stop < r.start then some (.error (.reversedRange r.start r.stop r.axis))
    else
      (difference? r.stop r.start).bind fun len =>
        (sum? r.start len).bind fun _ =>
          match t.narrow r.axis r.start len with
          | .ok t => t.slice? rs
          | .error fault => some (.error fault)

private theorem Tensor.slice?_eq (t : Tensor) {ranges : List Range} (h : ∀ r ∈ ranges, r.stop < 2 ^ 64) :
    t.slice? ranges = some (t.slice ranges) := by
  induction ranges generalizing t with
  | nil => rfl
  | cons r rest ih =>
    obtain ⟨hstop, hrest⟩ := List.forall_mem_cons.mp h
    rw [slice?, slice]
    split
    · rfl
    · rename_i hle
      have hsum : r.start + (r.stop - r.start) < 2 ^ 64 := by omega
      rw [difference?_eq (Nat.not_lt.mp hle), Option.bind_some, sum?_eq hsum, Option.bind_some]
      cases t.narrow r.axis r.start (r.stop - r.start) with
      | ok u => exact ih u hrest
      | error fault => rfl

namespace LayerSpec

/-! ## Inference -/

/-- Declared shapes have no batch axis, so places come before the axes. -/
def cropShape? (layer : String) : (index : Nat) → List (Nat × Margin) → List Nat →
    Option (Except ModelError (List Nat))
  | _, [], shape => some (.ok shape)
  | index, (axis, margin) :: rest, shape =>
    (difference? axis 1).bind fun place =>
      let extent := shape.getD place 0
      if margin.exhaustsWord extent then
        some (.error (.invalidCropping layer (.nothingLeft margin index extent)))
      else
        (difference? extent margin.before).bind fun inner =>
          (difference? inner margin.after).bind fun left =>
            cropShape? layer (index + 1) rest (shape.set place left)

def outputShape? (margins : List Margin) (format : DataFormat) (layer : String) (shape : List Nat) :
    Option (Except ModelError (List Nat)) :=
  (sum? margins.length 1).bind fun expected =>
    if shape.length = expected then
      (format.spatialAxes? margins.length).bind fun axes =>
        cropShape? layer 0 (axes.zip margins) shape
    else some (.error (.shape (.layerRank (kind (cropping margins format)) layer expected shape)))

private theorem getD_lt {shape : List Nat} (h : ∀ extent ∈ shape, extent < 2 ^ 64) (place : Nat) :
    shape.getD place 0 < 2 ^ 64 := by
  rw [List.getD_eq_getElem?_getD]
  cases hplace : shape[place]? with
  | none => exact Nat.two_pow_pos 64
  | some extent => exact h extent (List.mem_of_getElem? hplace)

private theorem cropShape?_eq {layer : String} {index : Nat} {cuts : List (Nat × Margin)} {shape : List Nat}
    (hcuts : ∀ cut ∈ cuts, 1 ≤ cut.1) (hshape : ∀ extent ∈ shape, extent < 2 ^ 64) :
    cropShape? layer index cuts shape =
      some (cropShape layer index (cuts.map fun cut => (cut.1 - 1, cut.2)) shape) := by
  induction cuts generalizing index shape with
  | nil => rfl
  | cons cut rest ih =>
    obtain ⟨axis, margin⟩ := cut
    obtain ⟨hpos, hrest⟩ := List.forall_mem_cons.mp hcuts
    have hextent := getD_lt hshape (axis - 1)
    rw [List.map_cons, cropShape?, cropShape, difference?_eq hpos, Option.bind_some]
    simp only [margin.exhaustsWord_eq hextent]
    split
    · rfl
    · rename_i hleft
      have hroom : margin.before + margin.after < shape.getD (axis - 1) 0 := by
        simpa [Margin.exhausts] using hleft
      rw [difference?_eq (by omega), Option.bind_some, difference?_eq (by omega), Option.bind_some]
      apply ih hrest
      intro extent hmem
      rcases List.mem_or_eq_of_mem_set hmem with hmem | rfl
      · exact hshape extent hmem
      · omega

/-- No sum and no difference of shape inference leaves 64 bits. -/
theorem outputShape?_eq {margins : List Margin} {format : DataFormat} {layer : String}
    {shape : List Nat} (hrank : margins.length + 1 < 2 ^ 64) (hshape : ∀ extent ∈ shape, extent < 2 ^ 64) :
    outputShape? margins format layer shape =
      some ((cropping margins format).outputShape layer shape) := by
  have hcuts : ∀ cut ∈ axisCuts margins format, 1 ≤ cut.1 := fun cut hcut =>
    (DataFormat.mem_spatialAxes (List.of_mem_zip hcut).1).1
  rw [outputShape?, sum?_eq hrank, Option.bind_some, format.spatialAxes?_eq hrank, Option.bind_some,
    outputShape]
  split
  · rw [axisCuts_places]
    exact cropShape?_eq hcuts hshape
  · rfl

/-! ## Execution -/

def keptRanges? (layer : String) (shape : List Nat) :
    List (Nat × Margin) → Option (Except ModelError (List Tensor.Range))
  | [] => some (.ok [])
  | (axis, margin) :: rest =>
    match shape[axis]? with
    | none => some (.error (.shape (.missingAxis layer shape.length axis)))
    | some extent =>
      if margin.exhaustsWord extent then
        some (.error (.shape (.cannotCrop layer margin axis extent)))
      else
        (difference? extent margin.after).bind fun stop =>
          (keptRanges? layer shape rest).map fun ranges =>
            ranges.map (⟨axis, margin.before, stop⟩ :: ·)

def crop? (margins : List Margin) (format : DataFormat) (layer : String) (input : Tensor) :
    Option (Except ModelError Tensor) :=
  (format.spatialAxes? margins.length).bind fun axes =>
    (keptRanges? layer input.shape (axes.zip margins)).bind fun kept =>
      match kept with
      | .error e => some (.error e)
      | .ok ranges => (input.slice? ranges).map (Except.mapError .tensor)

private theorem keptRanges?_eq {layer : String} {shape : List Nat} (cuts : List (Nat × Margin))
    (hshape : ∀ extent ∈ shape, extent < 2 ^ 64) :
    keptRanges? layer shape cuts = some (keptRanges layer shape cuts) := by
  induction cuts with
  | nil => rfl
  | cons cut rest ih =>
    obtain ⟨axis, margin⟩ := cut
    rw [keptRanges?, keptRanges]
    cases haxis : shape[axis]? with
    | none => rfl
    | some extent =>
      simp only [margin.exhaustsWord_eq (hshape extent (List.mem_of_getElem? haxis))]
      split
      · rfl
      · rename_i hleft
        have hroom : margin.before + margin.after < extent := by
          simpa [Margin.exhausts] using hleft
        rw [difference?_eq (by omega), Option.bind_some, ih, Option.map_some]
        cases keptRanges layer shape rest <;> rfl

private theorem stop_lt_of_keptRanges {layer : String} {shape : List Nat} {cuts : List (Nat × Margin)}
    {ranges : List Tensor.Range} (hshape : ∀ extent ∈ shape, extent < 2 ^ 64)
    (h : keptRanges layer shape cuts = .ok ranges) : ∀ r ∈ ranges, r.stop < 2 ^ 64 := by
  induction cuts generalizing ranges with
  | nil =>
    cases h
    simp
  | cons cut rest ih =>
    obtain ⟨axis, margin⟩ := cut
    obtain ⟨extent, later, haxis, _, hlater, rfl⟩ := keptRanges_cons_ok_iff.mp h
    have hextent := hshape extent (List.mem_of_getElem? haxis)
    rw [List.forall_mem_cons]
    exact ⟨Nat.lt_of_le_of_lt (Nat.sub_le _ _) hextent, ih hlater⟩

/-- No sum and no difference of executing a cropping leaves 64 bits. -/
theorem crop?_eq {margins : List Margin} {format : DataFormat} {layer : String} {t : Tensor}
    (hrank : margins.length + 1 < 2 ^ 64) (hshape : ∀ extent ∈ t.shape, extent < 2 ^ 64) :
    crop? margins format layer t = some ((cropping margins format).execute layer t) := by
  rw [crop?, format.spatialAxes?_eq hrank, Option.bind_some, keptRanges?_eq _ hshape,
    Option.bind_some]
  simp only [execute]
  cases hkept : keptRanges layer t.shape ((format.spatialAxes margins.length).zip margins) with
  | error e => rfl
  | ok ranges =>
    simp only [t.slice?_eq (stop_lt_of_keptRanges hshape hkept), Option.map_some]
    cases t.slice ranges <;> rfl

end LayerSpec
end LoweringCheck
