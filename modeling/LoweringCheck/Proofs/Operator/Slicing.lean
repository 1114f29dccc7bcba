import LoweringCheck.Operator.Slice
import LoweringCheck.Proofs.Dictionary
import LoweringCheck.Proofs.Layer.Inference
import LoweringCheck.Proofs.Tensor.Distinct
/-!
# What the slice operator keeps

On each axis that is listed a slice keeps the positions between two bounds. A bound below zero counts from
the end, and both are clamped to the axis, so that every pair of integers gives a range of it. Where the
axes are distinct, the order of the list makes no difference.
-/
namespace LoweringCheck.Slice

/-- What an index stands for among some places: from the end on, if it is below zero. -/
def counted (index : Int64) (count : Nat) : Int :=
  if index < 0 then index.toInt + count else index.toInt

/-- The bound on an axis of the given extent that an index stands for. -/
def clamped (index : Int64) (extent : Nat) : Int := max 0 (min (counted index extent) extent)

/-- The sum of an index and a number of places is the same in 64 bits. -/
def ExactSum (index : Int64) (count : Nat) : Prop :=
  (index + Int64.ofNat count).toInt = index.toInt + count

/-- The sums that place a cut in a shape are the same in 64 bits. -/
def Cut.Exact (cut : Cut) (shape : List Nat) : Prop :=
  (cut.axis < 0 → ExactSum cut.axis shape.length) ∧
    ∀ extent ∈ shape, (cut.start < 0 → ExactSum cut.start extent) ∧
      (cut.stop < 0 → ExactSum cut.stop extent)

private theorem resolve_eq_clamped (index : Int64) (extent : Nat) :
    (resolve index extent : Int) = clamped index extent := by
  simp only [resolve, clamped, counted]
  split <;> omega

private theorem exactSum_of_neg {index : Int64} {count : Nat} (hcount : count < 2 ^ 63) (hneg : index < 0) :
    ExactSum index count := by
  have hint : index.toInt < 0 := Int64.lt_iff_toInt_lt.mp hneg
  have hleast : -2 ^ 63 ≤ index.toInt := index.le_toInt
  rw [ExactSum, Int64.toInt_add, Int64.toInt_ofNat_of_lt hcount]
  exact Int.bmod_eq_of_le (by omega) (by omega)

theorem Cut.exact_of_addressable (cut : Cut) {shape : List Nat} (h : Shape.Addressable shape) :
    cut.Exact shape :=
  ⟨exactSum_of_neg h.1, fun _ hextent =>
    ⟨exactSum_of_neg (h.2 _ hextent), exactSum_of_neg (h.2 _ hextent)⟩⟩

/-! ## Attributes -/

/-- The starts, ends and axes that attributes give, one of each for every cut. Without axes the first ones
are meant. -/
structure Gives (attributes : Attributes) (starts stops axes : List Int64) : Prop where
  readStarts : attributes.get? "starts" = some (.ints starts)
  readStops : attributes.get? "ends" = some (.ints stops)
  readAxes : attributes.get? "axes" = some (.ints axes) ∨
    attributes.get? "axes" = none ∧ axes = defaultAxes starts.length
  asManyStops : starts.length = stops.length
  asManyAxes : starts.length = axes.length

/-- The attributes with other cuts in place of theirs. -/
def recut (attributes : Attributes) (cuts : List Cut) : Attributes :=
  ((attributes.insert "starts" (.ints (cuts.map Cut.start))).insert "ends"
    (.ints (cuts.map Cut.stop))).insert "axes" (.ints (cuts.map Cut.axis))

theorem integers?_eq_ok_iff {attributes : Attributes} {name : String} {found : Option (List Int64)} :
    integers? attributes name = .ok found ↔
      attributes.get? name = none ∧ found = none ∨
        ∃ is, attributes.get? name = some (.ints is) ∧ found = some is := by
  unfold integers?
  cases h : attributes.get? name with
  | none => simp [eq_comm]
  | some a => cases a <;> simp [eq_comm]

theorem integers_eq_ok_iff {attributes : Attributes} {name : String} {is : List Int64} :
    integers attributes name = .ok is ↔ attributes.get? name = some (.ints is) := by
  unfold integers integers?
  cases h : attributes.get? name with
  | none => simp
  | some a => cases a <;> simp

theorem exists_integers?_axes_iff {attributes : Attributes} {axes : List Int64} (count : Nat) :
    (∃ found, integers? attributes "axes" = .ok found ∧ found.getD (defaultAxes count) = axes) ↔
      attributes.get? "axes" = some (.ints axes) ∨
        attributes.get? "axes" = none ∧ axes = defaultAxes count := by
  simp only [integers?_eq_ok_iff]
  constructor
  · rintro ⟨_, ⟨habsent, rfl⟩ | ⟨is, hgiven, rfl⟩, rfl⟩
    · exact .inr ⟨habsent, rfl⟩
    · exact .inl hgiven
  · rintro (hgiven | ⟨habsent, rfl⟩)
    · exact ⟨_, .inr ⟨axes, hgiven, rfl⟩, rfl⟩
    · exact ⟨_, .inl ⟨habsent, rfl⟩, rfl⟩

/-- Attributes describe cuts if starts and ends are given, with as many axes, and all steps are 1. -/
theorem cuts_eq_ok_iff {attributes : Attributes} {found : List Cut} :
    cuts attributes = .ok found ↔ ∃ starts stops axes, Gives attributes starts stops axes ∧
      checkSteps attributes starts.length = .ok () ∧ found = pair starts stops axes := by
  constructor
  · intro h
    unfold cuts at h
    split at h
    · cases h
    rename_i starts hstarts
    split at h
    · cases h
    rename_i stops hstops
    split at h
    · cases h
    rename_i axes haxes
    dsimp only at h
    split at h
    case isFalse => cases h
    rename_i hasMany
    split at h
    · cases h
    rename_i hsteps
    cases h
    have hread := (exists_integers?_axes_iff starts.length).mp ⟨axes, haxes, rfl⟩
    exact ⟨starts, stops, _, ⟨integers_eq_ok_iff.mp hstarts, integers_eq_ok_iff.mp hstops, hread,
      hasMany.1, hasMany.2⟩, hsteps, rfl⟩
  · rintro ⟨starts, stops, axes, hgives, hsteps, rfl⟩
    obtain ⟨found, hfound, rfl⟩ := (exists_integers?_axes_iff _).mpr hgives.readAxes
    simp only [cuts, integers_eq_ok_iff.mpr hgives.readStarts,
      integers_eq_ok_iff.mpr hgives.readStops, hfound]
    rw [if_pos ⟨hgives.asManyStops, hgives.asManyAxes⟩, hsteps]

theorem check_eq_ok_iff {attributes : Attributes} :
    check attributes = .ok () ↔ ∃ found, cuts attributes = .ok found := by
  unfold check
  split <;> simp_all

theorem Gives.unique {attributes : Attributes} {starts stops axes starts' stops' axes' : List Int64}
    (h : Gives attributes starts stops axes) (h' : Gives attributes starts' stops' axes') :
    starts = starts' ∧ stops = stops' ∧ axes = axes' := by
  have hstarts := h.readStarts.symm.trans h'.readStarts
  have hstops := h.readStops.symm.trans h'.readStops
  cases hstarts
  cases hstops
  refine ⟨rfl, rfl, ?_⟩
  rcases h.readAxes with hgiven | ⟨habsent, rfl⟩
  · rcases h'.readAxes with hgiven' | ⟨habsent', _⟩
    · have haxes := hgiven.symm.trans hgiven'
      cases haxes
      rfl
    · cases hgiven.symm.trans habsent'
  · rcases h'.readAxes with hgiven' | ⟨_, rfl⟩
    · cases habsent.symm.trans hgiven'
    · rfl

private theorem pair_map (cuts : List Cut) :
    pair (cuts.map Cut.start) (cuts.map Cut.stop) (cuts.map Cut.axis) = cuts := by
  induction cuts with
  | nil => rfl
  | cons cut rest ih => exact congrArg (cut :: ·) ih

private theorem length_pair {starts stops axes : List Int64} (hstops : starts.length = stops.length)
    (haxes : starts.length = axes.length) : (pair starts stops axes).length = starts.length := by
  simp [pair, ← hstops, ← haxes]

private theorem map_axis_pair {starts stops axes : List Int64} (hstops : starts.length = stops.length)
    (haxes : starts.length = axes.length) : (pair starts stops axes).map Cut.axis = axes := by
  apply List.ext_getElem
  · simp [pair, ← hstops, ← haxes]
  · intro i _ _
    simp [pair]

private theorem cuts_recut {attributes : Attributes} {found others : List Cut}
    (h : cuts attributes = .ok found) (hlength : others.length = found.length) :
    cuts (recut attributes others) = .ok others := by
  obtain ⟨starts, stops, axes, hgives, hsteps, rfl⟩ := cuts_eq_ok_iff.mp h
  rw [length_pair hgives.asManyStops hgives.asManyAxes] at hlength
  refine cuts_eq_ok_iff.mpr ⟨_, _, _, ⟨?_, ?_, .inl ?_, ?_, ?_⟩, ?_, (pair_map others).symm⟩
  · simp [recut, Dictionary.get?_insert]
  · simp [recut, Dictionary.get?_insert]
  · simp [recut, Dictionary.get?_insert]
  · simp
  · simp
  · have hread : integers? (recut attributes others) "steps" = integers? attributes "steps" := by
      simp [integers?, recut, Dictionary.get?_insert]
    rw [List.length_map, hlength, checkSteps, hread]
    exact hsteps

/-! ## Ranges -/

/-- The axis of the cut is one of the shape. -/
def Cut.Placed (cut : Cut) (shape : List Nat) : Prop :=
  0 ≤ counted cut.axis shape.length ∧ counted cut.axis shape.length < shape.length

/-- The range that a cut keeps of a shape with its axis. -/
def Cut.kept (shape : List Nat) (cut : Cut) : Tensor.Range :=
  let axis := (counted cut.axis shape.length).toNat
  let extent := shape.getD axis 0
  let start := resolve cut.start extent
  ⟨axis, start, max (resolve cut.stop extent) start⟩

private theorem Cut.Placed.exists_axis {cut : Cut} {shape : List Nat} (h : cut.Placed shape) :
    ∃ axis extent : Nat, counted cut.axis shape.length = axis ∧ shape[axis]? = some extent ∧
      cut.kept shape = ⟨axis, resolve cut.start extent,
        max (resolve cut.stop extent) (resolve cut.start extent)⟩ := by
  obtain ⟨axis, haxis⟩ := Int.eq_ofNat_of_zero_le h.1
  have hbelow := h.2
  have hlt : axis < shape.length := by omega
  refine ⟨axis, shape[axis], haxis, List.getElem?_eq_getElem hlt, ?_⟩
  simp [Cut.kept, haxis, hlt]

theorem Cut.Placed.range_eq {cut : Cut} {shape : List Nat} (h : cut.Placed shape) :
    cut.range shape = .ok (cut.kept shape) := by
  obtain ⟨axis, extent, haxis, hextent, hkept⟩ := h.exists_axis
  have hnat : ¬ (axis : Int) < 0 := by omega
  unfold counted at haxis
  unfold Cut.range
  rw [hkept]
  simp only [haxis, hnat, if_false, Int.toNat_natCast, hextent]

theorem Cut.Placed.fits {cut : Cut} {shape : List Nat} (h : cut.Placed shape) :
    (cut.kept shape).Fits shape := by
  obtain ⟨axis, extent, _, hextent, hkept⟩ := h.exists_axis
  rw [hkept]
  have hclamped : ∀ index, resolve index extent ≤ extent := fun index => Nat.min_le_right _ _
  exact ⟨extent, hextent, le_max_right _ _, max_le (hclamped _) (hclamped _)⟩

theorem ranges_cons_of_range {shape : List Nat} {cut : Cut} {cuts : List Cut} {r : Tensor.Range}
    {rs : List Tensor.Range} (hr : cut.range shape = .ok r) (hrs : ranges shape cuts = .ok rs) :
    ranges shape (cut :: cuts) = .ok (r :: rs) := by
  unfold ranges
  rw [hr, hrs]

theorem ranges_eq_map {shape : List Nat} {cuts : List Cut} (h : ∀ cut ∈ cuts, cut.Placed shape) :
    ranges shape cuts = .ok (cuts.map (Cut.kept shape)) := by
  induction cuts with
  | nil => rfl
  | cons cut rest ih =>
    obtain ⟨hcut, hrest⟩ := List.forall_mem_cons.mp h
    exact ranges_cons_of_range hcut.range_eq (ih hrest)

/-! ## Slices -/

/-- What cuts leave of `t`: on the axis of each cut the positions from its start on and below its stop, and
all positions of the other axes. The elements are those of `t` from `first` on. -/
structure Leaves (cuts : List Cut) (t u : Tensor) (first : Nat → Nat) : Prop where
  window : u.IsWindow t first
  listed : ∀ cut ∈ cuts, ∃ axis extent left : Nat, counted cut.axis t.rank = axis ∧
    t.shape[axis]? = some extent ∧ u.shape[axis]? = some left ∧
    (first axis : Int) = clamped cut.start extent ∧
    (first axis + left : Int) = max (clamped cut.start extent) (clamped cut.stop extent)
  others : ∀ axis : Nat, (∀ cut ∈ cuts, counted cut.axis t.rank ≠ axis) →
    first axis = 0 ∧ u.shape[axis]? = t.shape[axis]?

variable {cuts others : List Cut} {t u : Tensor}

theorem apply_eq_ok_iff (hplaced : ∀ cut ∈ cuts, cut.Placed t.shape) :
    apply cuts t = .ok u ↔ t.slice (cuts.map (Cut.kept t.shape)) = .ok u := by
  rw [apply, ranges_eq_map hplaced]
  dsimp only
  cases t.slice (cuts.map (Cut.kept t.shape)) <;> simp

private theorem nodup_kept {shape : List Nat} (hplaced : ∀ cut ∈ cuts, cut.Placed shape)
    (hdistinct : (cuts.map fun cut => counted cut.axis shape.length).Nodup) :
    ((cuts.map (Cut.kept shape)).map Tensor.Range.axis).Nodup := by
  -- the axes of the ranges are the axes that were counted, none of which is negative
  have hcast : ((cuts.map (Cut.kept shape)).map Tensor.Range.axis).map Int.ofNat =
      cuts.map fun cut => counted cut.axis shape.length := by
    rw [List.map_map, List.map_map]
    apply List.map_congr_left
    intro cut hcut
    exact Int.toNat_of_nonneg (hplaced cut hcut).1
  exact List.Nodup.of_map Int.ofNat (hcast ▸ hdistinct)

private theorem exists_apply (hplaced : ∀ cut ∈ cuts, cut.Placed t.shape)
    (hdistinct : (cuts.map fun cut => counted cut.axis t.rank).Nodup) :
    ∃ u first, apply cuts t = .ok u ∧ Leaves cuts t u first := by
  have hnodup := nodup_kept hplaced hdistinct
  have hfits : ∀ r ∈ cuts.map (Cut.kept t.shape), r.Fits t.shape := by
    intro r hr
    obtain ⟨cut, hcut, rfl⟩ := List.mem_map.mp hr
    exact (hplaced cut hcut).fits
  obtain ⟨u, hu⟩ := (Tensor.exists_slice_iff_fits hnodup).mpr hfits
  refine ⟨u, _, (apply_eq_ok_iff hplaced).mpr hu, Tensor.slice_isWindow hu, ?_, ?_⟩
  · intro cut hcut
    obtain ⟨axis, extent, haxis, hextent, hkept⟩ := (hplaced cut hcut).exists_axis
    have hmem : cut.kept t.shape ∈ cuts.map (Cut.kept t.shape) := List.mem_map_of_mem hcut
    have hstart := Tensor.startOn_of_mem hnodup hmem
    have hleft := Tensor.slice_shape_of_mem hu hnodup hmem
    rw [hkept] at hstart hleft
    dsimp only at hstart hleft
    refine ⟨axis, extent, max (resolve cut.stop extent) (resolve cut.start extent) -
      resolve cut.start extent, haxis, hextent, hleft, ?_, ?_⟩
    · rw [hstart, resolve_eq_clamped]
    · rw [hstart, ← resolve_eq_clamped, ← resolve_eq_clamped]
      omega
  · intro axis hothers
    have hnone : axis ∉ (cuts.map (Cut.kept t.shape)).map Tensor.Range.axis := by
      simp only [List.mem_map, not_exists, not_and, forall_exists_index, and_imp]
      rintro _ cut hcut rfl heq
      apply hothers cut hcut
      rw [← heq]
      exact (Int.toNat_of_nonneg (hplaced cut hcut).1).symm
    exact ⟨Tensor.startOn_of_not_mem hnone, Tensor.slice_shape_of_not_mem hu hnone⟩

/-- The order of cuts on distinct axes makes no difference. -/
theorem apply_perm (hperm : others.Perm cuts) (hplaced : ∀ cut ∈ cuts, cut.Placed t.shape)
    (hdistinct : (cuts.map fun cut => counted cut.axis t.rank).Nodup) (h : apply cuts t = .ok u) :
    apply others t = .ok u := by
  have hplaced' : ∀ cut ∈ others, cut.Placed t.shape := fun cut hcut =>
    hplaced cut (hperm.mem_iff.mp hcut)
  rw [apply_eq_ok_iff hplaced] at h
  exact (apply_eq_ok_iff hplaced').mpr
    (Tensor.slice_perm (hperm.map _) (nodup_kept hplaced hdistinct) h)

theorem execute_of_cuts {attributes : Attributes} (hcuts : Slice.cuts attributes = .ok cuts)
    (h : apply cuts t = .ok u) : execute [t] attributes = .ok [u] := by
  simp only [execute, hcuts, h]

/-- Attributes that are accepted give starts, ends and axes, whatever integers these are. On every tensor
that has the axes, each at most once, no sum leaves 64 bits, and the slice is what the cuts leave of the
tensor, in any order of the cuts. -/
theorem execute_accepted {attributes : Attributes} (haccepted : check attributes = .ok ()) :
    ∃ starts stops axes, Gives attributes starts stops axes ∧
      ∀ t : Tensor, Shape.Addressable t.shape →
        (∀ axis ∈ axes, 0 ≤ counted axis t.rank ∧ counted axis t.rank < t.rank) →
        (axes.map fun axis => counted axis t.rank).Nodup →
        (∀ cut ∈ pair starts stops axes, cut.Exact t.shape) ∧
          ∃ u first, execute [t] attributes = .ok [u] ∧ Leaves (pair starts stops axes) t u first ∧
            ∀ others, others.Perm (pair starts stops axes) →
              execute [t] (recut attributes others) = .ok [u] := by
  obtain ⟨found, hfound⟩ := check_eq_ok_iff.mp haccepted
  obtain ⟨starts, stops, axes, hgives, -, rfl⟩ := cuts_eq_ok_iff.mp hfound
  refine ⟨starts, stops, axes, hgives, ?_⟩
  intro t haddressable hrange hdistinct
  have haxes := map_axis_pair hgives.asManyStops hgives.asManyAxes
  have hplaced : ∀ cut ∈ pair starts stops axes, cut.Placed t.shape := by
    intro cut hcut
    exact hrange cut.axis (haxes ▸ List.mem_map_of_mem hcut)
  have hdistinct' : ((pair starts stops axes).map fun cut => counted cut.axis t.rank).Nodup := by
    rwa [← haxes, List.map_map] at hdistinct
  obtain ⟨u, first, hu, hleaves⟩ := exists_apply hplaced hdistinct'
  refine ⟨fun cut _ => cut.exact_of_addressable haddressable, u, first,
    execute_of_cuts hfound hu, hleaves, ?_⟩
  intro others hperm
  exact execute_of_cuts (cuts_recut hfound hperm.length_eq) (apply_perm hperm hplaced hdistinct' hu)

/-- The columns but the last, and the rows but the first. -/
def columnsThenRows : Attributes :=
  .ofList [("starts", .ints [Int64.minValue, 1]), ("ends", .ints [-1, Int64.maxValue]),
    ("axes", .ints [-1, 0])]

/-- Three rows of four bytes. -/
def rowsOfBytes : Tensor := ⟨.u8, [3, 4], #[0, 1, 2, 3, 4, 5, 6, 7, 8, 9, 10, 11], rfl⟩

theorem execute_columnsThenRows :
    ∃ u first, execute [rowsOfBytes] columnsThenRows = .ok [u] ∧
      u = ⟨.u8, [2, 3], #[4, 5, 6, 8, 9, 10], rfl⟩ ∧
      Leaves (pair [Int64.minValue, 1] [-1, Int64.maxValue] [-1, 0]) rowsOfBytes u first ∧
      ∀ others, others.Perm (pair [Int64.minValue, 1] [-1, Int64.maxValue] [-1, 0]) →
        execute [rowsOfBytes] (recut columnsThenRows others) = .ok [u] := by
  have haccepted : check columnsThenRows = .ok () := by decide +kernel
  have hgives : Gives columnsThenRows [Int64.minValue, 1] [-1, Int64.maxValue] [-1, 0] :=
    ⟨by decide +kernel, by decide +kernel, .inl (by decide +kernel), rfl, rfl⟩
  have haddressable : Shape.Addressable rowsOfBytes.shape := ⟨by decide, by decide⟩
  have hrange : ∀ axis ∈ [(-1 : Int64), 0], 0 ≤ counted axis rowsOfBytes.rank ∧
      counted axis rowsOfBytes.rank < rowsOfBytes.rank := by
    rw [List.forall_mem_cons, List.forall_mem_singleton]
    decide +kernel
  obtain ⟨starts, stops, axes, hgives', hslice⟩ := execute_accepted haccepted
  obtain ⟨rfl, rfl, rfl⟩ := hgives.unique hgives'
  obtain ⟨_, u, first, hu, hleaves, hperm⟩ :=
    hslice rowsOfBytes haddressable hrange (by decide +kernel)
  have hfound : execute [rowsOfBytes] columnsThenRows =
      .ok [⟨.u8, [2, 3], #[4, 5, 6, 8, 9, 10], rfl⟩] := rfl
  rw [hu] at hfound
  cases hfound
  exact ⟨_, first, hu, rfl, hleaves, hperm⟩

end LoweringCheck.Slice
