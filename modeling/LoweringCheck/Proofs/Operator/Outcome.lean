import LoweringCheck.Proofs.Operator.Slicing
import LoweringCheck.Proofs.Tensor.InTurn
/-!
# What stops a slice

Bounds are clamped to the axes of the input, so every range lies in the input. The ranges are taken in turn,
however, and a range on an axis that was listed before need not lie in what is left of it. Apart from axes that
the input does not have, this is all that stops a slice with accepted attributes.
-/
namespace LoweringCheck.Slice
open Tensor (FitInTurn leftOn startOn)
variable {cuts earlier later : List Cut} {cut : Cut} {shape : List Nat} {t : Tensor}

/-! ## Axes that are missing -/

instance (cut : Cut) (shape : List Nat) : Decidable (cut.Placed shape) :=
  inferInstanceAs (Decidable (_ ∧ _))

private theorem Cut.range_of_not_placed (h : ¬ cut.Placed shape) : cut.range shape =
    .error (.invalidAttribute "axes" (.missingAxis (counted cut.axis shape.length) shape.length)) := by
  have hnone : (if counted cut.axis shape.length < 0 then none
      else shape[(counted cut.axis shape.length).toNat]?) = none := by
    split
    · rfl
    · rename_i hnat
      have hbeyond : ¬ counted cut.axis shape.length < shape.length :=
        fun hlt => h ⟨Int.not_lt.mp hnat, hlt⟩
      exact List.getElem?_eq_none (by omega)
  unfold counted at hnone ⊢
  unfold Cut.range
  simp only [hnone]

private theorem ranges_of_not_placed (hplaced : ∀ c ∈ earlier, c.Placed shape) (hcut : ¬ cut.Placed shape) :
    ranges shape (earlier ++ cut :: later) =
      .error (.invalidAttribute "axes" (.missingAxis (counted cut.axis shape.length) shape.length)) := by
  induction earlier with
  | nil =>
    rw [List.nil_append]
    unfold ranges
    rw [Cut.range_of_not_placed hcut]
  | cons c rest ih =>
    obtain ⟨hc, hrest⟩ := List.forall_mem_cons.mp hplaced
    rw [List.cons_append]
    unfold ranges
    rw [hc.range_eq, ih hrest]

/-! ## Outcomes -/

/-- What a slice with these cuts comes to. -/
inductive Outcome (cuts : List Cut) (t : Tensor) : Except OperatorError (List Tensor) → Prop
  | misplaced {earlier later : List Cut} {cut : Cut} (split : cuts = earlier ++ cut :: later)
      (placed : ∀ c ∈ earlier, c.Placed t.shape) (missing : ¬ cut.Placed t.shape) :
      Outcome cuts t
        (.error (.invalidAttribute "axes" (.missingAxis (counted cut.axis t.rank) t.rank)))
  | sliced {u : Tensor} (placed : ∀ c ∈ cuts, c.Placed t.shape)
      (fit : FitInTurn (cuts.map (Cut.kept t.shape)) t.shape)
      (window : u.IsWindow t (startOn (cuts.map (Cut.kept t.shape))))
      (extents : ∀ axis : Nat,
        u.shape[axis]? = t.shape[axis]?.map (leftOn (cuts.map (Cut.kept t.shape)) axis)) :
      Outcome cuts t (.ok [u])
  /-- An earlier cut of the same axis, in whichever spelling, has left less than a later one asks for. -/
  | exceeded {earlier later : List Cut} {cut other : Cut} {extent left : Nat}
      (split : cuts = earlier ++ cut :: later) (placed : ∀ c ∈ cuts, c.Placed t.shape)
      (fit : FitInTurn (earlier.map (Cut.kept t.shape)) t.shape) (listed : other ∈ earlier)
      (again : counted other.axis t.rank = counted cut.axis t.rank)
      (whole : t.shape[(cut.kept t.shape).axis]? = some extent)
      (rest : left = leftOn (earlier.map (Cut.kept t.shape)) (cut.kept t.shape).axis extent)
      (short : left < (cut.kept t.shape).stop) :
      Outcome cuts t (.error (.tensor (.rangeExceedsAxis (cut.kept t.shape).start
        (cut.kept t.shape).stop (cut.kept t.shape).axis left)))

private theorem execute_of_refused {attributes : Attributes} {e : OperatorError}
    (hcuts : Slice.cuts attributes = .ok cuts) (h : apply cuts t = .error e) :
    execute [t] attributes = .error e := by
  simp only [execute, hcuts, h]

private theorem apply_of_fault {fault : Tensor.Fault} (hplaced : ∀ c ∈ cuts, c.Placed t.shape)
    (h : t.slice (cuts.map (Cut.kept t.shape)) = .error fault) :
    apply cuts t = .error (.tensor fault) := by
  rw [apply, ranges_eq_map hplaced]
  simp only [h]

private theorem exists_again {earlier : List Cut} (hplaced : ∀ c ∈ earlier, c.Placed shape)
    (hcut : cut.Placed shape)
    (h : (cut.kept shape).axis ∈ (earlier.map (Cut.kept shape)).map Tensor.Range.axis) :
    ∃ other ∈ earlier, counted other.axis shape.length = counted cut.axis shape.length := by
  rw [List.map_map] at h
  obtain ⟨other, hother, haxis⟩ := List.mem_map.mp h
  exact ⟨other, hother, calc
    counted other.axis shape.length
      = ((other.kept shape).axis : Int) := (Int.toNat_of_nonneg (hplaced other hother).1).symm
    _ = (cut.kept shape).axis := congrArg Int.ofNat haxis
    _ = counted cut.axis shape.length := Int.toNat_of_nonneg hcut.1⟩

private theorem outcome_of_not_placed {attributes : Attributes} (hcuts : Slice.cuts attributes = .ok cuts)
    (hsplit : cuts = earlier ++ cut :: later) (hplaced : ∀ c ∈ earlier, c.Placed t.shape)
    (hcut : ¬ cut.Placed t.shape) : Outcome cuts t (execute [t] attributes) := by
  have happly : apply cuts t =
      .error (.invalidAttribute "axes" (.missingAxis (counted cut.axis t.rank) t.rank)) := by
    rw [apply, hsplit, ranges_of_not_placed hplaced hcut]
    rfl
  rw [execute_of_refused hcuts happly]
  exact .misplaced hsplit hplaced hcut

private theorem outcome_of_placed {attributes : Attributes} (hcuts : Slice.cuts attributes = .ok cuts)
    (hplaced : ∀ c ∈ cuts, c.Placed t.shape) : Outcome cuts t (execute [t] attributes) := by
  have hfits : ∀ r ∈ cuts.map (Cut.kept t.shape), r.Fits t.shape := by
    intro r hr
    obtain ⟨c, hc, rfl⟩ := List.mem_map.mp hr
    exact (hplaced c hc).fits
  rcases Tensor.slice_ok_or_exceeds hfits with ⟨hfit, u, hu⟩ | hexceeds
  · rw [execute_of_cuts hcuts ((apply_eq_ok_iff hplaced).mpr hu)]
    exact .sliced hplaced hfit (Tensor.slice_isWindow hu) (Tensor.slice_extent hu)
  · obtain ⟨earlier', r, later', extent, hsplit, hfit, hagain, hextent, hshort, hslice⟩ := hexceeds
    obtain ⟨earlier, rest, rfl, rfl, hrest⟩ := List.map_eq_append_iff.mp hsplit
    obtain ⟨cut, later, rfl, rfl, rfl⟩ := List.map_eq_cons_iff.mp hrest
    obtain ⟨hearlier, hlater⟩ := List.forall_mem_append.mp hplaced
    obtain ⟨other, hother, hsame⟩ :=
      exists_again hearlier (hlater cut List.mem_cons_self) hagain
    rw [execute_of_refused hcuts (apply_of_fault hplaced hslice)]
    exact .exceeded rfl hplaced hfit hother hsame hextent rfl hshort

/-- Attributes that are accepted give starts, ends and axes. On every tensor no sum leaves 64 bits, and the
slice fails for the first axis that the tensor does not have, goes through, or asks for more of an axis than an
earlier range on it has left; in no other way does it fail. -/
theorem execute_outcome {attributes : Attributes} (haccepted : check attributes = .ok ()) :
    ∃ starts stops axes, Gives attributes starts stops axes ∧
      ∀ t : Tensor, Shape.Addressable t.shape →
        (∀ cut ∈ pair starts stops axes, cut.Exact t.shape) ∧
          Outcome (pair starts stops axes) t (execute [t] attributes) := by
  obtain ⟨found, hfound⟩ := check_eq_ok_iff.mp haccepted
  obtain ⟨starts, stops, axes, hgives, -, rfl⟩ := cuts_eq_ok_iff.mp hfound
  refine ⟨starts, stops, axes, hgives, ?_⟩
  intro t haddressable
  refine ⟨fun cut _ => cut.exact_of_addressable haddressable, ?_⟩
  cases hfind : (pair starts stops axes).find? fun cut => !decide (cut.Placed t.shape) with
  | none => exact outcome_of_placed hfound (by simpa using List.find?_eq_none.mp hfind)
  | some cut =>
    obtain ⟨hcut, earlier, later, hsplit, hearlier⟩ := List.find?_eq_some_iff_append.mp hfind
    exact outcome_of_not_placed hfound hsplit (by simpa using hearlier) (by simpa using hcut)

/-- The rows up to the second, and of the rows those from the second on, which counts them from the end. -/
def rowsTwice : Attributes :=
  .ofList [("starts", .ints [0, 1]), ("ends", .ints [2, 3]), ("axes", .ints [0, -2])]

theorem execute_rowsTwice :
    check rowsTwice = .ok () ∧ Shape.Addressable rowsOfBytes.shape ∧
      Outcome (pair [0, 1] [2, 3] [0, -2]) rowsOfBytes (.error (.tensor (.rangeExceedsAxis 1 3 0 2))) := by
  have haccepted : check rowsTwice = .ok () := by decide +kernel
  have hgives : Gives rowsTwice [0, 1] [2, 3] [0, -2] :=
    ⟨by decide +kernel, by decide +kernel, .inl (by decide +kernel), rfl, rfl⟩
  have haddressable : Shape.Addressable rowsOfBytes.shape := ⟨by decide, by decide⟩
  have hexecute : execute [rowsOfBytes] rowsTwice = .error (.tensor (.rangeExceedsAxis 1 3 0 2)) := rfl
  obtain ⟨starts, stops, axes, hgives', houtcome⟩ := execute_outcome haccepted
  obtain ⟨rfl, rfl, rfl⟩ := hgives.unique hgives'
  exact ⟨haccepted, haddressable, hexecute ▸ (houtcome rowsOfBytes haddressable).2⟩

/-- Both ranges lie in the rows of the tensor, but the second does not lie in those that the first leaves. -/
theorem rowsTwice_exceed :
    check rowsTwice = .ok () ∧ Shape.Addressable rowsOfBytes.shape ∧
      (∀ cut ∈ pair [0, 1] [2, 3] [0, -2], cut.Placed rowsOfBytes.shape) ∧
      ¬ ((∃ axis rank, execute [rowsOfBytes] rowsTwice =
          .error (.invalidAttribute "axes" (.missingAxis axis rank))) ∨
        ∃ outputs, execute [rowsOfBytes] rowsTwice = .ok outputs) := by
  have hexecute : execute [rowsOfBytes] rowsTwice = .error (.tensor (.rangeExceedsAxis 1 3 0 2)) := rfl
  refine ⟨by decide +kernel, ⟨by decide, by decide⟩, by decide +kernel, ?_⟩
  rw [hexecute]
  rintro (⟨axis, rank, hmissing⟩ | ⟨outputs, hok⟩)
  · cases hmissing
  · cases hok

end LoweringCheck.Slice
