import LoweringCheck.Proofs.Conversion.Lowering
import LoweringCheck.Proofs.Layer.Agreement
import LoweringCheck.Proofs.Model.Trace
/-!
# The integers of a lowered margin

Amounts are 64-bit numbers without a sign, attribute integers have one. A margin is written as it is as long
as its amounts are below `2 ^ 63`, and at the end of an axis at `2 ^ 63` too; greater amounts are written
modulo `2 ^ 64`. The greatest integer stands for an end where nothing is taken off, but an end where
`2 ^ 63 + 1` is taken off is written as the same integer. All other margins can be told apart.
-/
namespace LoweringCheck

private theorem toInt_ofNat_word {n : Nat} (h : n < 2 ^ 64) :
    (Int64.ofNat n).toInt = if n < 2 ^ 63 then (n : Int) else n - 2 ^ 64 := by
  rw [Int64.toInt_ofNat', Int.bmod_def, Int64.size]
  split <;> split <;> omega

private theorem toInt_neg_ofNat_word {n : Nat} (h : n < 2 ^ 64) :
    (-Int64.ofNat n).toInt = if n ≤ 2 ^ 63 then -(n : Int) else 2 ^ 64 - n := by
  rw [Int64.toInt_neg, toInt_ofNat_word h, Int.bmod_def]
  split <;> split <;> split <;> omega

/-- The amounts are 64-bit numbers. -/
def Margin.InWords (m : Margin) : Prop := m.before < 2 ^ 64 ∧ m.after < 2 ^ 64

/-- The margin that its lowered bounds are read as. -/
def Margin.read (m : Margin) : Margin := ⟨m.before, if m.after = 2 ^ 63 + 1 then 0 else m.after⟩

namespace Lowering
variable {m m' : Margin}

/-- The bounds are those of the margin. -/
structure Denotes (m : Margin) (start stop : Int64) : Prop where
  start_eq : start.toInt = m.before
  stop_eq : 0 < m.after → stop.toInt = -m.after
  stop_open : stop = Int64.maxValue ↔ m.after = 0

/-- How a margin is written. The amounts are cast, and what is taken off the end is negated. -/
structure Writes (m : Margin) (start stop : Int64) : Prop where
  start_eq : start.toInt = if m.before < 2 ^ 63 then (m.before : Int) else m.before - 2 ^ 64
  stop_eq : 0 < m.after → stop.toInt = if m.after ≤ 2 ^ 63 then -(m.after : Int) else 2 ^ 64 - m.after
  stop_open : stop = Int64.maxValue ↔ m.after = 0 ∨ m.after = 2 ^ 63 + 1
  denotes_iff : Denotes m start stop ↔ m.before < 2 ^ 63 ∧ m.after ≤ 2 ^ 63
  before_exact : (Int64.ofNat m.before).toInt = m.before ↔ m.before < 2 ^ 63
  after_exact : (Int64.ofNat m.after).toInt = m.after ↔ m.after < 2 ^ 63
  negation_exact : (-Int64.ofNat m.after).toInt = -(Int64.ofNat m.after).toInt ↔ m.after ≠ 2 ^ 63

private theorem toInt_stopOf (h : m.after < 2 ^ 64) : (stopOf m).toInt =
    if m.after = 0 then 2 ^ 63 - 1 else if m.after ≤ 2 ^ 63 then -(m.after : Int) else 2 ^ 64 - m.after := by
  unfold stopOf
  split
  · exact Int64.toInt_maxValue
  · exact toInt_neg_ofNat_word h

theorem stopOf_eq_maxValue_iff (h : m.after < 2 ^ 64) :
    stopOf m = Int64.maxValue ↔ m.after = 0 ∨ m.after = 2 ^ 63 + 1 := by
  rw [← Int64.toInt_inj, toInt_stopOf h, Int64.toInt_maxValue]
  split
  · omega
  · split <;> omega

private theorem writes (h : m.InWords) : Writes m (startOf m) (stopOf m) where
  start_eq := toInt_ofNat_word h.1
  stop_eq hpos := by rw [toInt_stopOf h.2, if_neg (Nat.ne_of_gt hpos)]
  stop_open := stopOf_eq_maxValue_iff h.2
  denotes_iff := by
    have hstart : (startOf m).toInt = _ := toInt_ofNat_word h.1
    have hstop := toInt_stopOf h.2
    constructor
    · rintro ⟨hbefore, hafter, -⟩
      constructor
      · rw [hstart] at hbefore
        split at hbefore <;> omega
      · by_contra hlarge
        have hexact := hafter (by omega)
        rw [hstop, if_neg (by omega), if_neg hlarge] at hexact
        omega
    · rintro ⟨hbefore, hafter⟩
      refine ⟨by rw [hstart, if_pos hbefore], fun hpos => ?_, ?_⟩
      · rw [hstop, if_neg (Nat.ne_of_gt hpos), if_pos hafter]
      · rw [stopOf_eq_maxValue_iff h.2]
        omega
  before_exact := by
    rw [toInt_ofNat_word h.1]
    split <;> omega
  after_exact := by
    rw [toInt_ofNat_word h.2]
    split <;> omega
  negation_exact := by
    rw [toInt_neg_ofNat_word h.2, toInt_ofNat_word h.2]
    split <;> split <;> omega

theorem bounds_eq_iff (h : m.InWords) (h' : m'.InWords) :
    startOf m = startOf m' ∧ stopOf m = stopOf m' ↔ m.read = m'.read := by
  have hstart : startOf m = startOf m' ↔ m.before = m'.before := by
    unfold startOf
    rw [← Int64.toInt_inj, toInt_ofNat_word h.1, toInt_ofNat_word h'.1]
    have hfirst := h.1
    have hsecond := h'.1
    split <;> split <;> omega
  have hstop : stopOf m = stopOf m' ↔
      (if m.after = 2 ^ 63 + 1 then 0 else m.after) = if m'.after = 2 ^ 63 + 1 then 0 else m'.after := by
    rw [← Int64.toInt_inj, toInt_stopOf h.2, toInt_stopOf h'.2]
    have hfirst := h.2
    have hsecond := h'.2
    split_ifs <;> omega
  rw [hstart, hstop, Margin.read, Margin.read, Margin.mk.injEq]

variable {margins margins' : List Margin} {format format' : DataFormat}

private theorem toInt_axes {rank : Nat} (hrank : rank + 1 < 2 ^ 63) :
    ((format.spatialAxes rank).map Int64.ofNat).map Int64.toInt =
      (format.spatialAxes rank).map Int.ofNat := by
  rw [List.map_map]
  apply List.map_congr_left
  intro axis haxis
  have hlt := (DataFormat.mem_spatialAxes haxis).2
  exact Int64.toInt_ofNat_of_lt (by omega)

theorem bounds_map_eq_iff (h : ∀ m ∈ margins, m.InWords) (h' : ∀ m ∈ margins', m.InWords) :
    margins.map startOf = margins'.map startOf ∧ margins.map stopOf = margins'.map stopOf ↔
      margins.map Margin.read = margins'.map Margin.read := by
  induction margins generalizing margins' with
  | nil => simp
  | cons m rest ih =>
    cases margins' with
    | nil => simp
    | cons m' rest' =>
      obtain ⟨hm, hrest⟩ := List.forall_mem_cons.mp h
      obtain ⟨hm', hrest'⟩ := List.forall_mem_cons.mp h'
      simp only [List.map_cons, List.cons.injEq, ← ih hrest hrest', ← bounds_eq_iff hm hm']
      tauto

/-- Attributes tell the axes and what the margins are read as, and no more. -/
theorem sliceAttributes_eq_iff (hrank : margins.length + 1 < 2 ^ 63) (h : ∀ m ∈ margins, m.InWords)
    (hrank' : margins'.length + 1 < 2 ^ 63) (h' : ∀ m ∈ margins', m.InWords) :
    sliceAttributes margins format = sliceAttributes margins' format' ↔
      format.spatialAxes margins.length = format'.spatialAxes margins'.length ∧
        margins.map Margin.read = margins'.map Margin.read := by
  rw [← bounds_map_eq_iff h h']
  have hgives := gives_sliceAttributes margins format
  have hgives' := gives_sliceAttributes margins' format'
  constructor
  · intro heq
    obtain ⟨hstarts, hstops, haxes⟩ := hgives.unique (heq ▸ hgives')
    refine ⟨?_, hstarts, hstops⟩
    have hints := congrArg (List.map Int64.toInt) haxes
    rw [toInt_axes hrank, toInt_axes hrank'] at hints
    exact List.map_injective_iff.mpr (fun _ _ => Int.ofNat.inj) hints
  · rintro ⟨haxes, hstarts, hstops⟩
    rw [sliceAttributes, sliceAttributes, hstarts, hstops, haxes]

private theorem lowers_of_lower {m : Model} {ops : OperatorSet} {options : ConversionOptions} {g : Graph}
    (h : m.lower ops options = .ok g) : Lowers 0 m.layers g.nodes := by
  rw [Model.lower] at h
  split at h
  · cases h
  split at h
  · cases h
  rename_i nodes hnodes
  split at h
  · cases h
  rename_i connected hconnect
  split at h
  · cases h
  cases h
  obtain ⟨-, rfl⟩ := Graph.connect_eq_ok_iff.mp hconnect
  exact lowers_of_lowerLayers hnodes

end Lowering

namespace Model
variable {m : Model}

open Lowering

/-- The layer at place `k` is a cropping that inference accepts on a shape with extents of 64 bits. No list
has as many as `2 ^ 63` items. -/
structure CropsAt (m : Model) (k : Nat) (layer : Layer) (margins : List Margin) (format : DataFormat)
    (shape : List Nat) : Prop where
  isLayer : m.layers[k]? = some layer
  isCropping : layer.spec = .cropping margins format
  rank_lt : shape.length < 2 ^ 63
  extent_lt : ∀ extent ∈ shape, extent < 2 ^ 64
  accepted : ∃ result, layer.spec.outputShape layer.name shape = .ok result

namespace CropsAt
variable {k : Nat} {layer : Layer} {margins : List Margin} {format : DataFormat} {shape : List Nat}

private theorem length_eq (h : m.CropsAt k layer margins format shape) :
    shape.length = margins.length + 1 := by
  obtain ⟨result, hresult⟩ := h.accepted
  rw [h.isCropping, LayerSpec.outputShape] at hresult
  by_contra hlength
  rw [if_neg hlength] at hresult
  cases hresult

private theorem inWords (h : m.CropsAt k layer margins format shape) :
    ∀ margin ∈ margins, margin.InWords := by
  have haccepted := h.accepted
  rw [h.isCropping, LayerSpec.exists_outputShape_iff 0 h.length_eq] at haccepted
  intro margin hmargin
  obtain ⟨axis, hcut⟩ := LayerSpec.exists_mem_axisCuts format hmargin
  obtain ⟨extent, hextent, hroom⟩ := haccepted _ hcut
  dsimp only at hroom
  have hextent' : extent < 2 ^ 64 := by
    rcases List.mem_cons.mp (List.mem_of_getElem? hextent) with rfl | hmem
    · omega
    · exact h.extent_lt extent hmem
  exact ⟨by omega, by omega⟩

private theorem node (h : m.CropsAt k layer margins format shape) {ops : OperatorSet}
    {options : ConversionOptions} {g : Graph} (hlower : m.lower ops options = .ok g) :
    g.nodes[k]? = some (sliceNode k layer margins format) := by
  have hnodes : Lowers 0 m.layers g.nodes := lowers_of_lower hlower
  obtain ⟨margins', format', hspec, hnode⟩ := hnodes.node h.isLayer
  cases h.isCropping.symm.trans hspec
  rwa [Nat.zero_add] at hnode

end CropsAt

/-- The slice of a cropping keeps what its margins are read as. On every axis the bounds are those of the
margin if and only if less than `2 ^ 63` is taken off the start and no more than that off the end, and two
croppings have the same slices if and only if they crop the same axes by margins that are read the same. -/
theorem lower_writes_margins {ops : OperatorSet} {options : ConversionOptions} {g : Graph}
    (hlower : m.lower ops options = .ok g) {k : Nat} {layer : Layer} {margins : List Margin}
    {format : DataFormat} {shape : List Nat} (h : m.CropsAt k layer margins format shape) :
    ∃ n starts stops axes, g.nodes[k]? = some n ∧
      n.op = Slice.name ∧ n.inputs = [layer.input] ∧ n.outputs = [layer.output] ∧
      Slice.Gives n.attributes starts stops axes ∧
      axes.map Int64.toInt = (format.spatialAxes margins.length).map Int.ofNat ∧
      (∀ (i : Nat) (margin : Margin), margins[i]? = some margin → ∃ start stop,
        starts[i]? = some start ∧ stops[i]? = some stop ∧ Writes margin start stop) ∧
      ∀ (m' : Model) (ops' : OperatorSet) (options' : ConversionOptions) (g' : Graph) (k' : Nat)
          (layer' : Layer) (margins' : List Margin) (format' : DataFormat) (shape' : List Nat),
        m'.lower ops' options' = .ok g' → m'.CropsAt k' layer' margins' format' shape' →
        ∃ n', g'.nodes[k']? = some n' ∧ (n.attributes = n'.attributes ↔
          format.spatialAxes margins.length = format'.spatialAxes margins'.length ∧
            margins.map Margin.read = margins'.map Margin.read) := by
  have hrank : margins.length + 1 < 2 ^ 63 := h.length_eq ▸ h.rank_lt
  refine ⟨_, _, _, _, h.node hlower, rfl, rfl, rfl, gives_sliceAttributes margins format,
    toInt_axes hrank, ?_, ?_⟩
  · intro i margin hmargin
    refine ⟨startOf margin, stopOf margin, ?_, ?_, writes (h.inWords _ (List.mem_of_getElem? hmargin))⟩
    · rw [List.getElem?_map, hmargin, Option.map_some]
    · rw [List.getElem?_map, hmargin, Option.map_some]
  · intro m' ops' options' g' k' layer' margins' format' shape' hlower' h'
    exact ⟨_, h'.node hlower', sliceAttributes_eq_iff hrank h.inWords
      (h'.length_eq ▸ h'.rank_lt) h'.inWords⟩

/-- A crop of the longest axis there is. -/
def longCrop (margin : Margin) : Model where
  name := "model"
  inputs := [⟨"x", [2 ^ 64 - 1, 1], .f32⟩]
  outputs := [⟨"crop:0", [2 ^ 64 - 1 - margin.before - margin.after, 1], .f32⟩]
  layers := [⟨"crop", .cropping [margin] .channelsLast, "x", "crop:0"⟩]

private theorem longCrop_cropsAt {margin : Margin} (h : margin.before + margin.after < 2 ^ 64 - 1) :
    (longCrop margin).CropsAt 0 ⟨"crop", .cropping [margin] .channelsLast, "x", "crop:0"⟩ [margin]
      .channelsLast [2 ^ 64 - 1, 1] where
  isLayer := rfl
  isCropping := rfl
  rank_lt := by decide
  extent_lt := by decide
  accepted := (LayerSpec.exists_outputShape_iff 0 rfl).mpr fun cut hcut => by
    obtain rfl := List.mem_singleton.mp hcut
    exact ⟨2 ^ 64 - 1, rfl, h⟩

/-- Half of the numbers can be taken off the end. -/
theorem lower_writes_halfOff :
    ∃ g n, (longCrop ⟨1, 2 ^ 63⟩).lower .standard {} = .ok g ∧ g.nodes[0]? = some n ∧
      Slice.Gives n.attributes [1] [Int64.minValue] [1] ∧ Denotes ⟨1, 2 ^ 63⟩ 1 Int64.minValue := by
  have hlower : (longCrop ⟨1, 2 ^ 63⟩).lower .standard {} = .ok _ := rfl
  obtain ⟨n, starts, stops, axes, hnode, -, -, -, hgives, -, hwrites, -⟩ :=
    lower_writes_margins hlower (longCrop_cropsAt (by decide))
  obtain ⟨start, stop, hstart, hstop, hwritten⟩ := hwrites 0 _ rfl
  have hfound : Slice.Gives n.attributes [1] [Int64.minValue] [1] := by
    cases hnode
    exact gives_sliceAttributes [⟨1, 2 ^ 63⟩] .channelsLast
  obtain ⟨rfl, rfl, rfl⟩ := hgives.unique hfound
  cases hstart
  cases hstop
  exact ⟨_, n, hlower, hnode, hfound, hwritten.denotes_iff.mpr (by decide)⟩

/-- The calls that make it. -/
def longCalls (margin : Margin) : List Session.Call :=
  [.input [2 ^ 64 - 1, 1] .f32 "x",
    @Session.Call.crop 1 { margins := #v[margin], name := some "crop" } ⟨"x", [2 ^ 64 - 1, 1], .f32⟩]

/-- One more is lowered like nothing at all, and as much off the start to a bound that counts from the end. -/
theorem lower_confuses_margins :
    let most := longCrop ⟨0, 2 ^ 63 + 1⟩
    let none := longCrop ⟨0, 0⟩
    let half := longCrop ⟨2 ^ 63, 0⟩
    (most.Constructed ∧ none.Constructed ∧ half.Constructed) ∧
      ∃ g g' g'' n n' n'', most.lower .standard {} = .ok g ∧ none.lower .standard {} = .ok g' ∧
        half.lower .standard {} = .ok g'' ∧
        g.nodes[0]? = some n ∧ g'.nodes[0]? = some n' ∧ g''.nodes[0]? = some n'' ∧
        n.attributes = n'.attributes ∧ Slice.Gives n.attributes [0] [Int64.maxValue] [1] ∧
        Slice.Gives n''.attributes [Int64.minValue] [Int64.maxValue] [1] := by
  intro most none half
  have hmost : most.Constructed :=
    ⟨Session.empty.after (longCalls ⟨0, 2 ^ 63 + 1⟩), _, most.inputs, most.outputs, "model", ⟨_, rfl⟩, rfl⟩
  have hnone : none.Constructed :=
    ⟨Session.empty.after (longCalls ⟨0, 0⟩), _, none.inputs, none.outputs, "model", ⟨_, rfl⟩, rfl⟩
  have hhalf : half.Constructed :=
    ⟨Session.empty.after (longCalls ⟨2 ^ 63, 0⟩), _, half.inputs, half.outputs, "model", ⟨_, rfl⟩, rfl⟩
  exact ⟨⟨hmost, hnone, hhalf⟩, _, _, _, _, _, _, rfl, rfl, rfl, rfl, rfl, rfl, rfl,
    gives_sliceAttributes [⟨0, 2 ^ 63 + 1⟩] .channelsLast, gives_sliceAttributes [⟨2 ^ 63, 0⟩] .channelsLast⟩

end Model
end LoweringCheck
