import Mathlib.Data.List.Sublists
import LoweringCheck.Proofs.Model.WellFormed
import LoweringCheck.Proofs.Session.Invariant
/-!
# Tracing models out of sessions

Tracing outputs back sees exactly what is on their chains: every tensor that was seen is a model input,
or a layer was found for it and the input of that layer was seen as well. The positions of layers fall
along a chain, which bounds its length and makes the order of the session an order of execution.
-/
namespace LoweringCheck

theorem Session.producerIndex_eq_ok_iff (s : Session) (name : String) (k : Option Nat) :
    s.producerIndex name = .ok k ↔ ∃ r, s.record? name = some r ∧ r.producer = k := by
  unfold producerIndex
  cases s.record? name <;> simp

theorem Session.WellFormed.producerIndex_output {s : Session} (hs : s.WellFormed) {i : Nat}
    {layer : Layer} (hlayer : s.layers[i]? = some layer) :
    s.producerIndex layer.output = .ok (some i) := by
  obtain ⟨_, _, _, _, _, _, hr⟩ := hs.layer_recorded i layer hlayer
  exact (s.producerIndex_eq_ok_iff _ _).mpr ⟨_, hr, rfl⟩

theorem Session.WellFormed.exists_producer {s : Session} (hs : s.WellFormed) {i : Nat} {name : String}
    (hi : s.producerIndex name = .ok (some i)) :
    ∃ layer, s.layers[i]? = some layer ∧ layer.output = name := by
  obtain ⟨r, hr, hproducer⟩ := (s.producerIndex_eq_ok_iff _ _).mp hi
  obtain ⟨layer, hlayer, hout⟩ := hs.producer_layer r ((hs.keyed _ _).mp hr).1 i hproducer
  exact ⟨layer, hlayer, hout.trans (Session.name_of_record? hr)⟩

theorem Session.WellFormed.producerIndex_input_lt {s : Session} (hs : s.WellFormed) {i j : Nat}
    {layer : Layer} (hlayer : s.layers[i]? = some layer)
    (hj : s.producerIndex layer.input = .ok (some j)) : j < i := by
  obtain ⟨_, r, _, hr, hbefore, _, _⟩ := hs.layer_recorded i layer hlayer
  obtain ⟨q, hq, hj⟩ := (s.producerIndex_eq_ok_iff _ _).mp hj
  rw [hr] at hq
  cases hq
  exact hbefore j hj

private theorem Session.WellFormed.layers_length_le {s : Session} (h : s.WellFormed) :
    s.layers.length ≤ s.tensors.length := by
  have hnodup : (s.layers.map fun l => l.name ++ ":0").Nodup := by
    have hinj : Function.Injective fun name : String => name ++ ":0" :=
      fun a b hab => (String.append_left_inj _).mp hab
    simpa [List.map_map, Function.comp_def] using h.layer_names_nodup.map hinj
  have hsubset : (s.layers.map fun l => l.name ++ ":0") ⊆ s.tensors.map (·.tensor.name) := by
    intro name hname
    obtain ⟨layer, hl, rfl⟩ := List.mem_map.mp hname
    obtain ⟨i, hi⟩ := List.mem_iff_getElem?.mp hl
    obtain ⟨houtput, r, shape, _, _, _, hr⟩ := h.layer_recorded i layer hi
    rw [← houtput]
    exact List.mem_map.mpr ⟨_, ((h.keyed _ _).mp hr).1, rfl⟩
  simpa using (List.subperm_of_subset hnodup hsubset).length_le

/-- The fuel for following a chain suffices, wherever the chain starts. -/
theorem Session.WellFormed.producerIndex_add_two_le {s : Session} (hs : s.WellFormed) {name : String}
    {i : Nat} (hi : s.producerIndex name = .ok (some i)) : i + 2 ≤ s.tensors.length + 1 := by
  obtain ⟨layer, hlayer, _⟩ := hs.exists_producer hi
  have hlt := (List.getElem?_eq_some_iff.mp hlayer).1
  have hle := hs.layers_length_le
  omega

namespace Model

/-- What tracing keeps while the tensors in `pending` are still to be traced. -/
structure Trace.Closed (s : Session) (inputs pending : List String) (t : Trace) : Prop where
  seen : ∀ name ∈ t.seen,
    s.producerIndex name = .ok none ∧ name ∈ inputs ∨
      ∃ i layer, s.producerIndex name = .ok (some i) ∧ s.layers[i]? = some layer ∧ i ∈ t.found ∧
        (layer.input ∈ t.seen ∨ layer.input ∈ pending)
  found : ∀ i ∈ t.found, ∃ name ∈ t.seen, s.producerIndex name = .ok (some i)

namespace Trace.Closed
variable {s : Session} {inputs : List String} {t : Trace} {name : String}

private theorem weaken (h : t.Closed s inputs []) (pending : List String) : t.Closed s inputs pending := by
  refine ⟨fun other hother => (h.seen other hother).imp_right ?_, h.found⟩
  rintro ⟨i, layer, hi, hlayer, hfound, hinput | hinput⟩
  · exact ⟨i, layer, hi, hlayer, hfound, .inl hinput⟩
  · cases hinput

private theorem settled (h : t.Closed s inputs [name]) (hname : name ∈ t.seen) : t.Closed s inputs [] := by
  refine ⟨fun other hother => (h.seen other hother).imp_right ?_, h.found⟩
  rintro ⟨i, layer, hi, hlayer, hfound, hinput | hinput⟩
  · exact ⟨i, layer, hi, hlayer, hfound, .inl hinput⟩
  · rw [List.mem_singleton] at hinput
    exact ⟨i, layer, hi, hlayer, hfound, .inl (hinput ▸ hname)⟩

private theorem see_input (h : t.Closed s inputs [name]) (hindex : s.producerIndex name = .ok none)
    (hname : name ∈ inputs) : (⟨name :: t.seen, t.found⟩ : Trace).Closed s inputs [] := by
  refine ⟨?_, fun i hi => ?_⟩
  · intro other hother
    rcases List.mem_cons.mp hother with rfl | hother
    · exact .inl ⟨hindex, hname⟩
    · refine (h.seen other hother).imp_right ?_
      rintro ⟨i, layer, hi, hlayer, hfound, hinput⟩
      refine ⟨i, layer, hi, hlayer, hfound, .inl (List.mem_cons.mpr ?_)⟩
      exact hinput.symm.imp_left List.mem_singleton.mp
  · obtain ⟨other, hother, hi⟩ := h.found i hi
    exact ⟨other, List.mem_cons_of_mem _ hother, hi⟩

private theorem see_output (h : t.Closed s inputs [name]) {index : Nat} {layer : Layer}
    (hindex : s.producerIndex name = .ok (some index)) (hlayer : s.layers[index]? = some layer) :
    (⟨name :: t.seen, index :: t.found⟩ : Trace).Closed s inputs [layer.input] := by
  refine ⟨?_, ?_⟩
  · intro other hother
    rcases List.mem_cons.mp hother with rfl | hother
    · exact .inr ⟨index, layer, hindex, hlayer, List.mem_cons_self, .inr List.mem_cons_self⟩
    · refine (h.seen other hother).imp_right ?_
      rintro ⟨i, l, hi, hl, hfound, hinput⟩
      refine ⟨i, l, hi, hl, List.mem_cons_of_mem _ hfound, .inl (List.mem_cons.mpr ?_)⟩
      exact hinput.symm.imp_left List.mem_singleton.mp
  · intro i hi
    rcases List.mem_cons.mp hi with rfl | hi
    · exact ⟨name, List.mem_cons_self, hindex⟩
    · obtain ⟨other, hother, hi⟩ := h.found i hi
      exact ⟨other, List.mem_cons_of_mem _ hother, hi⟩

private theorem input_or_output (h : t.Closed s inputs []) (hs : s.WellFormed) (hname : name ∈ t.seen) :
    name ∈ inputs ∨ ∃ i layer, s.producerIndex name = .ok (some i) ∧ s.layers[i]? = some layer ∧
      i ∈ t.found ∧ layer.output = name := by
  rcases h.seen name hname with ⟨_, hinput⟩ | ⟨i, layer, hi, hlayer, hfound, _⟩
  · exact .inl hinput
  · obtain ⟨l, hl, hout⟩ := hs.exists_producer hi
    rw [hlayer, Option.some.injEq] at hl
    exact .inr ⟨i, layer, hi, hlayer, hfound, hl ▸ hout⟩

private theorem input_seen (h : t.Closed s inputs []) {i : Nat} {layer : Layer} (hfound : i ∈ t.found)
    (hlayer : s.layers[i]? = some layer) : layer.input ∈ t.seen := by
  obtain ⟨name, hname, hi⟩ := h.found i hfound
  rcases h.seen name hname with ⟨hnone, _⟩ | ⟨j, l, hj, hl, _, hinput⟩
  · rw [hnone] at hi
    cases hi
  · rw [hi] at hj
    cases hj
    rw [hlayer] at hl
    cases hl
    exact hinput.resolve_right List.not_mem_nil

end Trace.Closed

/-- The fuel suffices as long as it exceeds the position of the layer that is found next by two. -/
theorem follow_closed {s : Session} (hs : s.WellFormed) {inputs : List String} {fuel : Nat}
    {name : String} {t u : Trace} (hfuel : 0 < fuel)
    (hindex : ∀ i, s.producerIndex name = .ok (some i) → i + 2 ≤ fuel)
    (hclosed : t.Closed s inputs [name]) (h : follow s inputs fuel name t = .ok u) :
    u.Closed s inputs [] ∧ name ∈ u.seen ∧ t.seen ⊆ u.seen := by
  induction fuel generalizing name t with
  | zero => omega
  | succ fuel ih =>
    rw [follow] at h
    split at h
    · rename_i hseen
      rw [Except.ok.injEq] at h
      subst h
      have hmem : name ∈ t.seen := by simpa using hseen
      exact ⟨hclosed.settled hmem, hmem, List.Subset.refl _⟩
    · simp only at h
      split at h
      · cases h
      · rename_i hnone
        split at h
        · rename_i hinput
          cases h
          exact ⟨hclosed.see_input hnone (by simpa using hinput), List.mem_cons_self,
            List.subset_cons_self _ _⟩
        · cases h
      · rename_i index hsome
        obtain ⟨layer, hlayer, _⟩ := hs.exists_producer hsome
        simp only [hlayer] at h
        have hbound := hindex index hsome
        have hnext : ∀ j, s.producerIndex layer.input = .ok (some j) → j + 2 ≤ fuel := by
          intro j hj
          have := hs.producerIndex_input_lt hlayer hj
          omega
        obtain ⟨hu, _, hsub⟩ := ih (by omega) hnext (hclosed.see_output hsome hlayer) h
        exact ⟨hu, hsub List.mem_cons_self, List.Subset.trans (List.subset_cons_self _ _) hsub⟩

private theorem followAll_closed {s : Session} (hs : s.WellFormed) {inputs names : List String}
    {t u : Trace} (hclosed : t.Closed s inputs [])
    (h : followAll s inputs names t = .ok u) :
    u.Closed s inputs [] ∧ (∀ name ∈ names, name ∈ u.seen) ∧ t.seen ⊆ u.seen := by
  induction names generalizing t with
  | nil =>
    cases h
    exact ⟨hclosed, by simp, List.Subset.refl _⟩
  | cons name rest ih =>
    rw [followAll] at h
    split at h
    · cases h
    · rename_i v hv
      obtain ⟨hv, hname, hsub⟩ := follow_closed hs (by omega)
        (fun _ hi => hs.producerIndex_add_two_le hi) (hclosed.weaken _) hv
      obtain ⟨hu, hrest, hsub'⟩ := ih hv h
      refine ⟨hu, ?_, List.Subset.trans hsub hsub'⟩
      intro other hother
      rcases List.mem_cons.mp hother with rfl | hother
      · exact hsub' hname
      · exact hrest other hother

/-- The layers that were found below a position, in the order of the session. -/
def foundBelow (s : Session) (found : List Nat) (k : Nat) : List Layer :=
  ((List.range k).filter found.contains).filterMap (s.layers[·]?)

theorem mem_foundBelow {s : Session} {found : List Nat} {k : Nat} {layer : Layer} :
    layer ∈ foundBelow s found k ↔ ∃ i < k, i ∈ found ∧ s.layers[i]? = some layer := by
  simp only [foundBelow, List.mem_filterMap, List.mem_filter, List.mem_range, List.contains_iff_mem,
    and_assoc]

private theorem foundBelow_succ {s : Session} {found : List Nat} {k : Nat} {layer : Layer}
    (hlayer : s.layers[k]? = some layer) (hk : k ∈ found) :
    foundBelow s found (k + 1) = foundBelow s found k ++ [layer] := by
  simp [foundBelow, List.range_succ, List.filter_append, hk, hlayer]

private theorem foundBelow_succ_of_notMem {s : Session} {found : List Nat} {k : Nat} (hk : k ∉ found) :
    foundBelow s found (k + 1) = foundBelow s found k := by
  simp [foundBelow, List.range_succ, List.filter_append, hk]

section Order
variable {s : Session} {inputs : List String} {t : Trace} {k : Nat} {layer : Layer}

private theorem input_of_found (hs : s.WellFormed) (ht : t.Closed s inputs []) (hfound : k ∈ t.found)
    (hlayer : s.layers[k]? = some layer) :
    layer.input ∈ inputs ∨ layer.input ∈ (foundBelow s t.found k).map (·.output) := by
  refine (ht.input_or_output hs (ht.input_seen hfound hlayer)).imp_right ?_
  rintro ⟨j, l, hj, hl, hjfound, hout⟩
  exact List.mem_map.mpr
    ⟨l, mem_foundBelow.mpr ⟨j, hs.producerIndex_input_lt hlayer hj, hjfound, hl⟩, hout⟩

private theorem output_notMem_foundBelow (hs : s.WellFormed) (found : List Nat)
    (hlayer : s.layers[k]? = some layer) :
    layer.output ∉ (foundBelow s found k).map (·.output) := by
  intro hmem
  obtain ⟨l, hl, heq⟩ := List.mem_map.mp hmem
  obtain ⟨i, hi, _, hl⟩ := mem_foundBelow.mp hl
  have hproduced := hs.producerIndex_output hl
  rw [heq, hs.producerIndex_output hlayer] at hproduced
  cases hproduced
  exact Nat.lt_irrefl k hi

/-- The layers that a closed trace has found run in the order of the session. -/
theorem runnable_foundBelow (hs : s.WellFormed) (ht : t.Closed s inputs [])
    (hinputs : ∀ name ∈ inputs, s.producerIndex name = .ok none) (hk : k ≤ s.layers.length) :
    Runnable inputs (foundBelow s t.found k) := by
  induction k with
  | zero => trivial
  | succ k ih =>
    have hbelow := ih (by omega)
    by_cases hfound : k ∈ t.found
    · have hlayer : s.layers[k]? = some s.layers[k] := List.getElem?_eq_getElem hk
      rw [foundBelow_succ hlayer hfound, Runnable.append_iff]
      refine ⟨hbelow, ?_, ?_, trivial⟩
      · rw [List.mem_append, List.mem_reverse]
        exact (input_of_found hs ht hfound hlayer).symm
      · rw [List.mem_append, List.mem_reverse, not_or]
        refine ⟨output_notMem_foundBelow hs t.found hlayer, ?_⟩
        intro hmem
        have hproduced := hs.producerIndex_output hlayer
        rw [hinputs _ hmem] at hproduced
        cases hproduced
    · rw [foundBelow_succ_of_notMem hfound]
      exact hbelow

end Order

theorem checkAllKnown_eq_ok_iff {s : Session} {xs : List Symbolic} :
    checkAllKnown s xs = .ok () ↔ ∀ x ∈ xs, s.tensor? x.name = some x := by
  induction xs with
  | nil => simp [checkAllKnown]
  | cons x rest ih =>
    rw [checkAllKnown, List.forall_mem_cons, ← ih, ← s.checkKnown_eq_ok_iff]
    cases s.checkKnown x <;> simp

theorem checkInputs_eq_ok_iff {s : Session} {xs : List Symbolic} :
    checkInputs s xs = .ok () ↔ ∀ x ∈ xs, s.producerIndex x.name = .ok none := by
  induction xs with
  | nil => simp [checkInputs]
  | cons x rest ih =>
    rw [checkInputs, List.forall_mem_cons, ← ih]
    rcases s.producerIndex x.name with _ | _ | _ <;> simp

/-- The layers between tensors are those that a closed trace of the outputs has found. -/
theorem layersBetween_eq_ok {s : Session} (hs : s.WellFormed) {inputs outputs : List Symbolic}
    {layers : List Layer} (h : layersBetween s inputs outputs = .ok layers) :
    ∃ t : Trace, t.Closed s (inputs.map (·.name)) [] ∧ (∀ x ∈ outputs, x.name ∈ t.seen) ∧
      followAll s (inputs.map (·.name)) (outputs.map (·.name)).reverse ⟨[], []⟩ = .ok t ∧
      layers = foundBelow s t.found s.layers.length := by
  unfold layersBetween at h
  split at h
  · cases h
  · rename_i trace htrace
    cases h
    have hstart : (⟨[], []⟩ : Trace).Closed s (inputs.map (·.name)) [] :=
      ⟨fun _ h => absurd h List.not_mem_nil, fun _ h => absurd h List.not_mem_nil⟩
    obtain ⟨hclosed, hseen, _⟩ := followAll_closed hs hstart htrace
    refine ⟨trace, hclosed, ?_, htrace, rfl⟩
    intro x hx
    exact hseen x.name (List.mem_reverse.mpr (List.mem_map_of_mem hx))

theorem assemble_wellFormed {s t : Session} (hs : s.WellFormed) {inputs outputs : List Symbolic}
    {m : Model} (h : assemble s inputs outputs = (.ok m, t)) : m.WellFormed s.tensor? := by
  obtain ⟨hinputs, houtputs, hknown, hchecked, layers, hlayers, rfl, rfl⟩ :=
    Session.assemble_eq_ok_iff.mp h
  have hnone : ∀ name ∈ inputs.map (·.name), s.producerIndex name = .ok none := by
    intro name hname
    obtain ⟨x, hx, rfl⟩ := List.mem_map.mp hname
    exact checkInputs_eq_ok_iff.mp hchecked x hx
  have hdeclared := checkAllKnown_eq_ok_iff.mp hknown
  obtain ⟨trace, hclosed, hseen, -, rfl⟩ := layersBetween_eq_ok hs hlayers
  refine ⟨hinputs, houtputs, runnable_foundBelow hs hclosed hnone le_rfl, ?_, ?_, ?_, ?_, ?_, ?_⟩
  · intro name x hx
    obtain ⟨r, hr, rfl⟩ := Option.map_eq_some_iff.mp hx
    exact Session.name_of_record? hr
  · intro name x hx
    obtain ⟨r, hr, rfl⟩ := Option.map_eq_some_iff.mp hx
    exact hs.positive r ((hs.keyed _ _).mp hr).1
  · exact fun x hx => hdeclared x (List.mem_append_left _ hx)
  · exact fun x hx => hdeclared x (List.mem_append_right _ hx)
  · intro layer hl
    obtain ⟨i, _, _, hlayer⟩ := mem_foundBelow.mp hl
    obtain ⟨_, r, shape, hr, _, hshape, hout⟩ := hs.layer_recorded i layer hlayer
    exact ⟨r.tensor, shape, Option.map_eq_some_iff.mpr ⟨r, hr, rfl⟩, hshape,
      Option.map_eq_some_iff.mpr ⟨_, hout, rfl⟩⟩
  · intro x hx
    refine (hclosed.input_or_output hs (hseen x hx)).imp_right ?_
    rintro ⟨i, layer, _, hl, hfound, hout⟩
    have hlt := (List.getElem?_eq_some_iff.mp hl).1
    exact List.mem_map.mpr ⟨layer, mem_foundBelow.mpr ⟨i, hlt, hfound, hl⟩, hout⟩

/-- A model cut out of a session that calls have made; it may have been renamed afterwards. -/
def Constructed (m : Model) : Prop :=
  ∃ (s t : Session) (inputs outputs : List Symbolic) (name : String), s.Reachable ∧
    assemble s inputs outputs = (.ok { m with name := name }, t)

theorem Constructed.wellFormed {m : Model} (h : m.Constructed) :
    ∃ declared, m.WellFormed declared := by
  obtain ⟨s, t, inputs, outputs, name, hs, h⟩ := h
  obtain ⟨h1, h2, h3, h4, h5, h6, h7, h8, h9⟩ := assemble_wellFormed hs.wellFormed h
  exact ⟨s.tensor?, h1, h2, h3, h4, h5, h6, h7, h8, h9⟩

/-- One row less of three, next to the input itself. -/
def rowCrop : Model where
  name := "model"
  inputs := [⟨"x", [3, 1], .f32⟩]
  outputs := [⟨"x", [3, 1], .f32⟩, ⟨"crop:0", [2, 1], .f32⟩]
  layers := [⟨"crop", .cropping [⟨1, 0⟩] .channelsLast, "x", "crop:0"⟩]

theorem rowCrop_constructed : rowCrop.Constructed := by
  let x : Symbolic := ⟨"x", [3, 1], .f32⟩
  let calls : List Session.Call := [.input [3, 1] .f32 "x",
    @Session.Call.crop 1 { margins := #v[⟨1, 0⟩], name := some "crop" } x]
  exact ⟨Session.empty.after calls, _, [x], [x, ⟨"crop:0", [2, 1], .f32⟩], "model", ⟨calls, rfl⟩, rfl⟩

theorem rowCrop_cropsOnly : rowCrop.CropsOnly := by
  intro layer hlayer
  obtain rfl := List.mem_singleton.mp hlayer
  exact ⟨_, _, rfl⟩

/-- A crop with the channels last and one with the channels first after it. -/
def mixedCalls : List Session.Call :=
  [.input [4, 5, 6] .f16 "x",
    @Session.Call.crop 2 { margins := #v[⟨1, 0⟩, ⟨2, 0⟩], name := some "rows" }
      ⟨"x", [4, 5, 6], .f16⟩,
    @Session.Call.crop 2
      { margins := #v[⟨1, 1⟩, ⟨0, 3⟩], format := .channelsFirst, name := some "columns" }
      ⟨"rows:0", [3, 3, 6], .f16⟩]

/-- The model of both crops, with its input listed twice. -/
def mixedCrops : Model where
  name := "model"
  inputs := [⟨"x", [4, 5, 6], .f16⟩, ⟨"x", [4, 5, 6], .f16⟩]
  outputs := [⟨"columns:0", [3, 1, 3], .f16⟩]
  layers := [⟨"rows", .cropping [⟨1, 0⟩, ⟨2, 0⟩] .channelsLast, "x", "rows:0"⟩,
    ⟨"columns", .cropping [⟨1, 1⟩, ⟨0, 3⟩] .channelsFirst, "rows:0", "columns:0"⟩]

theorem mixedCrops_constructed : mixedCrops.Constructed :=
  ⟨Session.empty.after mixedCalls, _, mixedCrops.inputs, mixedCrops.outputs, "model",
    ⟨mixedCalls, rfl⟩, rfl⟩

theorem mixedCrops_cropsOnly : mixedCrops.CropsOnly := by
  intro layer hlayer
  rcases List.mem_cons.mp hlayer with rfl | hlayer
  · exact ⟨_, _, rfl⟩
  · obtain rfl := List.mem_singleton.mp hlayer
    exact ⟨_, _, rfl⟩

end Model
end LoweringCheck
