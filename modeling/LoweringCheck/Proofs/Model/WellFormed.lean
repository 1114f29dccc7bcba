import Mathlib.Data.List.Nodup
import LoweringCheck.Model.Basic
import LoweringCheck.Proofs.Layer.Inference
/-!
# Well-formed models

The layers of a model run one after the other: each reads a model input or the output of an earlier
layer and writes a tensor that nothing has written before. The tensors have the shapes that inference
gives them.
-/
namespace LoweringCheck

/-- Layers that can run in order once some tensors are known. -/
def Runnable : (known : List String) → List Layer → Prop
  | _, [] => True
  | known, layer :: rest =>
    layer.input ∈ known ∧ layer.output ∉ known ∧ Runnable (layer.output :: known) rest

namespace Runnable
variable {known : List String} {layers : List Layer}

theorem append_iff (known : List String) (first second : List Layer) :
    Runnable known (first ++ second) ↔
      Runnable known first ∧ Runnable ((first.map (·.output)).reverse ++ known) second := by
  induction first generalizing known with
  | nil => simp [Runnable]
  | cons layer rest ih =>
    simp only [List.cons_append, Runnable, ih, List.map_cons, List.reverse_cons, List.append_assoc]
    tauto

theorem output_notMem (h : Runnable known layers) {layer : Layer} (hl : layer ∈ layers) :
    layer.output ∉ known := by
  induction layers generalizing known with
  | nil => cases hl
  | cons first rest ih =>
    rcases List.mem_cons.mp hl with rfl | hl
    · exact h.2.1
    · exact fun hmem => ih h.2.2 hl (List.mem_cons_of_mem _ hmem)

theorem outputs_nodup (h : Runnable known layers) : (layers.map (·.output)).Nodup := by
  induction layers generalizing known with
  | nil => exact List.nodup_nil
  | cons first rest ih =>
    rw [List.map_cons, List.nodup_cons]
    refine ⟨?_, ih h.2.2⟩
    intro hmem
    obtain ⟨layer, hl, heq⟩ := List.mem_map.mp hmem
    exact output_notMem h.2.2 hl (heq ▸ List.mem_cons_self)

private theorem input_mem (h : Runnable known layers) {before after : List Layer} {layer : Layer}
    (hsplit : layers = before ++ layer :: after) :
    layer.input ∈ known ∨ layer.input ∈ before.map (·.output) := by
  subst hsplit
  have hmem := ((append_iff _ _ _).mp h).2.1
  rw [List.mem_append, List.mem_reverse] at hmem
  exact hmem.symm

theorem index_eq (h : Runnable known layers) {i j : Nat} {l k : Layer} (hl : layers[i]? = some l)
    (hk : layers[j]? = some k) (heq : l.output = k.output) : i = j := by
  obtain ⟨hi, rfl⟩ := List.getElem?_eq_some_iff.mp hl
  obtain ⟨hj, rfl⟩ := List.getElem?_eq_some_iff.mp hk
  have hnodup := h.outputs_nodup
  rw [List.nodup_iff_injective_getElem] at hnodup
  have := @hnodup ⟨i, by simpa using hi⟩ ⟨j, by simpa using hj⟩ (by simpa using heq)
  exact congrArg Fin.val this

theorem input_earlier (h : Runnable known layers) {j : Nat} {layer : Layer}
    (hj : layers[j]? = some layer) :
    layer.input ∈ known ∨ ∃ i < j, ∃ l, layers[i]? = some l ∧ l.output = layer.input := by
  obtain ⟨hlt, rfl⟩ := List.getElem?_eq_some_iff.mp hj
  have hsplit : layers = layers.take j ++ layers[j] :: layers.drop (j + 1) := by
    rw [← List.drop_eq_getElem_cons hlt, List.take_append_drop]
  refine (h.input_mem hsplit).imp_right fun hmem => ?_
  obtain ⟨l, hl, heq⟩ := List.mem_map.mp hmem
  obtain ⟨i, hi, rfl⟩ := List.mem_take_iff_getElem.mp hl
  exact ⟨i, by omega, _, List.getElem?_eq_getElem _, heq⟩

theorem induction (h : Runnable known layers) {P : String → Prop} (hknown : ∀ name ∈ known, P name)
    (hlayers : ∀ layer ∈ layers, P layer.input → P layer.output) {name : String}
    (hname : name ∈ known ∨ name ∈ layers.map (·.output)) : P name := by
  have houtput : ∀ (i : Nat) (layer : Layer), layers[i]? = some layer → P layer.output := by
    intro i
    induction i using Nat.strongRecOn with
    | ind i ih =>
      intro layer hi
      apply hlayers layer (List.mem_of_getElem? hi)
      rcases h.input_earlier hi with hmem | ⟨j, hj, l, hl, heq⟩
      · exact hknown _ hmem
      · exact heq ▸ ih j hj l hl
  rcases hname with hmem | hmem
  · exact hknown name hmem
  · obtain ⟨layer, hlayer, rfl⟩ := List.mem_map.mp hmem
    obtain ⟨i, hi⟩ := List.mem_iff_getElem?.mp hlayer
    exact houtput i layer hi

end Runnable

namespace Model

/-- The names of the tensors that enter a model. -/
def inputNames (m : Model) : List String := m.inputs.map (·.name)

/-- A model together with the declarations of its tensors. -/
structure WellFormed (m : Model) (declared : String → Option Symbolic) : Prop where
  inputs_ne_nil : m.inputs ≠ []
  outputs_ne_nil : m.outputs ≠ []
  runnable : Runnable m.inputNames m.layers
  name_eq : ∀ name x, declared name = some x → x.name = name
  positive : ∀ name x, declared name = some x → 0 ∉ x.shape
  input_declared : ∀ x ∈ m.inputs, declared x.name = some x
  output_declared : ∀ x ∈ m.outputs, declared x.name = some x
  layer_declared : ∀ layer ∈ m.layers, ∃ (x : Symbolic) (shape : List Nat),
    declared layer.input = some x ∧ layer.spec.outputShape layer.name x.shape = .ok shape ∧
      declared layer.output = some ⟨layer.output, shape, x.dtype⟩
  output_known : ∀ x ∈ m.outputs, x.name ∈ m.inputNames ∨ x.name ∈ m.layers.map (·.output)

theorem WellFormed.input_positive {m : Model} {declared : String → Option Symbolic}
    (h : m.WellFormed declared) : ∀ x ∈ m.inputs, 0 ∉ x.shape :=
  fun x hx => h.positive _ x (h.input_declared x hx)

theorem WellFormed.shape_induction {m : Model} {declared : String → Option Symbolic}
    (h : m.WellFormed declared) {P : List Nat → Prop}
    (hinputs : ∀ x ∈ m.inputs, P x.shape)
    (hlayers : ∀ layer ∈ m.layers, ∀ shape result, P shape →
      layer.spec.outputShape layer.name shape = .ok result → P result) {name : String} {x : Symbolic}
    (hname : name ∈ m.inputNames ∨ name ∈ m.layers.map (·.output))
    (hx : declared name = some x) : P x.shape := by
  have hall : ∀ x, declared name = some x → P x.shape := by
    apply h.runnable.induction (P := fun name => ∀ x, declared name = some x → P x.shape) _ _ hname
    · intro name hname x hx
      obtain ⟨y, hy, rfl⟩ := List.mem_map.mp hname
      rw [h.input_declared y hy, Option.some.injEq] at hx
      exact hx ▸ hinputs y hy
    · intro layer hlayer hinput x hx
      obtain ⟨y, shape, hy, hshape, houtput⟩ := h.layer_declared layer hlayer
      rw [houtput, Option.some.injEq] at hx
      subst hx
      exact hlayers layer hlayer y.shape shape (hinput y hy) hshape
  exact hall x hx

theorem WellFormed.addressable {m : Model} {declared : String → Option Symbolic}
    (h : m.WellFormed declared) (hinputs : ∀ x ∈ m.inputs, Shape.Addressable x.shape) {name : String}
    {x : Symbolic} (hname : name ∈ m.inputNames ∨ name ∈ m.layers.map (·.output))
    (hx : declared name = some x) : Shape.Addressable x.shape :=
  h.shape_induction hinputs (fun _ _ _ _ hs hout => LayerSpec.outputShape_addressable hout hs)
    hname hx

/-- Only layers that crop. -/
def CropsOnly (m : Model) : Prop :=
  ∀ layer ∈ m.layers, ∃ margins format, layer.spec = .cropping margins format

end Model
end LoweringCheck
