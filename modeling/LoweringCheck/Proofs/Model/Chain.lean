import LoweringCheck.Proofs.Model.Execution
/-!
# Chains of layers

The chain of a tensor starts at the layer that produces it and goes on with the layer that produces what
that one reads, down to a tensor that no layer produces. Layers that can run in order give every
tensor one chain.
-/
namespace LoweringCheck

/-- The layers from a tensor back to the tensor where its chain ends. -/
inductive Chain (layers : List Layer) : String → List Layer → String → Prop where
  | stop {name : String} (unproduced : ∀ layer ∈ layers, layer.output ≠ name) :
      Chain layers name [] name
  | step {layer : Layer} {path : List Layer} {root : String} (mem : layer ∈ layers)
      (rest : Chain layers layer.input path root) : Chain layers layer.output (layer :: path) root

namespace Chain
variable {layers path path' : List Layer} {name root root' : String}

/-- Where no two layers write the same tensor, a tensor has one chain. -/
theorem unique (hnodup : (layers.map (·.output)).Nodup) (h : Chain layers name path root)
    (h' : Chain layers name path' root') : path = path' ∧ root = root' := by
  induction h generalizing path' root' with
  | stop unproduced =>
    cases h' with
    | stop => exact ⟨rfl, rfl⟩
    | step mem => exact absurd rfl (unproduced _ mem)
  | @step layer rest root mem _ ih =>
    generalize hname : layer.output = name at h'
    cases h' with
    | stop unproduced => exact absurd hname (unproduced _ mem)
    | @step layer' _ _ mem' hrest =>
      have heq : layer = layer' := List.inj_on_of_nodup_map hnodup mem mem' hname
      subst heq
      have hsame := ih hrest
      exact ⟨congrArg (layer :: ·) hsame.1, hsame.2⟩

end Chain

namespace Runnable
variable {known : List String} {layers : List Layer} {name root : String} {path : List Layer}

theorem exists_chain (h : Runnable known layers)
    (hname : name ∈ known ∨ name ∈ layers.map (·.output)) :
    ∃ path, ∃ root ∈ known, Chain layers name path root := by
  apply h.induction (P := fun name => ∃ path, ∃ root ∈ known, Chain layers name path root) _ _ hname
  · intro other hother
    refine ⟨[], other, hother, .stop ?_⟩
    intro layer hlayer heq
    exact h.output_notMem hlayer (heq ▸ hother)
  · intro layer hlayer hinput
    obtain ⟨rest, root, hroot, hrest⟩ := hinput
    exact ⟨layer :: rest, root, hroot, .step hlayer hrest⟩

end Runnable

namespace Model
variable {m : Model} {name : String}

/-- The last of the inputs with a name, and its position. -/
structure LastInput (m : Model) (name : String) (k : Nat) (x : Symbolic) : Prop where
  position : m.inputs[k]? = some x
  name_eq : x.name = name
  last : ∀ (j : Nat) (y : Symbolic), k < j → m.inputs[j]? = some y → y.name ≠ name

theorem lastInput_of_lookup {α β : Type} {xs : List α} {f : Symbolic → α → β} {b : β}
    (hlength : m.inputs.length = xs.length)
    (h : (List.zipWith (fun x a => (x.name, f x a)) m.inputs xs).reverse.lookup name = some b) :
    ∃ k x a, m.LastInput name k x ∧ xs[k]? = some a ∧ f x a = b := by
  obtain ⟨k, hk, hlast⟩ := lookup_reverse_eq_some h
  obtain ⟨x, a, hx, ha, heq⟩ := List.getElem?_zipWith_eq_some.mp hk
  obtain ⟨hname, hb⟩ := Prod.mk.inj heq
  refine ⟨k, x, a, ⟨hx, hname, ?_⟩, ha, hb⟩
  intro j y hj hy
  have hlt : j < xs.length := hlength ▸ (List.getElem?_eq_some_iff.mp hy).1
  have hat : (List.zipWith (fun x a => (x.name, f x a)) m.inputs xs)[j]? =
      some (y.name, f y xs[j]) :=
    List.getElem?_zipWith_eq_some.mpr ⟨y, xs[j], hy, List.getElem?_eq_getElem hlt, rfl⟩
  exact hlast j _ hj hat

end Model
end LoweringCheck
