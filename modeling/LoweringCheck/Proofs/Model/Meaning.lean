import LoweringCheck.Proofs.Layer.Window
import LoweringCheck.Proofs.Model.Chain
import LoweringCheck.Proofs.Model.Trace
/-!
# What a model of croppings computes

Every value of a run is a window of the tensor that was fed for the input where its chain ends. It begins
behind all margins on the chain, axis by axis, wherever the layers have their channels.
-/
namespace LoweringCheck

/-- How much the layers of a chain take off the start of an axis, all together. -/
def beforeAlong (path : List Layer) (axis : Nat) : Nat :=
  (path.map fun layer => layer.spec.before axis).sum

namespace Model
variable {m : Model}

private theorem fed_eq_zipWith (xs : List Symbolic) (inputs : List Tensor) :
    fed xs inputs = (List.zipWith (fun x t => (x.name, t)) xs inputs).reverse := by
  rw [fed, ← List.map_uncurry_zip_eq_zipWith]
  rfl

/-- Along a chain of croppings windows are taken of windows, and the batch stays. -/
theorem CropsOnly.window_of_chain (hcrops : m.CropsOnly) {values : Values}
    (hsolved : ∀ layer ∈ m.layers, ∃ t u, values.lookup layer.input = some t ∧
      layer.spec.execute layer.name t = .ok u ∧ values.lookup layer.output = some u)
    {name root : String} {path : List Layer} (hchain : Chain m.layers name path root) {t : Tensor}
    (ht : values.lookup root = some t) :
    ∃ u, values.lookup name = some u ∧ u.IsWindow t (beforeAlong path) ∧
      u.shape.head? = t.shape.head? := by
  induction hchain with
  | stop => exact ⟨t, ht, .refl t, rfl⟩
  | @step layer rest root mem _ ih =>
    obtain ⟨v, hv, hwindow, hbatch⟩ := ih ht
    obtain ⟨v', u, hv', hu, houtput⟩ := hsolved layer mem
    have heq : v' = v := Option.some.inj (hv'.symm.trans hv)
    subst heq
    refine ⟨u, houtput, ?_, (LayerSpec.execute_batch hu).trans hbatch⟩
    obtain ⟨margins, format, hspec⟩ := hcrops layer mem
    have hsum : beforeAlong (layer :: rest) =
        fun axis => beforeAlong rest axis + layer.spec.before axis := by
      funext axis
      simp [beforeAlong, Nat.add_comm]
    rw [hsum]
    rw [hspec] at hu ⊢
    exact hwindow.trans (LayerSpec.execute_isWindow hu)

private theorem fed_last {inputs : List Tensor}
    (hinputs : List.Forall₂ (fun x t => ∃ batch, t.shape = batch :: x.shape) m.inputs inputs)
    {root : String} {t : Tensor} (ht : (fed m.inputs inputs).lookup root = some t) :
    ∃ k r batch, m.LastInput root k r ∧ inputs[k]? = some t ∧ t.shape = batch :: r.shape := by
  obtain ⟨hlength, hpairs⟩ := List.forall₂_iff_zip.mp hinputs
  rw [fed_eq_zipWith] at ht
  obtain ⟨k, r, a, hr, ha, hat⟩ := lastInput_of_lookup (f := fun _ t => t) hlength ht
  subst hat
  have hzip : (m.inputs.zip inputs)[k]? = some (r, a) :=
    List.getElem?_zip_eq_some.mpr ⟨hr.position, ha⟩
  obtain ⟨batch, hbatch⟩ := hpairs (List.mem_of_getElem? hzip)
  exact ⟨k, r, batch, hr, ha, hbatch⟩

/-- Native execution means what the declared model says. A model of croppings runs on all tensors that
have a batch before the declared shapes. Each output is a window of the tensor that is fed last for
the input where its chain ends: it has its batch, its element type and the declared shape, and begins
behind the margins of the layers on the chain. -/
theorem predict_windows (hm : m.Constructed) (hcrops : m.CropsOnly) {inputs : List Tensor}
    (hinputs : List.Forall₂ (fun x t => ∃ batch, t.shape = batch :: x.shape) m.inputs inputs) :
    ∃ outputs, m.predict inputs = .ok outputs ∧
      List.Forall₂ (fun x u => ∃ path root k r t batch, Chain m.layers x.name path root ∧
        m.LastInput root k r ∧ inputs[k]? = some t ∧ t.shape = batch :: r.shape ∧
        u.shape = batch :: x.shape ∧ u.IsWindow t (beforeAlong path)) m.outputs outputs := by
  obtain ⟨declared, h⟩ := hm.wellFormed
  obtain ⟨hlength, hpairs⟩ := List.forall₂_iff_zip.mp hinputs
  have hfits : ∀ p ∈ m.inputs.zip inputs, fits p.1.shape p.2.shape = true := fun p hp =>
    fits_iff.mpr (hpairs hp)
  obtain ⟨last, outputs, hlast, hall, hpredict⟩ := predict_crops h hcrops hlength.symm hfits
  obtain ⟨hkept, hsolved⟩ := runLayers_solves h.runnable hlast
  refine ⟨outputs, hpredict, ?_⟩
  obtain ⟨_, _, last', hlast', houtputs⟩ := predict_eq_ok.mp hpredict
  have hruns : last' = last := Except.ok.inj (hlast'.symm.trans hlast)
  subst hruns
  obtain ⟨hsame, hcollected⟩ := List.forall₂_iff_zip.mp houtputs
  refine List.forall₂_iff_zip.mpr ⟨hsame, ?_⟩
  intro x u hxu
  have hx : x ∈ m.outputs := (List.of_mem_zip hxu).1
  have hvalue : last'.lookup x.name = some u := hcollected hxu
  -- the chain of the output ends in an input, whose value was fed
  obtain ⟨path, root, hroot, hchain⟩ := h.runnable.exists_chain (h.output_known x hx)
  obtain ⟨_, t, _, ht, _⟩ := hall root (.inl hroot)
  have hfed : (fed m.inputs inputs).lookup root = some t := hkept root hroot ▸ ht
  obtain ⟨k, r, batch, hr, hat, hbatch⟩ := fed_last hinputs hfed
  -- the output is a window of that value, with its batch before the declared shape
  obtain ⟨u', hu', hwindow, hhead⟩ := hcrops.window_of_chain hsolved hchain ht
  have hu : u' = u := Option.some.inj (hu'.symm.trans hvalue)
  subst hu
  obtain ⟨y, v, hy, hv, hfit⟩ := hall x.name (h.output_known x hx)
  have hyx : y = x := Option.some.inj (hy.symm.trans (h.output_declared x hx))
  have hvu : v = u' := Option.some.inj (hv.symm.trans hvalue)
  subst hyx hvu
  obtain ⟨batch', hbatch'⟩ := fits_iff.mp hfit
  have hbatches : batch' = batch := by simpa [hbatch', hbatch] using hhead
  subst hbatches
  exact ⟨path, root, k, r, t, batch', hchain, hr, hat, hbatch, hbatch', hwindow⟩

/-- The tensor that is fed last counts, and on the axis that both layers crop the margins add up. -/
theorem predict_mixedCrops :
    let s := Tensor.zeros [7, 4, 5, 6] .u8
    let t := Tensor.zeros [2, 4, 5, 6] .i64
    let path := mixedCrops.layers.reverse
    ∃ u, mixedCrops.predict [s, t] = .ok [u] ∧ u.shape = [2, 3, 1, 3] ∧
      u.IsWindow t (beforeAlong path) ∧ (List.range 4).map (beforeAlong path) = [0, 1, 3, 0] := by
  intro s t path
  have hinputs : List.Forall₂ (fun (x : Symbolic) (t : Tensor) => ∃ batch, t.shape = batch :: x.shape)
      mixedCrops.inputs [s, t] := .cons ⟨7, rfl⟩ (.cons ⟨2, rfl⟩ .nil)
  obtain ⟨outputs, hpredict, houtputs⟩ :=
    predict_windows mixedCrops_constructed mixedCrops_cropsOnly hinputs
  obtain ⟨u, rest, hu, hrest, rfl⟩ := List.forall₂_cons_left_iff.mp houtputs
  cases hrest
  obtain ⟨path', root, k, r, t', batch, hchain, hr, ht, hbatch, hshape, hwindow⟩ := hu
  have hown : Chain mixedCrops.layers "columns:0" path "x" :=
    .step (List.mem_cons_of_mem _ List.mem_cons_self) (.step List.mem_cons_self (.stop (by decide)))
  obtain ⟨rfl, rfl⟩ := hchain.unique (by decide) hown
  -- the input stands at positions 0 and 1
  have hk : k = 1 := by
    have hlt : k < 2 := (List.getElem?_eq_some_iff.mp hr.position).1
    have hlast : ¬ k < 1 := fun hk => hr.last 1 _ hk rfl rfl
    omega
  subst hk
  cases ht
  cases hr.position
  obtain rfl : 2 = batch := (List.cons.inj hbatch).1
  exact ⟨u, hpredict, hshape, hwindow, rfl⟩

end Model
end LoweringCheck
