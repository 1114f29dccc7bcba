import LoweringCheck.Model.Predict
import LoweringCheck.Proofs.Layer.Execution
import LoweringCheck.Proofs.Lookup
import LoweringCheck.Proofs.Model.WellFormed
/-!
# Native execution

A run of a well-formed model gives every tensor a value that all layers agree with. Each value takes
its batch from the input it goes back to. A model of croppings runs on all inputs that fit.
-/
namespace LoweringCheck

/-- The tensor that layers compute a tensor from. -/
def origin (layers : List Layer) (name : String) : String :=
  layers.foldr (fun layer name => if name = layer.output then layer.input else name) name

/-- The batch of the value of a tensor. -/
def Values.batch? (values : Values) (name : String) : Option Nat :=
  (values.lookup name).bind (·.shape.head?)

/-- A tensor has a value of the declared shape. -/
def Values.Fits (values : Values) (declared : String → Option Symbolic) (name : String) : Prop :=
  ∃ x t, declared name = some x ∧ values.lookup name = some t ∧ Model.fits x.shape t.shape = true

namespace Model

theorem fits_iff {declared shape : List Nat} :
    fits declared shape = true ↔ ∃ batch, shape = batch :: declared := by
  cases shape with
  | nil => simp [fits]
  | cons batch rest => simp [fits]

/-- The values of given inputs, the last one first. -/
def fed (xs : List Symbolic) (inputs : List Tensor) : Values :=
  ((xs.zip inputs).map fun p => (p.1.name, p.2)).reverse

private theorem bindInputs_eq {pairs : List (Symbolic × Tensor)} {values : Values}
    (h : ∀ p ∈ pairs, fits p.1.shape p.2.shape = true) :
    bindInputs pairs values = .ok ((pairs.map fun p => (p.1.name, p.2)).reverse ++ values) := by
  induction pairs generalizing values with
  | nil => rfl
  | cons p rest ih =>
    rw [bindInputs, if_pos (h p List.mem_cons_self), ih fun q hq => h q (List.mem_cons_of_mem _ hq)]
    simp

theorem bindInputs_eq_ok {pairs : List (Symbolic × Tensor)} {values bound : Values}
    (h : bindInputs pairs values = .ok bound) : ∀ p ∈ pairs, fits p.1.shape p.2.shape = true := by
  induction pairs generalizing values with
  | nil => simp
  | cons p rest ih =>
    rw [bindInputs] at h
    split at h
    · rename_i hfits
      intro q hq
      rcases List.mem_cons.mp hq with rfl | hq
      · exact hfits
      · exact ih h q hq
    · cases h

theorem collect_eq_ok {values : Values} {xs : List Symbolic} {outputs : List Tensor} :
    collect values xs = .ok outputs ↔
      List.Forall₂ (fun x t => values.lookup x.name = some t) xs outputs := by
  induction xs generalizing outputs with
  | nil => simp [collect, eq_comm]
  | cons x rest ih =>
    rw [collect, List.forall₂_cons_left_iff]
    cases values.lookup x.name with
    | none => simp
    | some t =>
      cases hrest : collect values rest with
      | error e =>
        simp only [reduceCtorEq, Option.some.injEq, false_iff]
        rintro ⟨u, us, _, hus, _⟩
        rw [ih.mpr hus] at hrest
        cases hrest
      | ok ts =>
        simp only [Except.ok.injEq, Option.some.injEq]
        constructor
        · rintro rfl
          exact ⟨t, ts, rfl, ih.mp hrest, rfl⟩
        · rintro ⟨u, us, rfl, hus, rfl⟩
          have hus := ih.mpr hus
          rw [hrest, Except.ok.injEq] at hus
          rw [hus]

private theorem collect_total {declared : String → Option Symbolic} {values : Values} {xs : List Symbolic}
    (h : ∀ x ∈ xs, values.Fits declared x.name) : ∃ outputs, collect values xs = .ok outputs := by
  induction xs with
  | nil => exact ⟨[], rfl⟩
  | cons x rest ih =>
    obtain ⟨_, t, _, ht, _⟩ := h x List.mem_cons_self
    obtain ⟨ts, hts⟩ := ih fun y hy => h y (List.mem_cons_of_mem _ hy)
    exact ⟨t :: ts, by simp only [collect, ht, hts]⟩

private theorem runLayers_cons {layer : Layer} {rest : List Layer} {values last : Values} :
    runLayers (layer :: rest) values = .ok last ↔
      ∃ t u, values.lookup layer.input = some t ∧ layer.spec.execute layer.name t = .ok u ∧
        runLayers rest ((layer.output, u) :: values) = .ok last := by
  rw [runLayers]
  cases values.lookup layer.input with
  | none => simp
  | some t =>
    cases hu : layer.spec.execute layer.name t with
    | error e => simp [hu]
    | ok u => simp [hu]

/-- A run leaves known values as they are and gives every layer values that it agrees with. -/
theorem runLayers_solves {layers : List Layer} {known : List String} {values last : Values}
    (hlayers : Runnable known layers) (h : runLayers layers values = .ok last) :
    (∀ name ∈ known, last.lookup name = values.lookup name) ∧
      ∀ layer ∈ layers, ∃ t u, last.lookup layer.input = some t ∧
        layer.spec.execute layer.name t = .ok u ∧ last.lookup layer.output = some u := by
  induction layers generalizing known values with
  | nil =>
    cases h
    exact ⟨fun _ _ => rfl, by simp⟩
  | cons layer rest ih =>
    obtain ⟨t, u, ht, hu, hrest⟩ := runLayers_cons.mp h
    obtain ⟨hinput, houtput, hrunnable⟩ := hlayers
    obtain ⟨hkept, hsolved⟩ := ih hrunnable hrest
    have hold : ∀ name ∈ known, last.lookup name = values.lookup name := by
      intro name hname
      have hne : name ≠ layer.output := fun heq => houtput (heq ▸ hname)
      rw [hkept name (List.mem_cons_of_mem _ hname), lookup_cons_eq_ite, if_neg hne]
    refine ⟨hold, ?_⟩
    intro k hk
    rcases List.mem_cons.mp hk with rfl | hk
    · refine ⟨t, u, (hold _ hinput).trans ht, hu, ?_⟩
      rw [hkept _ List.mem_cons_self, lookup_cons_eq_ite, if_pos rfl]
    · exact hsolved k hk

theorem runLayers_batch {layers : List Layer} {values last : Values}
    (h : runLayers layers values = .ok last) (name : String) :
    last.batch? name = values.batch? (origin layers name) := by
  induction layers generalizing values with
  | nil =>
    cases h
    rfl
  | cons layer rest ih =>
    obtain ⟨t, u, ht, hu, hrest⟩ := runLayers_cons.mp h
    rw [ih hrest]
    show _ = values.batch? (if origin rest name = layer.output then layer.input else origin rest name)
    unfold Values.batch?
    rw [lookup_cons_eq_ite]
    split
    · rw [ht, Option.bind_some, Option.bind_some, LayerSpec.execute_batch hu]
    · rfl

/-- What every layer preserves holds after a run. -/
theorem runLayers_forall {P : Tensor → Prop} {layers : List Layer} {values last : Values}
    (hpreserved : ∀ layer ∈ layers, ∀ t u, layer.spec.execute layer.name t = .ok u → P t → P u)
    (h : runLayers layers values = .ok last) (hvalues : ∀ v ∈ values, P v.2) :
    ∀ v ∈ last, P v.2 := by
  induction layers generalizing values with
  | nil =>
    cases h
    exact hvalues
  | cons layer rest ih =>
    obtain ⟨t, u, ht, hu, hrest⟩ := runLayers_cons.mp h
    refine ih (fun k hk => hpreserved k (List.mem_cons_of_mem _ hk)) hrest fun v hv => ?_
    rcases List.mem_cons.mp hv with rfl | hv
    · exact hpreserved layer List.mem_cons_self t u hu (hvalues _ (mem_of_lookup ht))
    · exact hvalues v hv

private theorem fits_cons {declared : String → Option Symbolic} {known : List String} {values : Values}
    {output : String} {x : Symbolic} {t : Tensor} (houtput : declared output = some x)
    (hfits : fits x.shape t.shape = true) (hvalues : ∀ name ∈ known, values.Fits declared name) :
    ∀ name ∈ output :: known, Values.Fits ((output, t) :: values) declared name := by
  intro name hname
  by_cases heq : name = output
  · refine ⟨x, t, heq ▸ houtput, ?_, hfits⟩
    rw [lookup_cons_eq_ite, if_pos heq]
  · obtain ⟨y, u, hy, hu, hyu⟩ := hvalues name ((List.mem_cons.mp hname).resolve_left heq)
    refine ⟨y, u, hy, ?_, hyu⟩
    rw [lookup_cons_eq_ite, if_neg heq, hu]

/-- Croppings run where the values that are known have the declared shapes. -/
theorem runLayers_crops {declared : String → Option Symbolic} {layers : List Layer}
    {known : List String} {values : Values} (hlayers : Runnable known layers)
    (hcrops : ∀ layer ∈ layers, ∃ margins format, layer.spec = .cropping margins format)
    (hdeclared : ∀ layer ∈ layers, ∃ (x : Symbolic) (shape : List Nat),
      declared layer.input = some x ∧ layer.spec.outputShape layer.name x.shape = .ok shape ∧
        declared layer.output = some ⟨layer.output, shape, x.dtype⟩)
    (hvalues : ∀ name ∈ known, values.Fits declared name) :
    ∃ last, runLayers layers values = .ok last ∧
      ∀ name, name ∈ known ∨ name ∈ layers.map (·.output) → last.Fits declared name := by
  induction layers generalizing known values with
  | nil =>
    refine ⟨values, rfl, fun name hname => hvalues name ?_⟩
    simpa using hname
  | cons layer rest ih =>
    obtain ⟨hinput, _, hrunnable⟩ := hlayers
    obtain ⟨x, shape, hx, hshape, houtput⟩ := hdeclared layer List.mem_cons_self
    obtain ⟨margins, format, hspec⟩ := hcrops layer List.mem_cons_self
    obtain ⟨y, t, hy, ht, hfits⟩ := hvalues _ hinput
    obtain rfl : x = y := Option.some.inj (hx.symm.trans hy)
    obtain ⟨batch, hbatch⟩ := fits_iff.mp hfits
    rw [hspec] at hshape
    obtain ⟨_, u, _, _, hu, hushape⟩ := LayerSpec.execute_cropping hshape hbatch
    have hnext := fits_cons houtput (fits_iff.mpr ⟨batch, hushape⟩) hvalues
    obtain ⟨last, hlast, hall⟩ := ih hrunnable
      (fun k hk => hcrops k (List.mem_cons_of_mem _ hk))
      (fun k hk => hdeclared k (List.mem_cons_of_mem _ hk)) hnext
    refine ⟨last, runLayers_cons.mpr ⟨t, u, ht, by rw [hspec, hu], hlast⟩, ?_⟩
    intro name hname
    apply hall
    rw [List.map_cons, List.mem_cons] at hname
    rw [List.mem_cons]
    tauto

variable {m : Model}

theorem predict_eq_ok {inputs outputs : List Tensor} :
    m.predict inputs = .ok outputs ↔ inputs.length = m.inputs.length ∧
      (∀ p ∈ m.inputs.zip inputs, fits p.1.shape p.2.shape = true) ∧
      ∃ last, runLayers m.layers (fed m.inputs inputs) = .ok last ∧
        List.Forall₂ (fun x t => last.lookup x.name = some t) m.outputs outputs := by
  rw [predict]
  split
  · rename_i hlength
    constructor
    · intro h
      split at h
      · cases h
      · rename_i bound hbound
        have hfits := bindInputs_eq_ok hbound
        rw [bindInputs_eq hfits, List.append_nil, Except.ok.injEq] at hbound
        subst hbound
        split at h
        · cases h
        · rename_i last hlast
          exact ⟨hlength, hfits, last, hlast, collect_eq_ok.mp h⟩
    · rintro ⟨_, hfits, last, hlast, hcollect⟩
      rw [bindInputs_eq hfits, List.append_nil]
      simp only [fed] at hlast
      simp only [hlast]
      exact collect_eq_ok.mpr hcollect
  · rename_i hlength
    simp [hlength]

theorem predict_forall {P : Tensor → Prop} {inputs outputs : List Tensor}
    (hpreserved : ∀ layer ∈ m.layers, ∀ t u, layer.spec.execute layer.name t = .ok u → P t → P u)
    (h : m.predict inputs = .ok outputs) (hinputs : ∀ t ∈ inputs, P t) : ∀ t ∈ outputs, P t := by
  obtain ⟨_, _, last, hlast, houtputs⟩ := predict_eq_ok.mp h
  have hfed : ∀ v ∈ fed m.inputs inputs, P v.2 := by
    intro v hv
    rw [fed, List.mem_reverse] at hv
    obtain ⟨q, hq, rfl⟩ := List.mem_map.mp hv
    exact hinputs _ (List.of_mem_zip hq).2
  have hall := runLayers_forall hpreserved hlast hfed
  obtain ⟨hlength, hpairs⟩ := List.forall₂_iff_zip.mp houtputs
  intro t ht
  rw [← List.map_snd_zip (Nat.le_of_eq hlength.symm)] at ht
  obtain ⟨q, hq, rfl⟩ := List.mem_map.mp ht
  exact hall _ (mem_of_lookup (hpairs hq))

private theorem fed_names {xs : List Symbolic} {inputs : List Tensor} (h : inputs.length = xs.length) :
    (fed xs inputs).map Prod.fst = (xs.map (·.name)).reverse := by
  rw [fed, List.map_reverse, List.map_map]
  show ((xs.zip inputs).map ((·.name) ∘ Prod.fst)).reverse = _
  rw [← List.map_map, List.map_fst_zip (Nat.le_of_eq h.symm)]

private theorem fed_fits {declared : String → Option Symbolic} {xs : List Symbolic} {inputs : List Tensor}
    (hlength : inputs.length = xs.length) (hdeclared : ∀ x ∈ xs, declared x.name = some x)
    (hfits : ∀ p ∈ xs.zip inputs, fits p.1.shape p.2.shape = true) :
    ∀ name ∈ xs.map (·.name), (fed xs inputs).Fits declared name := by
  intro name hname
  have hkey : name ∈ (fed xs inputs).map Prod.fst := by rwa [fed_names hlength, List.mem_reverse]
  obtain ⟨t, ht⟩ := exists_lookup hkey
  have hmem := mem_of_lookup ht
  rw [fed, List.mem_reverse, List.mem_map] at hmem
  obtain ⟨p, hp, heq⟩ := hmem
  obtain ⟨rfl, rfl⟩ := Prod.mk.inj heq
  exact ⟨p.1, p.2, hdeclared _ (List.of_mem_zip hp).1, ht, hfits p hp⟩

/-- A model of croppings runs on all inputs that fit. Every tensor gets a value of its declared
shape. -/
theorem predict_crops {declared : String → Option Symbolic} (h : m.WellFormed declared)
    (hcrops : m.CropsOnly) {inputs : List Tensor} (hlength : inputs.length = m.inputs.length)
    (hfits : ∀ p ∈ m.inputs.zip inputs, fits p.1.shape p.2.shape = true) :
    ∃ last outputs, runLayers m.layers (fed m.inputs inputs) = .ok last ∧
      (∀ name, name ∈ m.inputNames ∨ name ∈ m.layers.map (·.output) → last.Fits declared name) ∧
      m.predict inputs = .ok outputs := by
  obtain ⟨last, hlast, hall⟩ := runLayers_crops h.runnable hcrops h.layer_declared
    (fed_fits hlength h.input_declared hfits)
  obtain ⟨outputs, houtputs⟩ :=
    collect_total fun x hx => hall x.name (h.output_known x hx)
  have hcollect := collect_eq_ok.mp houtputs
  exact ⟨last, outputs, hlast, hall, predict_eq_ok.mpr ⟨hlength, hfits, last, hlast, hcollect⟩⟩

end Model
end LoweringCheck
