import LoweringCheck.Proofs.Model.Chain
import LoweringCheck.Proofs.Model.Trace
/-!
# Assembling models

A model can be assembled exactly if the chains of all outputs end in its inputs, and it has the layers
on these chains, each once and in the order of the session. The search for them is a loop over pending
tensors, which always ends.
-/
namespace LoweringCheck

namespace Session.WellFormed
variable {s : Session}

private theorem outputs_nodup (hs : s.WellFormed) : (s.layers.map (·.output)).Nodup := by
  rw [List.nodup_iff_injective_getElem]
  intro i j hij
  have houtput : s.layers[i.val]? = some s.layers[i.val] ∧ s.layers[j.val]? = some s.layers[j.val] := by
    simp
  have hi := hs.producerIndex_output houtput.1
  have hj := hs.producerIndex_output houtput.2
  have heq : s.layers[i.val].output = s.layers[j.val].output := by simpa using hij
  rw [heq, hj] at hi
  exact Fin.ext (by simpa using hi.symm)

private theorem unproduced_of_producerIndex (hs : s.WellFormed) {name : String}
    (hnone : s.producerIndex name = .ok none) : ∀ layer ∈ s.layers, layer.output ≠ name := by
  intro layer hlayer heq
  obtain ⟨i, hi⟩ := List.mem_iff_getElem?.mp hlayer
  have hsome := hs.producerIndex_output hi
  rw [heq, hnone] at hsome
  cases hsome

theorem producerIndex_eq_none_iff (hs : s.WellFormed) {name : String} {x : Symbolic}
    (hx : s.tensor? name = some x) :
    s.producerIndex name = .ok none ↔ ∀ layer ∈ s.layers, layer.output ≠ name := by
  refine ⟨hs.unproduced_of_producerIndex, ?_⟩
  intro hunproduced
  obtain ⟨r, hr, -⟩ := Option.map_eq_some_iff.mp hx
  refine (s.producerIndex_eq_ok_iff name none).mpr ⟨r, hr, ?_⟩
  cases hproducer : r.producer with
  | none => rfl
  | some k =>
    have hk := (s.producerIndex_eq_ok_iff name (some k)).mpr ⟨r, hr, hproducer⟩
    obtain ⟨layer, hlayer, heq⟩ := hs.exists_producer hk
    exact absurd heq (hunproduced layer (List.mem_of_getElem? hlayer))

private theorem tensor?_input (hs : s.WellFormed) {layer : Layer} (hlayer : layer ∈ s.layers) :
    ∃ x, s.tensor? layer.input = some x := by
  obtain ⟨i, hi⟩ := List.mem_iff_getElem?.mp hlayer
  obtain ⟨_, r, _, hr, _⟩ := hs.layer_recorded i layer hi
  exact ⟨r.tensor, Option.map_eq_some_iff.mpr ⟨r, hr, rfl⟩⟩

end Session.WellFormed

namespace Model
variable {s : Session} {inputs : List String} {t : Trace}

/-- A search for the layers of a model, which takes the first pending tensor in each turn: it is passed
over if it has been seen, and else its layer is found and what that reads is pending next. -/
inductive Search (s : Session) (inputs : List String) :
    (pending : List String) → Trace → Except ModelError Trace → Prop where
  | done (t : Trace) : Search s inputs [] t (.ok t)
  | seen {name : String} {rest : List String} {t : Trace} {result : Except ModelError Trace}
      (again : name ∈ t.seen) (next : Search s inputs rest t result) :
      Search s inputs (name :: rest) t result
  | input {name : String} {rest : List String} {t : Trace} {result : Except ModelError Trace}
      (fresh : name ∉ t.seen) (unproduced : s.producerIndex name = .ok none) (listed : name ∈ inputs)
      (next : Search s inputs rest ⟨name :: t.seen, t.found⟩ result) :
      Search s inputs (name :: rest) t result
  | layer {name : String} {rest : List String} {t : Trace} {result : Except ModelError Trace}
      {index : Nat} {layer : Layer} (fresh : name ∉ t.seen)
      (produced : s.producerIndex name = .ok (some index)) (found : s.layers[index]? = some layer)
      (next : Search s inputs (layer.input :: rest) ⟨name :: t.seen, index :: t.found⟩ result) :
      Search s inputs (name :: rest) t result
  | missing {name : String} {rest : List String} {t : Trace} (fresh : name ∉ t.seen)
      (unproduced : s.producerIndex name = .ok none) (unlisted : name ∉ inputs) :
      Search s inputs (name :: rest) t (.error (.invalidModel (.missingInput name)))
  | unknown {name : String} {rest : List String} {t : Trace} {e : ModelError} (fresh : name ∉ t.seen)
      (unrecorded : s.producerIndex name = .error e) : Search s inputs (name :: rest) t (.error e)

private theorem Search.unique {pending : List String} {first second : Except ModelError Trace}
    (h : Search s inputs pending t first) (h' : Search s inputs pending t second) :
    second = first := by
  induction h with
  | done => cases h' with | done => rfl
  | seen again _ ih =>
    cases h' with
    | seen _ next => exact ih next
    | input fresh | layer fresh | missing fresh | unknown fresh => exact absurd again fresh
  | input fresh unproduced listed _ ih =>
    cases h' with
    | input _ _ _ next => exact ih next
    | seen again => exact absurd again fresh
    | missing _ _ unlisted => exact absurd listed unlisted
    | layer _ produced => simp [unproduced] at produced
    | unknown _ unrecorded => simp [unproduced] at unrecorded
  | @layer _ _ _ _ index layer fresh produced found _ ih =>
    cases h' with
    | layer _ produced' found' next =>
      obtain rfl : index = _ := by simpa [produced] using produced'
      obtain rfl : layer = _ := by simpa [found] using found'
      exact ih next
    | seen again => exact absurd again fresh
    | input _ unproduced | missing _ unproduced => simp [produced] at unproduced
    | unknown _ unrecorded => simp [produced] at unrecorded
  | missing fresh unproduced unlisted =>
    cases h' with
    | missing => rfl
    | seen again => exact absurd again fresh
    | input _ _ listed => exact absurd listed unlisted
    | layer _ produced => simp [unproduced] at produced
    | unknown _ unrecorded => simp [unproduced] at unrecorded
  | unknown fresh unrecorded =>
    cases h' with
    | unknown _ unrecorded' =>
      rw [unrecorded] at unrecorded'
      cases unrecorded'
      rfl
    | seen again => exact absurd again fresh
    | input _ unproduced | missing _ unproduced => simp [unrecorded] at unproduced
    | layer _ produced => simp [unrecorded] at produced

private theorem search_follow (hs : s.WellFormed) {rest : List String}
    {next : Trace → Except ModelError Trace}
    (hrest : ∀ u, Search s inputs rest u (next u)) {fuel : Nat} {name : String} (hfuel : 0 < fuel)
    (hindex : ∀ i, s.producerIndex name = .ok (some i) → i + 2 ≤ fuel) :
    Search s inputs (name :: rest) t
      (match follow s inputs fuel name t with
      | .error e => .error e
      | .ok u => next u) := by
  induction fuel generalizing name t with
  | zero => omega
  | succ fuel ih =>
    rw [follow]
    by_cases hseen : name ∈ t.seen
    · have hcontains : t.seen.contains name = true := by simpa using hseen
      simp only [hcontains, if_true]
      exact .seen hseen (hrest t)
    · have hcontains : ¬ t.seen.contains name = true := by simpa using hseen
      simp only [hcontains]
      cases hproducer : s.producerIndex name with
      | error e => exact .unknown hseen hproducer
      | ok producer =>
        cases producer with
        | none =>
          by_cases hlisted : name ∈ inputs
          · have hinput : inputs.contains name = true := by simpa using hlisted
            simp only [hinput, if_true]
            exact .input hseen hproducer hlisted (hrest _)
          · have hinput : ¬ inputs.contains name = true := by simpa using hlisted
            simp only [hinput]
            exact .missing hseen hproducer hlisted
        | some index =>
          obtain ⟨layer, hlayer, _⟩ := hs.exists_producer hproducer
          simp only [hlayer]
          have hbound := hindex index hproducer
          have hnext : ∀ j, s.producerIndex layer.input = .ok (some j) → j + 2 ≤ fuel := by
            intro j hj
            have hlt := hs.producerIndex_input_lt hlayer hj
            omega
          exact .layer hseen hproducer hlayer (ih (by omega) hnext)

/-- The search ends, whatever tensors are pending, with what tracing answers. -/
theorem search_followAll (hs : s.WellFormed) (names : List String) (t : Trace) :
    Search s inputs names t (followAll s inputs names t) := by
  induction names generalizing t with
  | nil => exact .done t
  | cons name rest ih =>
    exact search_follow hs ih (by omega) fun _ hi => hs.producerIndex_add_two_le hi

private theorem Trace.Closed.exists_chain_below (ht : t.Closed s inputs []) (hs : s.WellFormed)
    (bound : Nat) {name : String} (hname : name ∈ t.seen)
    (hbound : ∀ i, s.producerIndex name = .ok (some i) → i < bound) :
    ∃ path, ∃ root ∈ inputs, Chain s.layers name path root ∧
      ∀ layer ∈ path, layer ∈ foundBelow s t.found s.layers.length := by
  induction bound generalizing name with
  | zero =>
    rcases ht.seen name hname with ⟨hnone, hinput⟩ | ⟨i, _, hi, _⟩
    · exact ⟨[], name, hinput, .stop (hs.unproduced_of_producerIndex hnone), by simp⟩
    · exact absurd (hbound i hi) (Nat.not_lt_zero i)
  | succ bound ih =>
    rcases ht.seen name hname with ⟨hnone, hinput⟩ | ⟨i, layer, hi, hlayer, hfound, hseen⟩
    · exact ⟨[], name, hinput, .stop (hs.unproduced_of_producerIndex hnone), by simp⟩
    · obtain ⟨l, hl, rfl⟩ := hs.exists_producer hi
      obtain rfl : layer = l := Option.some.inj (hlayer.symm.trans hl)
      have hnext : ∀ j, s.producerIndex layer.input = .ok (some j) → j < bound := by
        intro j hj
        have hlt := hs.producerIndex_input_lt hlayer hj
        have hle := hbound i hi
        omega
      have hinput : layer.input ∈ t.seen := hseen.resolve_right List.not_mem_nil
      obtain ⟨path, root, hroot, hchain, hpath⟩ := ih hinput hnext
      have hmem : layer ∈ foundBelow s t.found s.layers.length :=
        mem_foundBelow.mpr ⟨i, (List.getElem?_eq_some_iff.mp hlayer).1, hfound, hlayer⟩
      have hall : ∀ l ∈ layer :: path, l ∈ foundBelow s t.found s.layers.length := by
        simpa using ⟨hmem, hpath⟩
      exact ⟨layer :: path, root, hroot, .step (List.mem_of_getElem? hlayer) hchain, hall⟩

private theorem Trace.Closed.exists_chain (ht : t.Closed s inputs []) (hs : s.WellFormed) {name : String}
    (hname : name ∈ t.seen) : ∃ path, ∃ root ∈ inputs, Chain s.layers name path root ∧
      ∀ layer ∈ path, layer ∈ foundBelow s t.found s.layers.length := by
  apply ht.exists_chain_below hs s.tensors.length hname
  intro i hi
  have hle := hs.producerIndex_add_two_le hi
  omega

/-- A chain that ends in an input is followed without a fault, and nothing off the chain is found. -/
theorem follow_chain (hs : s.WellFormed) {name root : String} {path : List Layer}
    (hchain : Chain s.layers name path root) (hroot : root ∈ inputs) {x : Symbolic}
    (hx : s.tensor? name = some x) (fuel : Nat) :
    ∃ u, follow s inputs fuel name t = .ok u ∧
      ∀ i ∈ u.found, i ∈ t.found ∨ ∃ layer ∈ path, s.layers[i]? = some layer := by
  induction hchain generalizing fuel t x with
  | @stop name unproduced =>
    cases fuel with
    | zero => exact ⟨t, rfl, fun i hi => .inl hi⟩
    | succ fuel =>
      have hnone := (hs.producerIndex_eq_none_iff hx).mpr unproduced
      rw [follow]
      split
      · exact ⟨t, rfl, fun i hi => .inl hi⟩
      · have hinput : inputs.contains name = true := by simpa using hroot
        simp only [hnone, hinput, if_true]
        exact ⟨_, rfl, fun i hi => .inl hi⟩
  | @step layer path root mem _ ih =>
    cases fuel with
    | zero => exact ⟨t, rfl, fun i hi => .inl hi⟩
    | succ fuel =>
      obtain ⟨index, hlayer⟩ := List.mem_iff_getElem?.mp mem
      obtain ⟨y, hy⟩ := hs.tensor?_input mem
      rw [follow]
      split
      · exact ⟨t, rfl, fun i hi => .inl hi⟩
      · simp only [hs.producerIndex_output hlayer, hlayer]
        obtain ⟨u, hu, hfound⟩ := ih (t := ⟨layer.output :: t.seen, index :: t.found⟩) hroot hy fuel
        refine ⟨u, hu, ?_⟩
        intro i hi
        rcases hfound i hi with hmem | ⟨l, hl, hat⟩
        · rcases List.mem_cons.mp hmem with rfl | hold
          · exact .inr ⟨layer, List.mem_cons_self, hlayer⟩
          · exact .inl hold
        · exact .inr ⟨l, List.mem_cons_of_mem _ hl, hat⟩

private theorem followAll_chains (hs : s.WellFormed) {names : List String}
    (hnames : ∀ name ∈ names, (∃ x, s.tensor? name = some x) ∧
      ∃ path, ∃ root ∈ inputs, Chain s.layers name path root) :
    ∃ u, followAll s inputs names t = .ok u ∧ ∀ i ∈ u.found, i ∈ t.found ∨
      ∃ name ∈ names, ∃ path root, Chain s.layers name path root ∧
        ∃ layer ∈ path, s.layers[i]? = some layer := by
  induction names generalizing t with
  | nil => exact ⟨t, rfl, fun i hi => .inl hi⟩
  | cons name rest ih =>
    obtain ⟨⟨x, hx⟩, path, root, hroot, hchain⟩ := hnames name List.mem_cons_self
    obtain ⟨u, hu, hfirst⟩ := follow_chain (t := t) hs hchain hroot hx (s.tensors.length + 1)
    obtain ⟨v, hv, hothers⟩ := ih (t := u) fun n hn => hnames n (List.mem_cons_of_mem _ hn)
    refine ⟨v, by rw [followAll, hu]; exact hv, ?_⟩
    intro i hi
    rcases hothers i hi with hmem | ⟨n, hn, hrest⟩
    · refine (hfirst i hmem).imp_right ?_
      intro hlayer
      exact ⟨name, List.mem_cons_self, path, root, hchain, hlayer⟩
    · exact .inr ⟨n, List.mem_cons_of_mem _ hn, hrest⟩

section Outputs
variable {inputs outputs : List Symbolic} {layers : List Layer}

private theorem followAll_outputs (hs : s.WellFormed) (houtputs : ∀ x ∈ outputs, s.tensor? x.name = some x)
    (hchains : ∀ y ∈ outputs, ∃ path root, Chain s.layers y.name path root ∧
      root ∈ inputs.map (·.name)) :
    ∃ u, followAll s (inputs.map (·.name)) (outputs.map (·.name)).reverse ⟨[], []⟩ = .ok u ∧
      ∀ i ∈ u.found, ∃ y ∈ outputs, ∃ path root, Chain s.layers y.name path root ∧
        ∃ layer ∈ path, s.layers[i]? = some layer := by
  have hnames : ∀ name ∈ (outputs.map (·.name)).reverse, (∃ x, s.tensor? name = some x) ∧
      ∃ path, ∃ root ∈ inputs.map (·.name), Chain s.layers name path root := by
    intro name hname
    obtain ⟨y, hy, rfl⟩ := List.mem_map.mp (List.mem_reverse.mp hname)
    obtain ⟨path, root, hchain, hroot⟩ := hchains y hy
    exact ⟨⟨y, houtputs y hy⟩, path, root, hroot, hchain⟩
  obtain ⟨u, hu, hsound⟩ := followAll_chains (t := ⟨[], []⟩) hs hnames
  refine ⟨u, hu, ?_⟩
  intro i hi
  rcases hsound i hi with hnil | ⟨name, hname, hchain⟩
  · cases hnil
  · obtain ⟨y, hy, rfl⟩ := List.mem_map.mp (List.mem_reverse.mp hname)
    exact ⟨y, hy, hchain⟩

/-- The layers between tensors are those on the chains of the outputs. -/
theorem layersBetween_chains (hs : s.WellFormed) (houtputs : ∀ x ∈ outputs, s.tensor? x.name = some x)
    (h : layersBetween s inputs outputs = .ok layers) :
    (∀ y ∈ outputs, ∃ path root, Chain s.layers y.name path root ∧ root ∈ inputs.map (·.name)) ∧
      ∀ layer, layer ∈ layers ↔
        ∃ y ∈ outputs, ∃ path root, Chain s.layers y.name path root ∧ layer ∈ path := by
  obtain ⟨trace, hclosed, hseen, htrace, rfl⟩ := layersBetween_eq_ok hs h
  have hfound : ∀ y ∈ outputs, ∃ path, ∃ root ∈ inputs.map (·.name),
      Chain s.layers y.name path root ∧
        ∀ layer ∈ path, layer ∈ foundBelow s trace.found s.layers.length :=
    fun y hy => hclosed.exists_chain hs (hseen y hy)
  have hchains : ∀ y ∈ outputs, ∃ path root, Chain s.layers y.name path root ∧
      root ∈ inputs.map (·.name) := by
    intro y hy
    obtain ⟨path, root, hroot, hchain, -⟩ := hfound y hy
    exact ⟨path, root, hchain, hroot⟩
  refine ⟨hchains, ?_⟩
  intro layer
  constructor
  · intro hlayer
    obtain ⟨i, -, hi, hat⟩ := mem_foundBelow.mp hlayer
    obtain ⟨u, hu, hsound⟩ := followAll_outputs hs houtputs hchains
    obtain rfl : trace = u := Except.ok.inj (htrace.symm.trans hu)
    obtain ⟨y, hy, path, root, hchain, l, hl, hlat⟩ := hsound i hi
    obtain rfl : layer = l := Option.some.inj (hat.symm.trans hlat)
    exact ⟨y, hy, path, root, hchain, hl⟩
  · rintro ⟨y, hy, path, root, hchain, hlayer⟩
    obtain ⟨path', root', -, hchain', hall⟩ := hfound y hy
    obtain ⟨rfl, -⟩ := hchain.unique hs.outputs_nodup hchain'
    exact hall layer hlayer

private theorem exists_layersBetween (hs : s.WellFormed)
    (houtputs : ∀ x ∈ outputs, s.tensor? x.name = some x)
    (hchains : ∀ y ∈ outputs, ∃ path root, Chain s.layers y.name path root ∧
      root ∈ inputs.map (·.name)) : ∃ layers, layersBetween s inputs outputs = .ok layers := by
  obtain ⟨u, hu, -⟩ := followAll_outputs hs houtputs hchains
  exact ⟨_, by rw [layersBetween, hu]⟩

end Outputs

/-- What makes two lists of tensors the inputs and outputs of a model. -/
structure Delimits (s : Session) (inputs outputs : List Symbolic) : Prop where
  inputs_ne_nil : inputs ≠ []
  outputs_ne_nil : outputs ≠ []
  recorded : ∀ x ∈ inputs ++ outputs, s.tensor? x.name = some x
  unproduced : ∀ x ∈ inputs, ∀ layer ∈ s.layers, layer.output ≠ x.name
  chains : ∀ y ∈ outputs, ∃ path root, Chain s.layers y.name path root ∧
    root ∈ inputs.map (·.name)

private theorem checkInputs_iff_unproduced (hs : s.WellFormed) {inputs : List Symbolic}
    (hinputs : ∀ x ∈ inputs, s.tensor? x.name = some x) :
    checkInputs s inputs = .ok () ↔ ∀ x ∈ inputs, ∀ layer ∈ s.layers, layer.output ≠ x.name := by
  rw [checkInputs_eq_ok_iff]
  exact forall₂_congr fun x hx => hs.producerIndex_eq_none_iff (hinputs x hx)

private theorem assemble_ok_iff_delimits (hs : s.WellFormed) {inputs outputs : List Symbolic} :
    (∃ m t, assemble s inputs outputs = (.ok m, t)) ↔ Delimits s inputs outputs := by
  constructor
  · rintro ⟨m, t, h⟩
    obtain ⟨hinputs, houtputs, hknown, hchecked, layers, hlayers, -, -⟩ :=
      Session.assemble_eq_ok_iff.mp h
    have hrecorded := checkAllKnown_eq_ok_iff.mp hknown
    have hunproduced := (checkInputs_iff_unproduced hs fun x hx =>
      hrecorded x (List.mem_append_left _ hx)).mp hchecked
    have hchains := (layersBetween_chains hs (fun x hx =>
      hrecorded x (List.mem_append_right _ hx)) hlayers).1
    exact ⟨hinputs, houtputs, hrecorded, hunproduced, hchains⟩
  · intro h
    have hchecked := (checkInputs_iff_unproduced hs fun x hx =>
      h.recorded x (List.mem_append_left _ hx)).mpr h.unproduced
    obtain ⟨layers, hlayers⟩ := exists_layersBetween hs
      (fun x hx => h.recorded x (List.mem_append_right _ hx)) h.chains
    exact ⟨_, _, Session.assemble_eq_ok_iff.mpr ⟨h.inputs_ne_nil, h.outputs_ne_nil,
      checkAllKnown_eq_ok_iff.mpr h.recorded, hchecked, layers, hlayers, rfl, rfl⟩⟩

private theorem mem_layers_of_assemble (hs : s.WellFormed) {inputs outputs : List Symbolic} {m : Model}
    {s' : Session} (h : assemble s inputs outputs = (.ok m, s')) (layer : Layer) :
    layer ∈ m.layers ↔ ∃ y ∈ outputs, ∃ path root, Chain s.layers y.name path root ∧ layer ∈ path := by
  obtain ⟨-, -, hknown, -, layers, hlayers, rfl, -⟩ := Session.assemble_eq_ok_iff.mp h
  have hrecorded : ∀ x ∈ outputs, s.tensor? x.name = some x := fun x hx =>
    checkAllKnown_eq_ok_iff.mp hknown x (List.mem_append_right _ hx)
  exact (layersBetween_chains hs hrecorded hlayers).2 layer

private theorem session_of_refused {inputs outputs : List Symbolic} {e : ModelError}
    (h : ((Session.Call.assemble inputs outputs).perform s).1 = .error e) :
    ((Session.Call.assemble inputs outputs).perform s).2 = s := by
  rcases hperform : (Session.Call.assemble inputs outputs).perform s with ⟨r, t⟩
  rw [hperform] at h
  obtain rfl : r = .error e := h
  exact Session.assemble_error (Session.answered_eq_error hperform)

private theorem exists_search (hs : s.WellFormed) (inputs outputs : List Symbolic) :
    ∃ result, (∀ r, Search s (inputs.map (·.name)) (outputs.map (·.name)).reverse ⟨[], []⟩ r ↔
        r = result) ∧
      layersBetween s inputs outputs = result.map fun t => foundBelow s t.found s.layers.length := by
  have hsearch : Search s (inputs.map (·.name)) (outputs.map (·.name)).reverse ⟨[], []⟩ _ :=
    search_followAll hs _ _
  refine ⟨_, fun r => ⟨hsearch.unique, ?_⟩, ?_⟩
  · rintro rfl
    exact hsearch
  · rw [layersBetween]
    cases followAll s (inputs.map (·.name)) (outputs.map (·.name)).reverse ⟨[], []⟩ <;> rfl

/-- Model assembly accepts exactly the tensors that delimit a model, and extracts exactly the layers on the
chains of the outputs, each once and behind the layer whose output it reads. A refused model leaves the
session, names included, as it was. The search for the layers always ends. -/
theorem assemble_extracts_chains (hs : s.Reachable) (inputs outputs : List Symbolic) :
    ((∃ m t, assemble s inputs outputs = (.ok m, t)) ↔ Delimits s inputs outputs) ∧
    (∀ (m : Model) (t : Session), assemble s inputs outputs = (.ok m, t) →
      m.inputs = inputs ∧ m.outputs = outputs ∧ m.layers.Nodup ∧
      (∀ layer, layer ∈ m.layers ↔
        ∃ y ∈ outputs, ∃ path root, Chain s.layers y.name path root ∧ layer ∈ path) ∧
      ∀ (i : Nat) (layer : Layer), m.layers[i]? = some layer →
        layer.input ∈ inputs.map (·.name) ∨ ∃ j < i, ∃ l, m.layers[j]? = some l ∧ l.output = layer.input) ∧
    (∀ e, ((Session.Call.assemble inputs outputs).perform s).1 = .error e →
      ((Session.Call.assemble inputs outputs).perform s).2 = s) ∧
    ∃ result, (∀ r, Search s (inputs.map (·.name)) (outputs.map (·.name)).reverse ⟨[], []⟩ r ↔
        r = result) ∧
      layersBetween s inputs outputs = result.map fun t => foundBelow s t.found s.layers.length := by
  have hwell := hs.wellFormed
  refine ⟨assemble_ok_iff_delimits hwell, ?_, fun e => session_of_refused,
    exists_search hwell inputs outputs⟩
  intro m t h
  have hm := assemble_wellFormed hwell h
  have hinputs : m.inputs = inputs ∧ m.outputs = outputs := by
    obtain ⟨-, -, -, -, layers, -, rfl, -⟩ := Session.assemble_eq_ok_iff.mp h
    exact ⟨rfl, rfl⟩
  refine ⟨hinputs.1, hinputs.2, hm.runnable.outputs_nodup.of_map, mem_layers_of_assemble hwell h, ?_⟩
  intro i layer hi
  rw [← hinputs.1]
  exact hm.runnable.input_earlier hi

/-- The layer after an output is left out, and no layer may begin at what another layer writes. -/
theorem assemble_mixedSession :
    let x : Symbolic := ⟨"x", [4, 5, 6], .f16⟩
    let rows : Symbolic := ⟨"rows:0", [3, 3, 6], .f16⟩
    let columns : Symbolic := ⟨"columns:0", [3, 1, 3], .f16⟩
    let s := Session.empty.after mixedCalls
    (∃ m t, assemble s [x] [rows] = (.ok m, t) ∧ m.layers.Nodup ∧
      ∀ layer ∈ m.layers, layer.output = "rows:0") ∧
      Delimits s [x] [rows] ∧ ¬ Delimits s [rows] [columns] ∧
      ((Session.Call.assemble [rows] [columns]).perform s).2 = s := by
  intro x rows columns s
  have hs : s.Reachable := ⟨mixedCalls, rfl⟩
  have haccepted : ∃ m t, assemble s [x] [rows] = (.ok m, t) := ⟨_, _, rfl⟩
  have hrefused : ((Session.Call.assemble [rows] [columns]).perform s).1 =
      .error (.invalidModel (.producedInput "rows:0")) := rfl
  obtain ⟨hfirst, hextracts, -, -⟩ := assemble_extracts_chains hs [x] [rows]
  obtain ⟨hsecond, -, hkept, -⟩ := assemble_extracts_chains hs [rows] [columns]
  refine ⟨?_, hfirst.mp haccepted, ?_, hkept _ hrefused⟩
  · obtain ⟨m, t, hm⟩ := haccepted
    obtain ⟨-, -, hnodup, hlayers, -⟩ := hextracts m t hm
    refine ⟨m, t, hm, hnodup, ?_⟩
    intro layer hlayer
    obtain ⟨y, hy, path, root, hchain, hpath⟩ := (hlayers layer).mp hlayer
    obtain rfl : y = rows := List.mem_singleton.mp hy
    have hown : Chain mixedCrops.layers "rows:0" (mixedCrops.layers.take 1) "x" :=
      .step List.mem_cons_self (.stop (by decide))
    obtain ⟨rfl, -⟩ := hchain.unique hs.wellFormed.outputs_nodup hown
    obtain rfl := List.mem_singleton.mp hpath
    rfl
  · intro hdelimits
    obtain ⟨m, t, hm⟩ := hsecond.mpr hdelimits
    cases hm

end Model
end LoweringCheck
