import Mathlib.Data.List.Nodup
import LoweringCheck.Proofs.Layer.Inference
import LoweringCheck.Proofs.Session.Calls
/-!
# The invariant of sessions

The two tables of a session belong together: layer `i` produces a recorded tensor that knows `i`, and
reads one that is recorded before. Every change of the tables keeps this, so it holds after all calls.
-/
namespace LoweringCheck.Session

/-- Layer `i` reads a recorded tensor that is an input or the output of an earlier layer, and writes
the recorded tensor that is inferred from it. -/
structure LayerRecorded (s : Session) (i : Nat) (layer : Layer) : Prop where
  output_eq : layer.output = layer.name ++ ":0"
  records : ∃ (r : Record) (shape : List Nat), s.record? layer.input = some r ∧
    (∀ j, r.producer = some j → j < i) ∧
    layer.spec.outputShape layer.name r.tensor.shape = .ok shape ∧
    s.record? layer.output = some ⟨⟨layer.output, shape, r.tensor.dtype⟩, some i⟩

structure WellFormed (s : Session) : Prop where
  /-- each record is found under the name of its tensor, and nowhere else -/
  keyed : ∀ name r, s.record? name = some r ↔ r ∈ s.tensors ∧ r.tensor.name = name
  names_nodup : (s.tensors.map (·.tensor.name)).Nodup
  layer_names_nodup : (s.layers.map (·.name)).Nodup
  layer_recorded : ∀ i layer, s.layers[i]? = some layer → s.LayerRecorded i layer
  producer_layer : ∀ r ∈ s.tensors, ∀ k, r.producer = some k →
    ∃ layer, s.layers[k]? = some layer ∧ layer.output = r.tensor.name
  positive : ∀ r ∈ s.tensors, 0 ∉ r.tensor.shape

/-- A session that calls can make of an empty one. -/
def Reachable (s : Session) : Prop := ∃ calls, s = empty.after calls

private theorem record?_append (s : Session) (counts : List (String × Nat)) (layers : List Layer)
    (r : Record) (name : String) (fresh : s.record? r.tensor.name = none) :
    (⟨counts, s.tensors ++ [r], layers⟩ : Session).record? name =
      if r.tensor.name = name then some r else s.record? name := by
  simp only [record?, List.find?_append]
  by_cases h : r.tensor.name = name
  · subst h
    rw [show s.tensors.find? (·.tensor.name == r.tensor.name) = none from fresh]
    simp
  · simp [h]

theorem name_of_record? {s : Session} {name : String} {r : Record}
    (h : s.record? name = some r) : r.tensor.name = name := by
  simpa using List.find?_some h

private theorem WellFormed.empty : empty.WellFormed where
  keyed := by simp [record?, Session.empty]
  names_nodup := List.nodup_nil
  layer_names_nodup := List.nodup_nil
  layer_recorded := by simp [Session.empty]
  producer_layer := by simp [Session.empty]
  positive := by simp [Session.empty]

private theorem WellFormed.of_sameTables {s t : Session} (h : s.WellFormed) (same : s.SameTables t) :
    t.WellFormed := by
  obtain ⟨counts, tensors, layers⟩ := t
  obtain ⟨rfl, rfl⟩ := same
  exact ⟨h.keyed, h.names_nodup, h.layer_names_nodup,
    fun i layer hi => ⟨(h.layer_recorded i layer hi).output_eq, (h.layer_recorded i layer hi).records⟩,
    h.producer_layer, h.positive⟩

section Adding
variable {s : Session} {counts : List (String × Nat)} {layers : List Layer} {r : Record}

private theorem keyed_append (h : s.WellFormed) (fresh : s.record? r.tensor.name = none)
    (name : String) (q : Record) :
    (⟨counts, s.tensors ++ [r], layers⟩ : Session).record? name = some q ↔
      q ∈ s.tensors ++ [r] ∧ q.tensor.name = name := by
  rw [record?_append s counts layers r name fresh, List.mem_append, List.mem_singleton]
  split
  · rename_i hname
    subst hname
    constructor
    · rintro ⟨⟩
      exact ⟨.inr rfl, rfl⟩
    · rintro ⟨hq | rfl, hname⟩
      · have := (h.keyed _ q).mpr ⟨hq, hname⟩
        rw [fresh] at this
        cases this
      · rfl
  · rename_i hname
    rw [h.keyed]
    constructor
    · rintro ⟨hq, rfl⟩
      exact ⟨.inl hq, rfl⟩
    · rintro ⟨hq | rfl, rfl⟩
      · exact ⟨hq, rfl⟩
      · exact absurd rfl hname

private theorem names_nodup_append (h : s.WellFormed) (fresh : s.record? r.tensor.name = none) :
    ((s.tensors ++ [r]).map (·.tensor.name)).Nodup := by
  rw [List.map_append, List.map_singleton, ← List.concat_eq_append]
  refine h.names_nodup.concat ?_
  intro hmem
  obtain ⟨q, hq, heq⟩ := List.mem_map.mp hmem
  have := (h.keyed _ q).mpr ⟨hq, heq⟩
  rw [fresh] at this
  cases this

private theorem positive_append (h : s.WellFormed) (positive : 0 ∉ r.tensor.shape) :
    ∀ q ∈ s.tensors ++ [r], 0 ∉ q.tensor.shape := by
  intro q hq
  rcases List.mem_append.mp hq with hq | hq
  · exact h.positive q hq
  · rw [List.mem_singleton] at hq
    subst hq
    exact positive

private theorem record?_append_of_some (fresh : s.record? r.tensor.name = none) {name : String}
    {q : Record} (hq : s.record? name = some q) :
    (⟨counts, s.tensors ++ [r], layers⟩ : Session).record? name = some q := by
  rw [record?_append s counts layers r name fresh, if_neg, hq]
  rintro rfl
  rw [fresh] at hq
  cases hq

private theorem LayerRecorded.append {i : Nat} {layer : Layer} (h : s.LayerRecorded i layer)
    (fresh : s.record? r.tensor.name = none) :
    (⟨counts, s.tensors ++ [r], layers⟩ : Session).LayerRecorded i layer := by
  obtain ⟨q, shape, hq, hbefore, hshape, hout⟩ := h.records
  exact ⟨h.output_eq, q, shape, record?_append_of_some fresh hq, hbefore, hshape,
    record?_append_of_some fresh hout⟩

end Adding

private theorem WellFormed.addInput {s : Session} (h : s.WellFormed) {counts : List (String × Nat)}
    {x : Symbolic} (fresh : s.record? x.name = none) (positive : 0 ∉ x.shape) :
    (⟨counts, s.tensors ++ [⟨x, none⟩], s.layers⟩ : Session).WellFormed where
  keyed := keyed_append h fresh
  names_nodup := names_nodup_append h fresh
  layer_names_nodup := h.layer_names_nodup
  layer_recorded i layer hi := (h.layer_recorded i layer hi).append fresh
  producer_layer r hr k hk := by
    rcases List.mem_append.mp hr with hr | hr
    · exact h.producer_layer r hr k hk
    · rw [List.mem_singleton] at hr
      subst hr
      cases hk
  positive := positive_append h positive

private theorem WellFormed.producer_lt {s : Session} (h : s.WellFormed) {name : String} {r : Record}
    (hr : s.record? name = some r) {k : Nat} (hk : r.producer = some k) : k < s.layers.length := by
  obtain ⟨layer, hlayer, _⟩ := h.producer_layer r ((h.keyed name r).mp hr).1 k hk
  exact (List.getElem?_eq_some_iff.mp hlayer).1

private theorem WellFormed.addLayer {s : Session} (h : s.WellFormed) {counts : List (String × Nat)}
    {name : String} {spec : LayerSpec} {x : Symbolic} {shape : List Nat}
    (known : s.tensor? x.name = some x) (inferred : spec.outputShape name x.shape = .ok shape)
    (unnamed : ∀ l ∈ s.layers, l.name ≠ name) (fresh : s.record? (name ++ ":0") = none) :
    (⟨counts, s.tensors ++ [⟨⟨name ++ ":0", shape, x.dtype⟩, some s.layers.length⟩],
      s.layers ++ [⟨name, spec, x.name, name ++ ":0"⟩]⟩ : Session).WellFormed := by
  obtain ⟨q, hq, rfl⟩ := Option.map_eq_some_iff.mp known
  have hpos : 0 ∉ shape :=
    LayerSpec.outputShape_positive inferred (h.positive q ((h.keyed _ q).mp hq).1)
  refine ⟨keyed_append h fresh, names_nodup_append h fresh, ?_, ?_, ?_, positive_append h hpos⟩
  · rw [List.map_append, List.map_singleton, ← List.concat_eq_append]
    refine h.layer_names_nodup.concat ?_
    intro hmem
    obtain ⟨l, hl, heq⟩ := List.mem_map.mp hmem
    exact unnamed l hl heq
  · intro i layer hi
    rw [List.getElem?_append] at hi
    split at hi
    · exact (h.layer_recorded i layer hi).append fresh
    · rename_i hge
      rw [List.getElem?_singleton, Option.ite_none_right_eq_some] at hi
      obtain ⟨hzero, ⟨⟩⟩ := hi
      obtain rfl : i = s.layers.length := by omega
      refine ⟨rfl, q, shape, record?_append_of_some fresh hq, fun j hj => h.producer_lt hq hj,
        inferred, ?_⟩
      rw [record?_append s _ _ _ _ fresh, if_pos rfl]
  · intro r hr k hk
    rcases List.mem_append.mp hr with hr | hr
    · obtain ⟨layer, hlayer, hname⟩ := h.producer_layer r hr k hk
      exact ⟨layer, List.getElem?_append_left (List.getElem?_eq_some_iff.mp hlayer).1 ▸ hlayer, hname⟩
    · rw [List.mem_singleton] at hr
      subst hr
      cases hk
      exact ⟨_, List.getElem?_concat_length, rfl⟩

private theorem WellFormed.change {s t : Session} (h : s.WellFormed) (hc : s.Change t) : t.WellFormed := by
  cases hc with
  | none same => exact h.of_sameTables same
  | input fresh positive => exact h.addInput fresh positive
  | layer known inferred unnamed fresh => exact h.addLayer known inferred unnamed fresh
  | cleared => exact .empty

private theorem WellFormed.after {s : Session} (h : s.WellFormed) (calls : List Call) :
    (s.after calls).WellFormed := by
  induction calls generalizing s with
  | nil => exact h
  | cons c rest ih => exact ih (h.change (c.change_perform s))

theorem Reachable.wellFormed {s : Session} (h : s.Reachable) : s.WellFormed := by
  obtain ⟨calls, rfl⟩ := h
  exact WellFormed.empty.after calls

/-- After all calls, successful or not, the tables of a session belong together, and a call that fails
then leaves them as they are. -/
theorem after_calls_wellFormed (calls : List Call) :
    (empty.after calls).WellFormed ∧ ∀ (c : Call) (e : ModelError),
      (c.perform (empty.after calls)).1 = .error e →
        (c.perform (empty.after calls)).2.layers = (empty.after calls).layers ∧
          (c.perform (empty.after calls)).2.tensors = (empty.after calls).tensors := by
  refine ⟨WellFormed.empty.after calls, ?_⟩
  intro c e he
  have same := Call.tables_of_error he
  exact ⟨same.2, same.1⟩

/-- A layer under a name that is taken is refused. -/
theorem taken_layer_name_keeps_tables :
    let x : Symbolic := ⟨"x", [4, 1], .f32⟩
    let crop : Call := @Call.crop 1 { margins := #v[⟨1, 0⟩], name := some "crop" } x
    let s := empty.after [.input [4, 1] .f32 "x", crop]
    (crop.perform s).1 = .error (.duplicateName "crop") ∧ s.WellFormed ∧ s.layers.length = 1 ∧
      (crop.perform s).2.layers = s.layers ∧ (crop.perform s).2.tensors = s.tensors := by
  intro x crop s
  have hrefused : (crop.perform s).1 = .error (.duplicateName "crop") := rfl
  have h := after_calls_wellFormed [.input [4, 1] .f32 "x", crop]
  exact ⟨hrefused, h.1, rfl, h.2 crop _ hrefused⟩

end LoweringCheck.Session
