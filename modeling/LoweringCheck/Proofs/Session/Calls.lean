import LoweringCheck.Model.Basic
/-!
# Calls on sessions

A session is changed by calls only, each of which answers or fails. What a call can do to the tables
of a session is said once, as a relation; everything that holds in all reachable sessions is proved
along it.
-/
namespace LoweringCheck

namespace Session

/-- One call on a session. -/
inductive Call where
  | input (shape : List Nat) (dtype : DType) (name : String)
  | crop {rank : Nat} (layer : CroppingLayer rank) (x : Symbolic)
  | lambda (layer : LambdaLayer) (x : Symbolic)
  | uniqueName (base : String)
  | assemble (inputs outputs : List Symbolic)
  | clear

/-- What a call that succeeds answers. -/
inductive Answer where
  | tensor (x : Symbolic)
  | name (name : String)
  | model (m : Model)
  | done

/-- A result as an answer, with the session that is left. -/
def answered {α : Type} (answer : α → Answer) :
    Except ModelError α × Session → Except ModelError Answer × Session
  | (.ok x, s) => (.ok (answer x), s)
  | (.error e, s) => (.error e, s)

def Call.perform (s : Session) : Call → Except ModelError Answer × Session
  | .input shape dtype name => answered .tensor (s.input shape dtype name)
  | .crop layer x => answered .tensor (layer.apply s x)
  | .lambda layer x => answered .tensor (layer.apply s x)
  | .uniqueName base => (.ok (.name (s.uniqueName base).1), (s.uniqueName base).2)
  | .assemble inputs outputs => answered .model (Model.assemble s inputs outputs)
  | .clear => (.ok .done, s.clear)

/-- The session that calls leave, successful or not. -/
def after (s : Session) : List Call → Session
  | [] => s
  | c :: rest => after (c.perform s).2 rest

/-- The tables of two sessions are the same; names may have been generated in between. -/
def SameTables (s t : Session) : Prop := t.tensors = s.tensors ∧ t.layers = s.layers

/-- What a call can do to the tables of a session. -/
inductive Change (s : Session) : Session → Prop where
  | none {t : Session} (same : s.SameTables t) : Change s t
  | input {counts : List (String × Nat)} {x : Symbolic} (fresh : s.record? x.name = .none)
      (positive : 0 ∉ x.shape) :
      Change s ⟨counts, s.tensors ++ [⟨x, .none⟩], s.layers⟩
  | layer {counts : List (String × Nat)} {name : String} {spec : LayerSpec} {x : Symbolic}
      {shape : List Nat} (known : s.tensor? x.name = some x)
      (inferred : spec.outputShape name x.shape = .ok shape)
      (unnamed : ∀ l ∈ s.layers, l.name ≠ name) (fresh : s.record? (name ++ ":0") = .none) :
      Change s ⟨counts, s.tensors ++ [⟨⟨name ++ ":0", shape, x.dtype⟩, some s.layers.length⟩],
        s.layers ++ [⟨name, spec, x.name, name ++ ":0"⟩]⟩
  | cleared : Change s empty

theorem checkKnown_eq_ok_iff (s : Session) (x : Symbolic) :
    s.checkKnown x = .ok () ↔ s.tensor? x.name = some x := by
  unfold checkKnown tensor?
  cases s.record? x.name with
  | none => simp
  | some r => by_cases h : r.tensor = x <;> simp [h]

theorem addRecord_eq_ok_iff (s t : Session) (r : Record) :
    s.addRecord r = (.ok (), t) ↔
      s.record? r.tensor.name = none ∧ t = { s with tensors := s.tensors ++ [r] } := by
  unfold addRecord
  cases s.record? r.tensor.name with
  | none => simp [eq_comm]
  | some _ => simp

theorem input_eq_ok {s t : Session} {shape : List Nat} {dtype : DType} {name : String}
    {x : Symbolic} (h : s.input shape dtype name = (.ok x, t)) :
    x = ⟨name, shape, dtype⟩ ∧ 0 ∉ shape ∧ s.record? name = none ∧
      t = { s with tensors := s.tensors ++ [⟨x, none⟩] } := by
  unfold input at h
  split at h
  · cases h
  · rename_i hzero
    simp only at h
    split at h
    · cases h
    · rename_i u hadd
      obtain ⟨hfresh, rfl⟩ := (addRecord_eq_ok_iff _ _ _).mp hadd
      cases h
      exact ⟨rfl, by simpa using hzero, hfresh, rfl⟩

theorem addLayer_eq_ok {s t : Session} {layer : Layer} {output : Symbolic}
    (h : s.addLayer layer output = (.ok (), t)) :
    (∀ l ∈ s.layers, l.name ≠ layer.name) ∧ s.record? output.name = none ∧
      t = ⟨s.counts, s.tensors ++ [⟨output, some s.layers.length⟩], s.layers ++ [layer]⟩ := by
  unfold addLayer at h
  split at h
  · cases h
  · rename_i hname
    split at h
    · cases h
    · rename_i u hadd
      obtain ⟨hfresh, rfl⟩ := (addRecord_eq_ok_iff _ _ _).mp hadd
      cases h
      exact ⟨by simpa using hname, hfresh, rfl⟩

theorem register_eq_ok {s t : Session} {name : String} {spec : LayerSpec} {x y : Symbolic}
    (h : s.register name spec x = (.ok y, t)) :
    ∃ shape, y = ⟨name ++ ":0", shape, x.dtype⟩ ∧ s.tensor? x.name = some x ∧
      spec.outputShape name x.shape = .ok shape ∧ (∀ l ∈ s.layers, l.name ≠ name) ∧
      s.record? (name ++ ":0") = none ∧
      t = ⟨s.counts, s.tensors ++ [⟨y, some s.layers.length⟩],
        s.layers ++ [⟨name, spec, x.name, name ++ ":0"⟩]⟩ := by
  unfold register at h
  split at h
  · cases h
  · rename_i hknown
    split at h
    · cases h
    · rename_i shape hshape
      simp only at h
      split at h
      · cases h
      · rename_i u hadd
        obtain ⟨hname, hfresh, rfl⟩ := addLayer_eq_ok hadd
        cases h
        exact ⟨shape, rfl, (checkKnown_eq_ok_iff _ _).mp hknown, hshape, hname, hfresh, rfl⟩

theorem assemble_eq_ok_iff {s t : Session} {inputs outputs : List Symbolic} {m : Model} :
    Model.assemble s inputs outputs = (.ok m, t) ↔
      inputs ≠ [] ∧ outputs ≠ [] ∧ Model.checkAllKnown s (inputs ++ outputs) = .ok () ∧
      Model.checkInputs s inputs = .ok () ∧
      ∃ layers, Model.layersBetween s inputs outputs = .ok layers ∧
        m = ⟨(s.uniqueName "model").1, inputs, outputs, layers⟩ ∧ t = (s.uniqueName "model").2 := by
  rw [Model.assemble]
  by_cases hempty : (inputs.isEmpty || outputs.isEmpty) = true
  · have hnil : inputs = [] ∨ outputs = [] := by simpa using hempty
    simp only [hempty, if_true, Prod.mk.injEq, reduceCtorEq, false_and, false_iff]
    rintro ⟨hinputs, houtputs, -⟩
    exact hnil.elim hinputs houtputs
  · have hne : inputs ≠ [] ∧ outputs ≠ [] := by simpa using hempty
    simp only [hempty, hne, true_and, ne_eq, not_false_eq_true]
    cases Model.checkAllKnown s (inputs ++ outputs) with
    | error e => simp
    | ok _ =>
      cases Model.checkInputs s inputs with
      | error e => simp
      | ok _ => cases Model.layersBetween s inputs outputs <;> simp [eq_comm]

/-! ### Failing steps

Each makes all its checks before it changes the session. -/

private theorem addRecord_error {s t : Session} {r : Record} {e : ModelError}
    (h : s.addRecord r = (.error e, t)) : t = s := by
  unfold addRecord at h
  split at h <;> cases h
  rfl

theorem input_error {s t : Session} {shape : List Nat} {dtype : DType} {name : String}
    {e : ModelError} (h : s.input shape dtype name = (.error e, t)) : t = s := by
  unfold input at h
  split at h
  · cases h
    rfl
  · simp only at h
    split at h <;> cases h
    rename_i hadd
    exact addRecord_error hadd

private theorem addLayer_error {s t : Session} {layer : Layer} {output : Symbolic} {e : ModelError}
    (h : s.addLayer layer output = (.error e, t)) : t = s := by
  unfold addLayer at h
  split at h
  · cases h
    rfl
  · split at h <;> cases h
    rename_i hadd
    exact addRecord_error hadd

theorem register_error {s t : Session} {name : String} {spec : LayerSpec} {x : Symbolic}
    {e : ModelError} (h : s.register name spec x = (.error e, t)) : t = s := by
  unfold register at h
  split at h
  · cases h
    rfl
  · split at h
    · cases h
      rfl
    · simp only at h
      split at h <;> cases h
      rename_i hadd
      exact addLayer_error hadd

theorem assemble_error {s t : Session} {inputs outputs : List Symbolic} {e : ModelError}
    (h : Model.assemble s inputs outputs = (.error e, t)) : t = s := by
  unfold Model.assemble at h
  split at h
  · cases h
    rfl
  · split at h
    · cases h
      rfl
    · split at h
      · cases h
        rfl
      · split at h <;> cases h
        rfl

/-! ### What calls leave -/

private theorem SameTables.refl (s : Session) : s.SameTables s := ⟨rfl, rfl⟩

theorem uniqueName_tables (s : Session) (base : String) : s.SameTables (s.uniqueName base).2 :=
  ⟨rfl, rfl⟩

private theorem chooseName_tables (s : Session) (name : Option String) (base : String) :
    s.SameTables (s.chooseName name base).2 := by
  cases name with
  | none => exact s.uniqueName_tables base
  | some _ => exact .refl s

private theorem Change.of_sameTables {s t u : Session} (same : s.SameTables t) (h : t.Change u) :
    s.Change u := by
  obtain ⟨counts, tensors, layers⟩ := t
  obtain ⟨rfl, rfl⟩ := same
  cases h with
  | none h => exact .none h
  | input fresh positive => exact .input fresh positive
  | layer known inferred unnamed fresh => exact .layer known inferred unnamed fresh
  | cleared => exact .cleared

/-- What a step may leave: a change of the tables if it succeeds, the same tables if it fails. -/
def Leaves {α : Type} (s : Session) : Except ModelError α × Session → Prop
  | (.ok _, t) => s.Change t
  | (.error _, t) => s.SameTables t

private theorem Leaves.answered {α : Type} {s : Session} {result : Except ModelError α × Session}
    (answer : α → Answer) (h : s.Leaves result) : s.Leaves (answered answer result) := by
  obtain ⟨_ | _, t⟩ := result <;> exact h

private theorem leaves_step {α : Type} {s : Session} {step : Except ModelError α × Session}
    (hok : ∀ x t, step = (.ok x, t) → s.Change t) (herror : ∀ e t, step = (.error e, t) → t = s) :
    s.Leaves step := by
  obtain ⟨e | x, t⟩ := step
  · rw [herror e t rfl]
    exact .refl s
  · exact hok x t rfl

theorem answered_session {α : Type} (answer : α → Answer) (step : Except ModelError α × Session) :
    (answered answer step).2 = step.2 := by
  obtain ⟨_ | _, t⟩ := step <;> rfl

theorem answered_fst {α : Type} (answer : α → Answer) (step : Except ModelError α × Session) :
    (answered answer step).1 = step.1.map answer := by
  obtain ⟨_ | _, t⟩ := step <;> rfl

theorem answered_eq_error {α : Type} {answer : α → Answer} {step : Except ModelError α × Session}
    {e : ModelError} {t : Session} (h : answered answer step = (.error e, t)) :
    step = (.error e, t) := by
  obtain ⟨_ | _, u⟩ := step <;> cases h
  rfl

theorem answered_eq_ok {α : Type} {answer : α → Answer} {step : Except ModelError α × Session}
    {a : Answer} {t : Session} (h : answered answer step = (.ok a, t)) :
    ∃ x, step = (.ok x, t) ∧ a = answer x := by
  obtain ⟨_ | x, u⟩ := step <;> cases h
  exact ⟨x, rfl, rfl⟩

private theorem leaves_register (s : Session) (name : String) (spec : LayerSpec) (x : Symbolic) :
    s.Leaves (s.register name spec x) := by
  apply leaves_step _ fun _ _ => register_error
  intro y t h
  obtain ⟨shape, rfl, hknown, hshape, hname, hfresh, rfl⟩ := register_eq_ok h
  exact .layer hknown hshape hname hfresh

private theorem Leaves.of_sameTables {α : Type} {s t : Session} {result : Except ModelError α × Session}
    (same : s.SameTables t) (h : t.Leaves result) : s.Leaves result := by
  obtain ⟨_ | _, u⟩ := result
  · exact ⟨h.1.trans same.1, h.2.trans same.2⟩
  · exact Change.of_sameTables same h

private theorem leaves_crop {rank : Nat} (s : Session) (layer : CroppingLayer rank) (x : Symbolic) :
    s.Leaves (layer.apply s x) := by
  have same := s.chooseName_tables layer.name (Text.lower layer.spec.kind)
  unfold CroppingLayer.apply
  simp only
  split
  · exact same
  · exact (leaves_register _ _ _ _).of_sameTables same

private theorem leaves_lambda (s : Session) (layer : LambdaLayer) (x : Symbolic) :
    s.Leaves (layer.apply s x) := by
  unfold LambdaLayer.apply
  exact (leaves_register _ _ _ _).of_sameTables (s.chooseName_tables layer.name "lambda")

private theorem Call.leaves_perform (s : Session) (c : Call) : s.Leaves (c.perform s) := by
  cases c with
  | input shape dtype name =>
    apply Leaves.answered
    apply leaves_step _ fun _ _ => input_error
    intro x t h
    obtain ⟨rfl, hpositive, hfresh, rfl⟩ := input_eq_ok h
    exact .input hfresh hpositive
  | crop layer x => exact (leaves_crop s layer x).answered _
  | lambda layer x => exact (leaves_lambda s layer x).answered _
  | uniqueName base => exact .none (s.uniqueName_tables base)
  | assemble inputs outputs =>
    apply Leaves.answered
    apply leaves_step _ fun _ _ => assemble_error
    intro m t h
    obtain ⟨_, _, _, _, _, _, _, rfl⟩ := assemble_eq_ok_iff.mp h
    exact .none (s.uniqueName_tables "model")
  | clear => exact .cleared

/-- Every call leaves a change of the tables, be it none. -/
theorem Call.change_perform (s : Session) (c : Call) : s.Change (c.perform s).2 := by
  have h := c.leaves_perform s
  cases hr : c.perform s with
  | mk result t =>
    rw [hr] at h
    cases result with
    | error e => exact .none h
    | ok a => exact h

theorem Call.tables_of_error {s : Session} {c : Call} {e : ModelError}
    (he : (c.perform s).1 = .error e) : s.SameTables (c.perform s).2 := by
  have h := c.leaves_perform s
  cases hr : c.perform s with
  | mk result t =>
    rw [hr] at h he
    cases he
    exact h

end Session
end LoweringCheck
