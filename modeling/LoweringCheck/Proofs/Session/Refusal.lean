import LoweringCheck.Proofs.Session.Naming
/-!
# Refused calls

A refused call leaves the session as it was, but for one thing: a layer without a name of its own has
spent a generated one by then. This shows in the next name generated from the same base. Calls that
generate no name from it answer as if the refused call had not been made.
-/
namespace LoweringCheck.Session

/-- The answers to calls that are made one after the other. -/
def answers (s : Session) : List Call → List (Except ModelError Answer)
  | [] => []
  | c :: rest => (c.perform s).1 :: answers (c.perform s).2 rest

/-- The base that a layer without a name of its own is named from. -/
def Call.layerBase? : Call → Option String
  | .crop layer _ => if layer.name.isNone then some (Text.lower layer.spec.kind) else none
  | .lambda layer _ => if layer.name.isNone then some "lambda" else none
  | _ => none

/-- The base that a call may generate a name from. -/
def Call.base? : Call → Option String
  | .uniqueName base => some base
  | .assemble .. => some "model"
  | c => c.layerBase?

/-- No call generates a name from the base, at least until everything is forgotten. -/
def Avoids (base : String) : List Call → Prop
  | [] => True
  | .clear :: _ => True
  | c :: rest => c.base? ≠ some base ∧ Avoids base rest

/-- The sessions differ at most in how often names were generated from one base. -/
structure SameBut (base : String) (s t : Session) : Prop where
  tables : s.SameTables t
  counts : ∀ other, other ≠ base → t.counts.lookup other = s.counts.lookup other

/-- Two steps give the same result, and leave sessions that differ in one base at most. -/
structure SameStep {α : Type} (base : String) (first second : Except ModelError α × Session) :
    Prop where
  result : second.1 = first.1
  left : SameBut base first.2 second.2

variable {s t : Session} {base : String}

section Tables
variable (same : s.SameTables t)
include same

private theorem record?_of_sameTables (name : String) : t.record? name = s.record? name := by
  rw [record?, record?, same.1]

private theorem producerIndex_of_sameTables (name : String) :
    t.producerIndex name = s.producerIndex name := by
  rw [producerIndex, producerIndex, record?_of_sameTables same]

private theorem checkKnown_of_sameTables (x : Symbolic) : t.checkKnown x = s.checkKnown x := by
  rw [checkKnown, checkKnown, record?_of_sameTables same]

private theorem checkAllKnown_of_sameTables (xs : List Symbolic) :
    Model.checkAllKnown t xs = Model.checkAllKnown s xs := by
  induction xs with
  | nil => rfl
  | cons x rest ih =>
    rw [Model.checkAllKnown, Model.checkAllKnown, checkKnown_of_sameTables same, ih]

private theorem checkInputs_of_sameTables (xs : List Symbolic) :
    Model.checkInputs t xs = Model.checkInputs s xs := by
  induction xs with
  | nil => rfl
  | cons x rest ih =>
    rw [Model.checkInputs, Model.checkInputs, producerIndex_of_sameTables same, ih]

private theorem follow_of_sameTables (inputs : List String) (fuel : Nat) (name : String)
    (trace : Model.Trace) :
    Model.follow t inputs fuel name trace = Model.follow s inputs fuel name trace := by
  induction fuel generalizing name trace with
  | zero => rfl
  | succ fuel ih =>
    simp only [Model.follow, producerIndex_of_sameTables same, same.2, ih]

private theorem followAll_of_sameTables (inputs names : List String) (trace : Model.Trace) :
    Model.followAll t inputs names trace = Model.followAll s inputs names trace := by
  induction names generalizing trace with
  | nil => rfl
  | cons name rest ih =>
    simp only [Model.followAll, follow_of_sameTables same, same.1, ih]

private theorem layersBetween_of_sameTables (inputs outputs : List Symbolic) :
    Model.layersBetween t inputs outputs = Model.layersBetween s inputs outputs := by
  rw [Model.layersBetween, Model.layersBetween, followAll_of_sameTables same, same.2]

end Tables

/-! ## One step -/

private theorem SameBut.uniqueName (h : SameBut base s t) {other : String} (hother : other ≠ base) :
    (t.uniqueName other).1 = (s.uniqueName other).1 ∧
      SameBut base (s.uniqueName other).2 (t.uniqueName other).2 := by
  have hcount := h.counts other hother
  simp only [Session.uniqueName, hcount, true_and]
  refine ⟨h.tables, ?_⟩
  intro key hkey
  rw [lookup_cons_eq_ite, lookup_cons_eq_ite, h.counts key hkey]

private theorem SameBut.chooseName (h : SameBut base s t) {name : Option String} {other : String}
    (hname : name.isNone → other ≠ base) :
    (t.chooseName name other).1 = (s.chooseName name other).1 ∧
      SameBut base (s.chooseName name other).2 (t.chooseName name other).2 := by
  cases name with
  | none => exact h.uniqueName (hname rfl)
  | some name => exact ⟨rfl, h⟩

private theorem SameStep.answered {α : Type} {first second : Except ModelError α × Session}
    (h : SameStep base first second) (answer : α → Answer) :
    SameStep base (answered answer first) (answered answer second) := by
  obtain ⟨result, left⟩ := h
  obtain ⟨r, u⟩ := first
  obtain ⟨r', v⟩ := second
  cases result
  cases r <;> exact ⟨rfl, left⟩

private theorem SameStep.cases {α : Type} {first second : Except ModelError α × Session}
    (h : SameStep base first second) :
    (∃ e u v, first = (.error e, u) ∧ second = (.error e, v) ∧ SameBut base u v) ∨
      ∃ x u v, first = (.ok x, u) ∧ second = (.ok x, v) ∧ SameBut base u v := by
  obtain ⟨result, left⟩ := h
  obtain ⟨r, u⟩ := first
  obtain ⟨r', v⟩ := second
  cases result
  cases r with
  | error e => exact .inl ⟨e, u, v, rfl, rfl, left⟩
  | ok x => exact .inr ⟨x, u, v, rfl, rfl, left⟩

private theorem SameBut.addRecord (h : SameBut base s t) (r : Record) :
    SameStep base (s.addRecord r) (t.addRecord r) := by
  simp only [Session.addRecord, record?_of_sameTables h.tables]
  split
  · exact ⟨rfl, h⟩
  · exact ⟨rfl, ⟨by rw [h.tables.1], h.tables.2⟩, h.counts⟩

private theorem SameBut.addLayer (h : SameBut base s t) (layer : Layer) (output : Symbolic) :
    SameStep base (s.addLayer layer output) (t.addLayer layer output) := by
  simp only [Session.addLayer, h.tables.2]
  split
  · exact ⟨rfl, h⟩
  · rcases (h.addRecord ⟨output, some s.layers.length⟩).cases with
      ⟨e, u, v, hs, ht, huv⟩ | ⟨_, u, v, hs, ht, huv⟩ <;> simp only [hs, ht]
    · exact ⟨rfl, huv⟩
    · exact ⟨rfl, ⟨huv.tables.1, by rw [huv.tables.2]⟩, huv.counts⟩

private theorem SameBut.input (h : SameBut base s t) (shape : List Nat) (dtype : DType) (name : String) :
    SameStep base (s.input shape dtype name) (t.input shape dtype name) := by
  unfold Session.input
  split
  · exact ⟨rfl, h⟩
  · rcases (h.addRecord ⟨⟨name, shape, dtype⟩, none⟩).cases with
      ⟨e, u, v, hs, ht, huv⟩ | ⟨_, u, v, hs, ht, huv⟩ <;> simp only [hs, ht]
    · exact ⟨rfl, huv⟩
    · exact ⟨rfl, huv⟩

private theorem SameBut.register (h : SameBut base s t) (name : String) (spec : LayerSpec) (x : Symbolic) :
    SameStep base (s.register name spec x) (t.register name spec x) := by
  unfold Session.register
  rw [checkKnown_of_sameTables h.tables]
  cases s.checkKnown x with
  | error e => exact ⟨rfl, h⟩
  | ok _ =>
    cases spec.outputShape name x.shape with
    | error e => exact ⟨rfl, h⟩
    | ok shape =>
      rcases (h.addLayer ⟨name, spec, x.name, name ++ ":0"⟩ ⟨name ++ ":0", shape, x.dtype⟩).cases with
        ⟨e, u, v, hs, ht, huv⟩ | ⟨_, u, v, hs, ht, huv⟩ <;> simp only [hs, ht]
      · exact ⟨rfl, huv⟩
      · exact ⟨rfl, huv⟩

private theorem SameBut.crop (h : SameBut base s t) {rank : Nat} {layer : CroppingLayer rank}
    (hname : layer.name.isNone → Text.lower layer.spec.kind ≠ base) (x : Symbolic) :
    SameStep base (layer.apply s x) (layer.apply t x) := by
  obtain ⟨hsame, hchosen⟩ := h.chooseName hname
  unfold CroppingLayer.apply
  simp only [hsame]
  split
  · exact ⟨rfl, hchosen⟩
  · exact hchosen.register _ layer.spec x

private theorem SameBut.lambda (h : SameBut base s t) {layer : LambdaLayer}
    (hname : layer.name.isNone → "lambda" ≠ base) (x : Symbolic) :
    SameStep base (layer.apply s x) (layer.apply t x) := by
  obtain ⟨hsame, hchosen⟩ := h.chooseName hname
  simp only [LambdaLayer.apply, hsame]
  exact hchosen.register _ (.lambda layer.function) x

private theorem SameBut.assemble (h : SameBut base s t) (hbase : "model" ≠ base)
    (inputs outputs : List Symbolic) :
    SameStep base (Model.assemble s inputs outputs) (Model.assemble t inputs outputs) := by
  obtain ⟨hsame, hnamed⟩ := h.uniqueName hbase
  simp only [Model.assemble, checkAllKnown_of_sameTables h.tables,
    checkInputs_of_sameTables h.tables, layersBetween_of_sameTables h.tables, hsame]
  split
  · exact ⟨rfl, h⟩
  · cases Model.checkAllKnown s (inputs ++ outputs) with
    | error e => exact ⟨rfl, h⟩
    | ok _ =>
      cases Model.checkInputs s inputs with
      | error e => exact ⟨rfl, h⟩
      | ok _ =>
        cases Model.layersBetween s inputs outputs with
        | error e => exact ⟨rfl, h⟩
        | ok layers => exact ⟨rfl, hnamed⟩

/-- A call that generates no name from the base does not see how often that was done. -/
theorem SameBut.perform (h : SameBut base s t) {c : Call} (hc : c.base? ≠ some base) :
    SameStep base (c.perform s) (c.perform t) := by
  cases c with
  | input shape dtype name => exact (h.input shape dtype name).answered .tensor
  | crop layer x =>
    apply SameStep.answered
    apply h.crop
    intro hnone hbase
    simp [Call.base?, Call.layerBase?, hnone, hbase] at hc
  | lambda layer x =>
    apply SameStep.answered
    apply h.lambda
    intro hnone hbase
    simp [Call.base?, Call.layerBase?, hnone, hbase] at hc
  | uniqueName other =>
    have hother : other ≠ base := by
      intro heq
      simp [Call.base?, heq] at hc
    obtain ⟨hsame, hnamed⟩ := h.uniqueName hother
    refine ⟨?_, hnamed⟩
    simp only [Call.perform, hsame]
  | assemble inputs outputs =>
    have hmodel : "model" ≠ base := by
      intro heq
      simp [Call.base?, heq] at hc
    exact (h.assemble hmodel inputs outputs).answered .model
  | clear => exact ⟨rfl, ⟨rfl, rfl⟩, fun _ _ => rfl⟩

/-- Nor do many such calls. What comes after everything was forgotten may be any calls. -/
theorem SameBut.answers (h : SameBut base s t) {calls : List Call} (hcalls : Avoids base calls) :
    t.answers calls = s.answers calls := by
  -- the sessions stay the same but for the base, until `clear` makes them one
  induction calls generalizing s t with
  | nil => rfl
  | cons c rest ih =>
    by_cases hclear : c = .clear
    · subst hclear
      rfl
    · have hfirst : c.base? ≠ some base ∧ Avoids base rest := by
        cases c with
        | clear => exact absurd rfl hclear
        | _ => exact hcalls
      have hstep := h.perform hfirst.1
      rw [Session.answers, Session.answers, hstep.result, ih hstep.left hfirst.2]

/-! ## What a refused call leaves -/

private theorem sameBut_uniqueName (s : Session) (base : String) : SameBut base s
    (s.uniqueName base).2 := by
  refine ⟨s.uniqueName_tables base, ?_⟩
  intro other hother
  simp only [Session.uniqueName]
  rw [lookup_cons_eq_ite, if_neg hother]

private theorem uniqueName_uniqueName_ne (s : Session) (base : String) :
    ((s.uniqueName base).2.uniqueName base).1 ≠ (s.uniqueName base).1 := by
  rw [uniqueName_eq, uniqueName_eq, count_uniqueName, if_pos rfl]
  intro h
  exact Nat.succ_ne_self _ (numbered_left_inj base h)

private theorem chooseName_left (s : Session) (name : Option String) (base : String) :
    (s.chooseName name base).2 =
      (if name.isNone then some base else none).elim s fun base => (s.uniqueName base).2 := by
  cases name <;> rfl

/-- A refused call leaves the session as it was, less a name for a layer that has none. -/
theorem Call.left_of_error {c : Call} {e : ModelError} (he : (c.perform s).1 = .error e) :
    (c.perform s).2 = c.layerBase?.elim s fun base => (s.uniqueName base).2 := by
  rcases hperform : c.perform s with ⟨r, t⟩
  rw [hperform] at he
  obtain rfl : r = .error e := he
  cases c with
  | input shape dtype name => exact input_error (answered_eq_error hperform)
  | crop layer x =>
    have hstep := answered_eq_error hperform
    -- the name is chosen before everything that can refuse the layer
    rw [Call.layerBase?, ← chooseName_left]
    unfold CroppingLayer.apply at hstep
    dsimp only at hstep
    split at hstep
    · cases hstep
      rfl
    · exact register_error hstep
  | lambda layer x =>
    have hstep := answered_eq_error hperform
    rw [Call.layerBase?, ← chooseName_left]
    unfold LambdaLayer.apply at hstep
    exact register_error hstep
  | uniqueName base => cases hperform
  | assemble inputs outputs => exact assemble_error (answered_eq_error hperform)
  | clear => cases hperform

/-- A refused call leaves the session as it was, unless it is a layer without a name of its own. That has
spent a name: the next one from its base is another than it would have been, and all calls that generate no
name from the base answer as if the refused one had not been made. -/
theorem answers_after_refusal (s : Session) (c : Call) {e : ModelError}
    (he : (c.perform s).1 = .error e) :
    (c.layerBase? = none →
      (c.perform s).2 = s ∧ ∀ later, (c.perform s).2.answers later = s.answers later) ∧
    ∀ base, c.layerBase? = some base →
      (c.perform s).2 = (s.uniqueName base).2 ∧
      ((c.perform s).2.uniqueName base).1 ≠ (s.uniqueName base).1 ∧
      ∀ later, Avoids base later → (c.perform s).2.answers later = s.answers later := by
  have hleft := Call.left_of_error he
  constructor
  · intro hbase
    rw [hbase] at hleft
    have hsame : (c.perform s).2 = s := hleft
    exact ⟨hsame, fun later => by rw [hsame]⟩
  · intro base hbase
    rw [hbase] at hleft
    have hspent : (c.perform s).2 = (s.uniqueName base).2 := hleft
    rw [hspent]
    exact ⟨rfl, s.uniqueName_uniqueName_ne base, fun later => (s.sameBut_uniqueName base).answers⟩

/-- Two croppings of an axis of extent 2: one leaves nothing and is refused, the other leaves 1. -/
def oversized (name : Option String) : Call :=
  @Call.crop 1 { margins := #v[⟨2, 0⟩], name := name } ⟨"x", [2, 1], .f32⟩

def fitting (name : Option String) : Call :=
  @Call.crop 1 { margins := #v[⟨1, 0⟩], name := name } ⟨"x", [2, 1], .f32⟩

/-- A refused cropping under a name of its own leaves nothing behind. One without leaves nothing that
croppings with names of their own, inputs or models could tell. -/
theorem answers_after_oversized :
    let s := empty.after [.input [2, 1] .f32 "x"]
    let fault : ModelError := .invalidCropping "crop" (.nothingLeft ⟨2, 0⟩ 0 2)
    let later : List Call := [fitting (some "kept"), .input [3] .f16 "y", .uniqueName "model"]
    ((oversized (some "crop")).perform s).1 = .error fault ∧
      ((oversized (some "crop")).perform s).2 = s ∧
      ((oversized none).perform s).2.answers later = s.answers later := by
  intro s fault later
  have hnamed : ((oversized (some "crop")).perform s).1 = .error fault := rfl
  have hunnamed : ((oversized none).perform s).1 =
    .error (.invalidCropping "cropping1d" (.nothingLeft ⟨2, 0⟩ 0 2)) := rfl
  refine ⟨hnamed, ((answers_after_refusal s _ hnamed).1 rfl).1, ?_⟩
  apply ((answers_after_refusal s _ hunnamed).2 "cropping1d" rfl).2.2
  simp [later, Avoids, Call.base?, Call.layerBase?, fitting]

/-- After a refused cropping without a name, the next one is called `cropping1d_1`, though there is no
`cropping1d`. -/
theorem oversized_spends_name :
    let s := empty.after [.input [2, 1] .f32 "x"]
    s.Reachable ∧
      ((oversized none).perform s).1 =
        .error (.invalidCropping "cropping1d" (.nothingLeft ⟨2, 0⟩ 0 2)) ∧
      ((oversized none).perform s).2 ≠ s ∧
      s.answers [fitting none] = [.ok (.tensor ⟨"cropping1d:0", [1, 1], .f32⟩)] ∧
      ((oversized none).perform s).2.answers [fitting none] =
        [.ok (.tensor ⟨"cropping1d_1:0", [1, 1], .f32⟩)] := by
  intro s
  refine ⟨⟨_, rfl⟩, rfl, ?_, rfl, ?_⟩
  · intro hsame
    have hcounts := congrArg Session.counts hsame
    cases hcounts
  · with_unfolding_all rfl

end LoweringCheck.Session
