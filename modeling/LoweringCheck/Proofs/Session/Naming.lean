import Mathlib.Data.List.Induction
import Mathlib.Data.List.TakeWhile
import LoweringCheck.Proofs.Lookup
import LoweringCheck.Proofs.Session.Invariant
/-!
# Generated names

A layer without a name of its own gets the next one from its base. Names generated from one base are
numbered apart and those of different bases do not meet, so only a name that was given by hand can stand
in the way: to a layer, or to an input that is called like the output of a layer. Names are generated
without a look at those.
-/
namespace LoweringCheck.Session

/-- The name that is generated from a base after the given number of others. -/
def numbered (base : String) (count : Nat) : String := if count = 0 then base else s!"{base}_{count}"

/-- How often a name was generated from a base. -/
def count (s : Session) (base : String) : Nat := (s.counts.lookup base).getD 0

/-- The bases of the names of layers. -/
def layerBases : List String := ["cropping1d", "cropping2d", "cropping3d", "lambda"]

theorem uniqueName_eq (s : Session) (base : String) :
    (s.uniqueName base).1 = numbered base (s.count base) := rfl

theorem count_uniqueName (s : Session) (base other : String) :
    (s.uniqueName base).2.count other =
      if other = base then s.count base + 1 else s.count other := by
  simp only [count, uniqueName]
  rw [lookup_cons_eq_ite]
  split <;> rfl

/-! ## Numbered names -/

private theorem takeWhile_numbered {base : String} (hbase : '_' ∉ base.toList) (count : Nat) :
    (numbered base count).toList.takeWhile (· != '_') = base.toList := by
  have hall : ∀ c ∈ base.toList, (c != '_') = true := by
    intro c hc
    have hne : c ≠ '_' := fun heq => hbase (heq ▸ hc)
    simpa using hne
  unfold numbered
  split
  · exact List.takeWhile_eq_self_iff.mpr hall
  · have hlist : (s!"{base}_{count}").toList = base.toList ++ '_' :: (toString count).toList := by
      simp [toString]
    rw [hlist, List.takeWhile_append_of_pos hall]
    simp

private theorem toString_inj {i j : Nat} (h : toString i = toString j) : i = j := by
  have hdigits : Nat.toDigits 10 i = Nat.toDigits 10 j := by
    rw [← Nat.toList_repr, ← Nat.toList_repr]
    exact congrArg String.toList h
  have hvalue := congrArg (Nat.ofDigitChars 10 · 0) hdigits
  simpa only [Nat.ofDigitChars_ten_toDigits] using hvalue

theorem numbered_left_inj (base : String) {i j : Nat} (h : numbered base i = numbered base j) :
    i = j := by
  have hlonger : ∀ n : Nat, base ≠ base ++ "_" ++ toString n := by
    intro n heq
    have hlength := congrArg String.length heq
    rw [String.length_append, String.length_append, show "_".length = 1 from rfl] at hlength
    omega
  unfold numbered at h
  split at h <;> split at h
  · omega
  · exact absurd h (hlonger j)
  · exact absurd h.symm (hlonger i)
  · exact toString_inj ((String.append_right_inj _).mp h)

private theorem numbered_inj {base other : String} (hbase : '_' ∉ base.toList) (hother : '_' ∉ other.toList)
    {i j : Nat} (h : numbered base i = numbered other j) : base = other ∧ i = j := by
  obtain rfl : base = other := by
    apply String.toList_inj.mp
    rw [← takeWhile_numbered hbase i, h, takeWhile_numbered hother j]
  exact ⟨rfl, numbered_left_inj base h⟩

private theorem layerBases_plain : ∀ base ∈ layerBases, '_' ∉ base.toList := by decide

/-! ## Names that are taken -/

/-- A layer called so, or the tensor that it would write, is in the session. -/
def Taken (s : Session) (name : String) : Prop :=
  (∃ l ∈ s.layers, l.name = name) ∨ ∃ r ∈ s.tensors, r.tensor.name = name ++ ":0"

/-- The name has been generated for a layer. -/
def Spent (s : Session) (name : String) : Prop :=
  ∃ base ∈ layerBases, ∃ k < s.count base, name = numbered base k

private theorem not_spent_uniqueName (s : Session) {base : String} (hbase : base ∈ layerBases) :
    ¬ s.Spent (s.uniqueName base).1 := by
  rintro ⟨other, hother, k, hk, heq⟩
  obtain ⟨rfl, rfl⟩ := numbered_inj (layerBases_plain base hbase) (layerBases_plain other hother) heq
  exact Nat.lt_irrefl _ hk

/-- The call gives the name to a layer, or calls an input like what the layer would write. -/
def Call.gives (name : String) : Call → Prop
  | .input _ _ tensor => tensor = name ++ ":0"
  | .crop layer _ => layer.name = some name
  | .lambda layer _ => layer.name = some name
  | _ => False

/-- The call gives the name and is accepted. -/
def Call.Gives (s : Session) (c : Call) (name : String) : Prop :=
  c.gives name ∧ ∃ answer, (c.perform s).1 = .ok answer

/-- One of the calls, after everything was last forgotten, has given the name by hand. -/
def GivenByHand (calls : List Call) (name : String) : Prop :=
  ∃ before c later, calls = before ++ c :: later ∧ Call.clear ∉ later ∧
    c.Gives (empty.after before) name

private theorem after_concat (s : Session) (calls : List Call) (c : Call) :
    s.after (calls ++ [c]) = (c.perform (s.after calls)).2 := by
  induction calls generalizing s with
  | nil => rfl
  | cons first rest ih => exact ih (first.perform s).2

private theorem not_givenByHand_nil (name : String) : ¬ GivenByHand [] name := by
  rintro ⟨before, c, later, hcalls, -⟩
  simp at hcalls

private theorem givenByHand_concat (calls : List Call) (c : Call) (name : String) :
    GivenByHand (calls ++ [c]) name ↔
      c.Gives (empty.after calls) name ∨ c ≠ .clear ∧ GivenByHand calls name := by
  constructor
  · rintro ⟨before, d, later, hcalls, hclear, hgives⟩
    rcases List.eq_nil_or_concat later with rfl | ⟨rest, e, rfl⟩
    · obtain ⟨rfl, heq⟩ := List.append_inj' hcalls rfl
      obtain rfl : c = d := List.head_eq_of_cons_eq heq
      exact .inl hgives
    · rw [List.concat_eq_append, ← List.cons_append, ← List.append_assoc] at hcalls
      obtain ⟨rfl, heq⟩ := List.append_inj' hcalls rfl
      obtain rfl : c = e := List.head_eq_of_cons_eq heq
      rw [List.concat_eq_append, List.mem_append, not_or] at hclear
      refine .inr ⟨?_, before, d, rest, rfl, hclear.1, hgives⟩
      rintro rfl
      exact hclear.2 List.mem_cons_self
  · rintro (hgives | ⟨hclear, before, d, later, rfl, hlater, hgives⟩)
    · exact ⟨calls, c, [], rfl, List.not_mem_nil, hgives⟩
    · refine ⟨before, d, later ++ [c], by simp, ?_, hgives⟩
      rw [List.mem_append, List.mem_singleton, not_or]
      exact ⟨hlater, Ne.symm hclear⟩

private theorem not_givenByHand_of_not_gives {calls : List Call} {name : String}
    (h : ∀ c ∈ calls, ¬ c.gives name) : ¬ GivenByHand calls name := by
  rintro ⟨before, c, later, rfl, -, hgives, -⟩
  exact h c (List.mem_append_right _ List.mem_cons_self) hgives

/-! ## What calls do to names -/

/-- What a call, other than one that forgets everything, does to the names of a session. -/
inductive Naming (s : Session) (c : Call) (t : Session) : Prop where
  | nothing (same : s.SameTables t) (quiet : ∀ name, ¬ c.Gives s name)
  | input (x : Symbolic) (tensors : t.tensors = s.tensors ++ [⟨x, none⟩]) (layers : t.layers = s.layers)
      (gives : ∀ name, c.Gives s name ↔ x.name = name ++ ":0")
  | layer (l : Layer) (r : Record) (tensors : t.tensors = s.tensors ++ [r])
      (layers : t.layers = s.layers ++ [l]) (output : r.tensor.name = l.name ++ ":0")
      (named : (∀ name, c.Gives s name ↔ name = l.name) ∨
        (∀ name, ¬ c.Gives s name) ∧ t.Spent l.name)

private theorem Call.gives_iff_of_ok {s : Session} {c : Call} {answer : Answer}
    (h : (c.perform s).1 = .ok answer) (name : String) : c.Gives s name ↔ c.gives name :=
  ⟨fun hgives => hgives.1, fun hgives => ⟨hgives, answer, h⟩⟩

private theorem Call.not_gives_of_error {s : Session} {c : Call} {e : ModelError}
    (h : (c.perform s).1 = .error e) (name : String) : ¬ c.Gives s name := by
  rintro ⟨-, answer, hanswer⟩
  rw [h] at hanswer
  cases hanswer

private theorem lower_kind_mem (spec : LayerSpec) : Text.lower spec.kind ∈ layerBases := by
  cases spec with
  | cropping margins format =>
    unfold LayerSpec.kind
    dsimp only
    split <;> decide
  | lambda function =>
    show Text.lower "Lambda" ∈ layerBases
    decide

private theorem counts_chooseName (s : Session) (name : Option String) (base : String) :
    (s.chooseName name base).2.counts = s.counts ∨
      (s.chooseName name base).2.counts = (s.uniqueName base).2.counts := by
  cases name with
  | none => exact .inr rfl
  | some _ => exact .inl rfl

private theorem counts_register (s : Session) (name : String) (spec : LayerSpec) (x : Symbolic) :
    (s.register name spec x).2.counts = s.counts := by
  rcases h : s.register name spec x with ⟨e | y, t⟩
  · rw [register_error h]
  · obtain ⟨_, _, _, _, _, _, ht⟩ := register_eq_ok h
    rw [ht]

private theorem counts_perform (s : Session) {c : Call} (hc : c ≠ .clear) :
    (c.perform s).2.counts = s.counts ∨
      ∃ base, (c.perform s).2.counts = (s.uniqueName base).2.counts := by
  cases c with
  | input shape dtype name =>
    left
    rw [Call.perform, answered_session]
    rcases h : s.input shape dtype name with ⟨e | x, t⟩
    · rw [input_error h]
    · rw [(input_eq_ok h).2.2.2]
  | crop layer x =>
    have hchosen := counts_chooseName s layer.name (Text.lower layer.spec.kind)
    rw [Call.perform, answered_session]
    unfold CroppingLayer.apply
    dsimp only
    split
    · exact hchosen.imp_right fun h => ⟨_, h⟩
    · rw [counts_register]
      exact hchosen.imp_right fun h => ⟨_, h⟩
  | lambda layer x =>
    have hchosen := counts_chooseName s layer.name "lambda"
    rw [Call.perform, answered_session]
    unfold LambdaLayer.apply
    dsimp only
    rw [counts_register]
    exact hchosen.imp_right fun h => ⟨_, h⟩
  | uniqueName base => exact .inr ⟨base, rfl⟩
  | assemble inputs outputs =>
    rw [Call.perform, answered_session]
    rcases h : Model.assemble s inputs outputs with ⟨e | m, t⟩
    · exact .inl (by rw [assemble_error h])
    · obtain ⟨_, _, _, _, _, _, _, ht⟩ := assemble_eq_ok_iff.mp h
      exact .inr ⟨"model", by rw [ht]⟩
  | clear => exact absurd rfl hc

private theorem count_le_perform (s : Session) {c : Call} (hc : c ≠ .clear) (base : String) :
    s.count base ≤ (c.perform s).2.count base := by
  rcases counts_perform s hc with hsame | ⟨other, hnext⟩
  · rw [count, count, hsame]
  · rw [show (c.perform s).2.count base = (s.uniqueName other).2.count base by rw [count, count, hnext],
      count_uniqueName]
    split
    · rename_i heq
      rw [heq]
      exact Nat.le_succ _
    · exact Nat.le_refl _

private theorem Spent.perform {s : Session} {name : String} (h : s.Spent name) {c : Call}
    (hc : c ≠ .clear) :
    (c.perform s).2.Spent name := by
  obtain ⟨base, hbase, k, hk, heq⟩ := h
  exact ⟨base, hbase, k, Nat.lt_of_lt_of_le hk (count_le_perform s hc base), heq⟩

private theorem Naming.of_register {s t u : Session} {c : Call} {own : Option String} {base name : String}
    {spec : LayerSpec} {x y : Symbolic} (hbase : base ∈ layerBases)
    (hgives : ∀ other, c.Gives s other ↔ own = some other)
    (hchosen : s.chooseName own base = (name, u)) (hregister : u.register name spec x = (.ok y, t)) :
    Naming s c t := by
  obtain ⟨shape, rfl, -, -, -, -, rfl⟩ := register_eq_ok hregister
  cases own with
  | some given =>
    obtain ⟨rfl, rfl⟩ := Prod.mk.inj hchosen
    refine .layer _ _ rfl rfl rfl (.inl fun other => ?_)
    rw [hgives, Option.some.injEq, eq_comm]
  | none =>
    obtain ⟨rfl, rfl⟩ := Prod.mk.inj hchosen
    refine .layer _ _ rfl rfl rfl (.inr ⟨fun other => ?_, base, hbase, s.count base, ?_, rfl⟩)
    · rw [hgives]
      simp
    · show s.count base < (s.uniqueName base).2.count base
      rw [count_uniqueName, if_pos rfl]
      exact Nat.lt_succ_self _

private theorem naming_perform (s : Session) {c : Call} (hc : c ≠ .clear) : Naming s c (c.perform s).2 := by
  rcases hperform : c.perform s with ⟨e | answer, t⟩
  · have herror : (c.perform s).1 = .error e := by rw [hperform]
    have hsame := Call.tables_of_error herror
    rw [hperform] at hsame
    exact .nothing hsame (Call.not_gives_of_error herror)
  · have hgives := Call.gives_iff_of_ok (show (c.perform s).1 = .ok answer by rw [hperform])
    cases c with
    | input shape dtype name =>
      obtain ⟨x, hx, -⟩ := answered_eq_ok hperform
      obtain ⟨rfl, -, -, rfl⟩ := input_eq_ok hx
      exact .input ⟨name, shape, dtype⟩ rfl rfl hgives
    | crop layer x =>
      obtain ⟨y, hy, -⟩ := answered_eq_ok hperform
      unfold CroppingLayer.apply at hy
      dsimp only at hy
      split at hy
      · cases hy
      · exact .of_register (lower_kind_mem layer.spec) hgives rfl hy
    | lambda layer x =>
      obtain ⟨y, hy, -⟩ := answered_eq_ok hperform
      unfold LambdaLayer.apply at hy
      exact .of_register (by decide) hgives rfl hy
    | uniqueName base =>
      cases hperform
      exact .nothing (s.uniqueName_tables base) fun name => (hgives name).not.mpr id
    | assemble inputs outputs =>
      obtain ⟨m, hm, -⟩ := answered_eq_ok hperform
      obtain ⟨_, _, _, _, _, _, _, rfl⟩ := assemble_eq_ok_iff.mp hm
      exact .nothing (s.uniqueName_tables "model") fun name => (hgives name).not.mpr id
    | clear => exact absurd rfl hc

/-! ## Whose names are taken -/

private theorem Naming.taken {s t : Session} {c : Call} (h : Naming s c t) {name : String}
    (hname : s.Taken name ∨ c.Gives s name) : t.Taken name := by
  cases h with
  | nothing same quiet =>
    unfold Taken
    rw [same.1, same.2]
    exact hname.resolve_right (quiet name)
  | input x tensors layers gives =>
    unfold Taken
    rw [tensors, layers]
    rcases hname with hold | hnew
    · exact hold.imp_right fun ⟨r, hr, heq⟩ => ⟨r, List.mem_append_left _ hr, heq⟩
    · exact .inr ⟨⟨x, none⟩, List.mem_append_right _ List.mem_cons_self, (gives name).mp hnew⟩
  | layer l r tensors layers output named =>
    unfold Taken
    rw [tensors, layers]
    rcases hname with (⟨k, hk, heq⟩ | ⟨q, hq, heq⟩) | hnew
    · exact .inl ⟨k, List.mem_append_left _ hk, heq⟩
    · exact .inr ⟨q, List.mem_append_left _ hq, heq⟩
    · rcases named with hgives | ⟨hnone, -⟩
      · exact .inl ⟨l, List.mem_append_right _ List.mem_cons_self, ((hgives name).mp hnew).symm⟩
      · exact absurd hnew (hnone name)

private theorem Naming.of_taken {s t : Session} {c : Call} (h : Naming s c t) {name : String}
    (hname : t.Taken name) : s.Taken name ∨ c.Gives s name ∨ t.Spent name := by
  unfold Taken at hname
  cases h with
  | nothing same quiet =>
    rw [same.1, same.2] at hname
    exact .inl hname
  | input x tensors layers gives =>
    rw [tensors, layers] at hname
    rcases hname with hlayer | ⟨r, hr, heq⟩
    · exact .inl (.inl hlayer)
    · rcases List.mem_append.mp hr with hr | hr
      · exact .inl (.inr ⟨r, hr, heq⟩)
      · obtain rfl := List.mem_singleton.mp hr
        exact .inr (.inl ((gives name).mpr heq))
  | layer l r tensors layers output named =>
    have hown : l.name = name → c.Gives s name ∨ t.Spent name := by
      rintro rfl
      exact named.imp (fun hgives => (hgives _).mpr rfl) And.right
    rw [tensors, layers] at hname
    rcases hname with ⟨k, hk, heq⟩ | ⟨q, hq, heq⟩
    · rcases List.mem_append.mp hk with hk | hk
      · exact .inl (.inl ⟨k, hk, heq⟩)
      · obtain rfl := List.mem_singleton.mp hk
        exact .inr (hown heq)
    · rcases List.mem_append.mp hq with hq | hq
      · exact .inl (.inr ⟨q, hq, heq⟩)
      · obtain rfl := List.mem_singleton.mp hq
        exact .inr (hown ((String.append_left_inj _).mp (output.symm.trans heq)))

/-- The names that were given by hand are taken, and every name that is taken was given by hand or
generated. -/
structure Accounted (given : String → Prop) (s : Session) : Prop where
  taken : ∀ name, given name → s.Taken name
  source : ∀ name, s.Taken name → given name ∨ s.Spent name

private theorem Accounted.empty {given : String → Prop} (h : ∀ name, ¬ given name) :
    Accounted given empty := by
  refine ⟨fun name hgiven => absurd hgiven (h name), ?_⟩
  rintro name (⟨l, hl, -⟩ | ⟨r, hr, -⟩)
  · cases hl
  · cases hr

private theorem accounted_after (calls : List Call) : Accounted (GivenByHand calls)
    (empty.after calls) := by
  induction calls using List.reverseRecOn with
  | nil => exact .empty not_givenByHand_nil
  | append_singleton calls c ih =>
    by_cases hc : c = .clear
    · subst hc
      rw [after_concat]
      refine .empty fun name => ?_
      rw [givenByHand_concat]
      rintro (⟨hgives, -⟩ | ⟨hclear, -⟩)
      · exact hgives
      · exact hclear rfl
    · have hnaming := naming_perform (Session.empty.after calls) hc
      rw [after_concat]
      constructor
      · intro name hgiven
        rcases (givenByHand_concat calls c name).mp hgiven with hgives | ⟨-, hbefore⟩
        · exact hnaming.taken (.inr hgives)
        · exact hnaming.taken (.inl (ih.taken name hbefore))
      · intro name htaken
        rw [givenByHand_concat]
        rcases hnaming.of_taken htaken with hold | hgives | hspent
        · rcases ih.source name hold with hbefore | hspent
          · exact .inl (.inr ⟨hc, hbefore⟩)
          · exact .inr (hspent.perform hc)
        · exact .inl (.inl hgives)
        · exact .inr hspent

/-- A name that is next to be generated for a layer is taken only if it was given by hand. -/
theorem taken_uniqueName_iff (calls : List Call) {base : String} (hbase : base ∈ layerBases) :
    (empty.after calls).Taken ((empty.after calls).uniqueName base).1 ↔
      GivenByHand calls ((empty.after calls).uniqueName base).1 := by
  have h := accounted_after calls
  refine ⟨fun htaken => ?_, h.taken _⟩
  exact (h.source _ htaken).resolve_right (not_spent_uniqueName _ hbase)

/-! ## Layers without a name of their own -/

/-- The call applies a layer without a name of its own to a tensor that is recorded and of a shape that
the layer accepts. The base is what the name is generated from, the tensor what the layer is to write. -/
inductive Call.Fits (s : Session) : Call → String → Symbolic → Prop
  | crop {rank : Nat} {layer : CroppingLayer rank} {x : Symbolic} {base : String} {shape : List Nat}
      (unnamed : layer.name = none) (kind : Text.lower layer.spec.kind = base)
      (known : s.tensor? x.name = some x) (format : ¬ (rank = 1 ∧ layer.format = .channelsFirst))
      (accepted : layer.spec.outputShape (s.uniqueName base).1 x.shape = .ok shape) :
      Fits s (.crop layer x) base ⟨(s.uniqueName base).1 ++ ":0", shape, x.dtype⟩
  | lambda {layer : LambdaLayer} {x : Symbolic} (unnamed : layer.name = none)
      (known : s.tensor? x.name = some x) :
      Fits s (.lambda layer x) "lambda" ⟨(s.uniqueName "lambda").1 ++ ":0", x.shape, x.dtype⟩

private theorem Call.Fits.base_mem {s : Session} {c : Call} {base : String} {y : Symbolic}
    (h : c.Fits s base y) : base ∈ layerBases := by
  cases h with
  | crop unnamed kind known format accepted => exact kind ▸ lower_kind_mem _
  | lambda unnamed known => decide

section Registering
variable {s : Session} {name : String} {spec : LayerSpec} {x : Symbolic} {shape : List Nat}
  (known : s.tensor? x.name = some x) (accepted : spec.outputShape name x.shape = .ok shape)
include known accepted

private theorem register_of_not_taken (free : ¬ s.Taken name) :
    (s.register name spec x).1 = .ok ⟨name ++ ":0", shape, x.dtype⟩ := by
  have hlayers : s.layers.any (·.name == name) = false := by
    rw [List.any_eq_false]
    intro l hl heq
    exact free (.inl ⟨l, hl, by simpa using heq⟩)
  have hrecord : s.record? (name ++ ":0") = none := by
    rw [record?, List.find?_eq_none]
    intro r hr heq
    exact free (.inr ⟨r, hr, by simpa using heq⟩)
  simp only [register, (checkKnown_eq_ok_iff s x).mpr known, accepted, addLayer, hlayers, addRecord,
    hrecord]
  rfl

private theorem register_of_taken (taken : s.Taken name) :
    ∃ other, (other = name ∨ other = name ++ ":0") ∧
      (s.register name spec x).1 = .error (.duplicateName other) := by
  simp only [register, (checkKnown_eq_ok_iff s x).mpr known, accepted, addLayer]
  by_cases hlayers : s.layers.any (·.name == name) = true
  · exact ⟨name, .inl rfl, by simp only [hlayers, if_true]⟩
  · have hrecord : (s.record? (name ++ ":0")).isSome := by
      rcases taken with ⟨l, hl, heq⟩ | ⟨r, hr, heq⟩
      · exact absurd (List.any_eq_true.mpr ⟨l, hl, by simpa using heq⟩) hlayers
      · rw [record?, List.find?_isSome]
        exact ⟨r, hr, by simpa using heq⟩
    refine ⟨name ++ ":0", .inr rfl, ?_⟩
    simp only [hlayers, addRecord, hrecord]
    rfl

end Registering

private theorem Call.Fits.perform_eq {s : Session} {c : Call} {base : String} {y : Symbolic}
    (h : c.Fits s base y) :
    ∃ spec x, (s.uniqueName base).2.tensor? x.name = some x ∧
      spec.outputShape (s.uniqueName base).1 x.shape = .ok y.shape ∧
      y = ⟨(s.uniqueName base).1 ++ ":0", y.shape, x.dtype⟩ ∧
      c.perform s = answered .tensor
        ((s.uniqueName base).2.register (s.uniqueName base).1 spec x) := by
  cases h with
  | @crop rank layer x _ shape unnamed kind known format accepted =>
    refine ⟨layer.spec, x, known, accepted, rfl, ?_⟩
    rw [Call.perform, CroppingLayer.apply, unnamed, kind]
    simp only [chooseName, if_neg format]
  | @lambda layer x unnamed known =>
    refine ⟨.lambda layer.function, x, known, rfl, rfl, ?_⟩
    rw [Call.perform, LambdaLayer.apply, unnamed]
    rfl

/-- A layer without a name of its own, applied to a tensor that it fits, goes through under a name that
nothing has, unless the name was given by hand since everything was last forgotten: to a layer, or, with
the suffix of outputs, to an input. Then it is refused for a duplicate name. -/
theorem perform_unnamed (calls : List Call) {c : Call} {base : String} {y : Symbolic}
    (h : c.Fits (empty.after calls) base y) :
    let s := empty.after calls
    let name := (s.uniqueName base).1
    (¬ GivenByHand calls name →
      ¬ s.Taken name ∧ (c.perform s).1 = .ok (.tensor y) ∧ y.name = name ++ ":0") ∧
    (GivenByHand calls name →
      ∃ other, (other = name ∨ other = name ++ ":0") ∧
        (c.perform s).1 = .error (.duplicateName other)) := by
  intro s name
  have htaken : s.Taken name ↔ GivenByHand calls name := taken_uniqueName_iff calls h.base_mem
  obtain ⟨spec, x, known, accepted, hy, hperform⟩ := h.perform_eq
  rw [hperform]
  constructor
  · intro hfree
    have hnot : ¬ s.Taken name := htaken.not.mpr hfree
    refine ⟨hnot, ?_, by rw [hy]⟩
    rw [answered_fst, register_of_not_taken known accepted hnot, ← hy]
    rfl
  · intro hgiven
    obtain ⟨other, hother, herror⟩ := register_of_taken known accepted (htaken.mpr hgiven)
    refine ⟨other, hother, ?_⟩
    rw [answered_fst, herror]
    rfl

/-- A cropping of the last of four elements, and a layer that leaves its input as it is. -/
def lastOff (name : Option String) : Call :=
  @Call.crop 1 { margins := #v[⟨0, 1⟩], name := name } ⟨"x", [4, 1], .f32⟩

def identity (name : Option String) : Call :=
  .lambda { function := .ok, name := name } ⟨"x", [4, 1], .f32⟩

/-- Beside a cropping under a name of its own, and after its own first name was spent, a cropping goes
through under the second. -/
theorem perform_unnamed_lastOff :
    let calls : List Call :=
      [.input [4, 1] .f32 "x", lastOff (some "crop"), .uniqueName "cropping1d"]
    let s := empty.after calls
    (lastOff none).Fits s "cropping1d" ⟨"cropping1d_1:0", [3, 1], .f32⟩ ∧
      ¬ GivenByHand calls "cropping1d_1" ∧ ¬ s.Taken "cropping1d_1" ∧
      ((lastOff none).perform s).1 = .ok (.tensor ⟨"cropping1d_1:0", [3, 1], .f32⟩) := by
  intro calls s
  have hname : (s.uniqueName "cropping1d").1 = "cropping1d_1" := by with_unfolding_all rfl
  have hfits : (lastOff none).Fits s "cropping1d" ⟨"cropping1d_1:0", [3, 1], .f32⟩ := by
    have h : (lastOff none).Fits s "cropping1d"
        ⟨(s.uniqueName "cropping1d").1 ++ ":0", [3, 1], .f32⟩ :=
      .crop rfl (by decide) rfl (by decide) rfl
    rwa [hname] at h
  have hfree : ¬ GivenByHand calls "cropping1d_1" :=
    not_givenByHand_of_not_gives (by simp [calls, Call.gives, lastOff])
  have h := (perform_unnamed calls hfits).1 (hname ▸ hfree)
  exact ⟨hfits, hfree, hname ▸ h.1, h.2.1⟩

/-- A layer without a name of its own is refused beside one that was called `lambda` by hand, and beside
an input `lambda:0`. -/
theorem identity_meets_namesake :
    let s := empty.after [.input [4, 1] .f32 "x", identity (some "lambda")]
    let t := empty.after [.input [4, 1] .f32 "x", .input [2] .f32 "lambda:0"]
    (s.Reachable ∧ (identity none).Fits s "lambda" ⟨"lambda:0", [4, 1], .f32⟩ ∧
      ((identity none).perform s).1 = .error (.duplicateName "lambda")) ∧
    t.Reachable ∧ (identity none).Fits t "lambda" ⟨"lambda:0", [4, 1], .f32⟩ ∧
      ((identity none).perform t).1 = .error (.duplicateName "lambda:0") := by
  intro s t
  exact ⟨⟨⟨_, rfl⟩, .lambda rfl rfl, rfl⟩, ⟨_, rfl⟩, .lambda rfl rfl, rfl⟩

end LoweringCheck.Session
