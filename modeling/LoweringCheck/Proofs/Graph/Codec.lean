import LoweringCheck.Proofs.Graph.Reals
import LoweringCheck.Proofs.Json.Reading
/-!
# Graphs as they are stored

What is read from the tokens of a graph whose numbers have 64 bits is the graph with its reals as they are
read; it is not read if one of them is not. The text of a graph is split into the tokens that the graph is
read from if that holds of the numbers in its attributes.
-/
namespace LoweringCheck
open Json (Reader Number Token)
open Json.Reader

variable {w : Number → Token} {v : Binary .double → Option (Binary .double)}

private theorem DType.read_gives (t : DType) : DType.read.Gives w 0 (.text t.code) (some t) := by
  cases t <;> exact choice_gives rfl

namespace Attribute

private theorem tagged_gives {k : Kind} {name : String} {x : Json} {o : Option Attribute}
    (hname : Kind.names.lookup name = some k) (hx : k.read.Gives w 1 x o) :
    Attribute.read.Gives w 2 (toJson.tagged name x) o := by
  have hkind : ((choice Kind.names).map Draft.kind).Gives w 1 (.text name) (some (.kind k)) :=
    ((choice_gives hname).mono (Nat.zero_le _)).map Draft.kind
  have hvalue : (k.read.map Draft.complete).Gives w 1 x (o.map .complete) := hx.map Draft.complete
  exact (record_gives (.cons rfl rfl hkind (.last rfl rfl hvalue))).filterMap (by cases o <;> rfl)

private theorem read_gives (hw : Keeps w v) (a : Attribute) :
    Attribute.read.Gives w 2 a.toJson (a.mapReals? v) := by
  cases a with
  | int i =>
    have hread := ((int64_gives hw i).mono (Nat.zero_le 1)).map Attribute.int
    exact tagged_gives (k := .int) rfl hread
  | float x =>
    have hread := ((real_gives hw x).mono (Nat.zero_le 1)).map Attribute.float
    exact tagged_gives (k := .float) rfl hread
  | text s =>
    have hread := ((text_gives (w := w) s).mono (Nat.zero_le 1)).map Attribute.text
    exact tagged_gives (k := .text) rfl hread
  | ints is =>
    have hitems := list_reads hw.noBracket fun i (_ : i ∈ is) => int64_gives hw i
    exact tagged_gives (k := .ints) rfl (hitems.map Attribute.ints)
  | floats xs =>
    have hitems := list_gives hw.noBracket fun x (_ : x ∈ xs) => real_gives hw x
    exact tagged_gives (k := .floats) rfl (hitems.map Attribute.floats)

end Attribute

private theorem texts_gives (hw : Keeps w v) (xs : List String) :
    (list text).Gives w 1 (.array (xs.map .text)) (some xs) :=
  list_reads hw.noBracket fun s _ => text_gives s

private theorem naturals_gives (hw : Keeps w v) {ns : List Nat} (h : ∀ n ∈ ns, n ≤ naturalLimit) :
    (list size).Gives w 1 (.array (ns.map .natural)) (some ns) :=
  list_reads hw.noBracket fun n hn => natural_gives hw (h n hn)

private theorem Node.read_gives (hw : Keeps w v) {n : Node} (h : n.id ≤ naturalLimit) :
    Node.read.Gives w 4 n.toJson (n.mapReals? v) := by
  have hname : (optional text).Gives w 0 (.ofOptional n.name) (some n.name) := by
    cases n.name with
    | none => exact optional_null text
    | some name => exact optional_text (text_gives name)
  have hattributes : (dictionary Attribute.read).Gives w 3
      (.ofDictionary Attribute.toJson n.attributes) (n.attributes.map? (Attribute.mapReals? v)) :=
    dictionary_gives fun e _ => e.2.read_gives hw
  exact (record_gives
    (.cons rfl rfl (part_gives _ ((natural_gives hw h).mono (Nat.zero_le _)))
    (.cons rfl rfl (part_gives _ ((text_gives n.op).mono (Nat.zero_le _)))
    (.cons rfl rfl (part_gives _ (hname.mono (Nat.zero_le _)))
    (.cons rfl rfl (part_gives _ ((texts_gives hw n.inputs).mono (by decide)))
    (.cons rfl rfl (part_gives _ ((texts_gives hw n.outputs).mono (by decide)))
    (.last rfl rfl (part_gives _ hattributes)))))))).filterMap (by
      unfold mapReals?
      cases n.attributes.map? (Attribute.mapReals? v) <;> rfl)

private theorem Edge.read_gives (hw : Keeps w v) {e : Edge} (hsource : e.source ≤ naturalLimit)
    (htarget : e.target ≤ naturalLimit) : Edge.read.Gives w 1 e.toJson (some e) :=
  (record_gives
    (.cons rfl rfl (part_gives _ (natural_gives hw hsource))
    (.cons rfl rfl (part_gives _ (natural_gives hw htarget))
    (.cons rfl rfl (part_gives _ (text_gives e.tensor))
    (.nil _))))).filterMap rfl

private theorem Terminal.read_gives (hw : Keeps w v) {x : Terminal}
    (h : ∀ extent ∈ x.shape, extent ≤ naturalLimit) :
    Terminal.read.Gives w 2 x.toJson (some x) :=
  (record_gives
    (.cons rfl rfl (part_gives _ ((text_gives x.name).mono (Nat.zero_le _)))
    (.cons rfl rfl (part_gives _ (naturals_gives hw h))
    (.cons rfl rfl (part_gives _ (x.dtype.read_gives.mono (Nat.zero_le _)))
    (.nil _))))).filterMap rfl

namespace Graph

/-- The numbers of a graph apart from those in its attributes have 64 bits. -/
structure Bounded (g : Graph) : Prop where
  ids : ∀ n ∈ g.nodes, n.id ≤ naturalLimit
  edges : ∀ e ∈ g.edges, e.source ≤ naturalLimit ∧ e.target ≤ naturalLimit
  shapes : ∀ x ∈ g.inputs ++ g.outputs, ∀ extent ∈ x.shape, extent ≤ naturalLimit

/-- The numbers in a graph have 64 bits, and those in its attributes are read again as they are. -/
structure Storable (g : Graph) : Prop extends g.Bounded where
  attributes : ∀ n ∈ g.nodes, ∀ e ∈ n.attributes.entries, e.2.toJson.Stable

theorem read_gives (hw : Keeps w v) {g : Graph} (h : g.Bounded) :
    Graph.read.Gives w 6 g.toJson (g.mapReals? v) := by
  have hnodes : (list Node.read).Gives w 5 (.array (g.nodes.map Node.toJson))
      (g.nodes.mapM (Node.mapReals? v)) :=
    list_gives hw.noBracket fun n hn => Node.read_gives hw (h.ids n hn)
  have hedges : (list Edge.read).Gives w 2 (.array (g.edges.map Edge.toJson)) (some g.edges) :=
    list_reads hw.noBracket fun e he => Edge.read_gives hw (h.edges e he).1 (h.edges e he).2
  have hterminals : ∀ xs : List Terminal, (∀ x ∈ xs, x ∈ g.inputs ++ g.outputs) →
      (list Terminal.read).Gives w 3 (.array (xs.map Terminal.toJson)) (some xs) := fun xs hxs =>
    list_reads hw.noBracket fun x hx => Terminal.read_gives hw (h.shapes x (hxs x hx))
  have hmetadata : (dictionary text).Gives w 1 (.ofDictionary .text g.metadata) (some g.metadata) := by
    have hentries : (dictionary text).Gives w 1 (.ofDictionary .text g.metadata) (g.metadata.map? some) :=
      dictionary_gives fun e _ => text_gives e.2
    rwa [Dictionary.map?_eq_self_iff.mpr fun _ _ => rfl] at hentries
  unfold mapReals?
  generalize g.nodes.mapM (Node.mapReals? v) = o at hnodes ⊢
  cases o with
  | none => exact (record_gives (.stop rfl rfl (part_gives _ hnodes))).filterMap rfl
  | some nodes =>
    exact (record_gives
      (.cons rfl rfl (part_gives _ hnodes)
      (.cons rfl rfl (part_gives _ (hedges.mono (by decide)))
      (.cons rfl rfl (part_gives _ ((hterminals g.inputs fun x hx => by simp [hx]).mono (by decide)))
      (.cons rfl rfl (part_gives _ ((hterminals g.outputs fun x hx => by simp [hx]).mono (by decide)))
      (.cons rfl rfl (part_gives _ (hmetadata.mono (by decide)))
      (.nil _))))))).filterMap rfl

end Graph

/-! ## The numbers in the text of a graph -/

variable (hw : ∀ i, w (.integer i) = .number (.integer i))

private theorem reads_texts (xs : List String) : (Json.ofTexts xs).Reads w := by
  simp [Json.ofTexts]

private theorem reads_dictionary {α : Type} {write : α → Json} {d : Dictionary α}
    (h : ∀ e ∈ d.entries, (write e.2).Reads w) : (Json.ofDictionary write d).Reads w := by
  rw [Json.ofDictionary, Json.reads_object]
  intro m hm
  obtain ⟨e, he, rfl⟩ := List.mem_map.mp hm
  exact h e he

include hw

private theorem Terminal.reads_toJson {x : Terminal} (h : ∀ extent ∈ x.shape, extent ≤ naturalLimit) :
    x.toJson.Reads w := by
  have hshape : (Json.ofNaturals x.shape).Reads w := by
    rw [Json.ofNaturals, Json.reads_array]
    intro y hy
    obtain ⟨n, hn, rfl⟩ := List.mem_map.mp hy
    exact Json.reads_natural hw (h n hn)
  simp [Terminal.toJson, hshape]

private theorem Node.reads_toJson {n : Node} (hid : n.id ≤ naturalLimit)
    (hattributes : ∀ e ∈ n.attributes.entries, e.2.toJson.Reads w) : n.toJson.Reads w := by
  have hname : (Json.ofOptional n.name).Reads w := by cases n.name <;> simp [Json.ofOptional]
  simp [Node.toJson, Json.reads_natural hw hid, hname, reads_texts, reads_dictionary hattributes]

theorem Graph.reads_toJson {g : Graph} (h : g.Bounded)
    (hattributes : ∀ n ∈ g.nodes, ∀ e ∈ n.attributes.entries, e.2.toJson.Reads w) :
    g.toJson.Reads w := by
  have hnodes : ∀ n ∈ g.nodes, n.toJson.Reads w := fun n hn =>
    n.reads_toJson hw (h.ids n hn) (hattributes n hn)
  have hedges : ∀ e ∈ g.edges, e.toJson.Reads w := fun e he => by
    simp [Edge.toJson, Json.reads_natural hw (h.edges e he).1, Json.reads_natural hw (h.edges e he).2]
  have hterminals : ∀ x ∈ g.inputs ++ g.outputs, x.toJson.Reads w := fun x hx =>
    x.reads_toJson hw (h.shapes x hx)
  have hmetadata : (Json.ofDictionary .text g.metadata).Reads w :=
    reads_dictionary fun e _ => Json.reads_text e.2
  rw [toJson, Json.reads_object]
  simp only [List.mem_cons, List.not_mem_nil, or_false, forall_eq_or_imp, forall_eq,
    Json.reads_array, List.mem_map, forall_exists_index, and_imp, forall_apply_eq_imp_iff₂]
  exact ⟨hnodes, hedges, fun x hx => hterminals x (List.mem_append_left _ hx),
    fun x hx => hterminals x (List.mem_append_right _ hx), hmetadata⟩

end LoweringCheck
