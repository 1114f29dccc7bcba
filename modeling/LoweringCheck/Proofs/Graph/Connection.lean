import LoweringCheck.Graph.Connect
import LoweringCheck.Proofs.Graph.Validity
import LoweringCheck.Proofs.Lookup
/-!
# Connected graphs

Connecting is refused exactly if some tensor is written twice. Else it draws one edge to every node input
that is written, in the order of the nodes and of their inputs, and drawing them again changes nothing.
-/
namespace LoweringCheck.Graph
variable {g : Graph}

/-- The tensors that nodes write, in their order. -/
def written (g : Graph) : List String := g.nodes.flatMap (·.outputs)

/-- The tensors that nodes read, each after its reader, in their order. -/
def readings (g : Graph) : List (Nat × String) := g.nodes.flatMap fun n => n.inputs.map (n.id, ·)

theorem productions_names (g : Graph) : g.productions.map Prod.fst = g.written := by
  simp [productions, written, List.map_flatMap, Function.comp_def]

theorem mem_productions {tensor : String} {id : Nat} :
    (tensor, id) ∈ g.productions ↔ ∃ n ∈ g.nodes, tensor ∈ n.outputs ∧ n.id = id := by
  simp [productions]

theorem supplies_iff {tensor : String} : g.supplies tensor = true ↔
    tensor ∈ g.inputs.map (·.name) ∨ ∃ n ∈ g.nodes, tensor ∈ n.outputs := by
  simp [supplies]

theorem node?_id (hids : g.Numbered) {n : Node} (hn : n ∈ g.nodes) : g.node? n.id = some n := by
  obtain ⟨i, hi⟩ := List.mem_iff_getElem?.mp hn
  rw [hids i n hi]
  exact hi

theorem writer_unique (hids : g.Numbered) (hwritten : g.written.Nodup) {m n : Node} {tensor : String}
    (hm : m ∈ g.nodes) (hn : n ∈ g.nodes) (hmw : tensor ∈ m.outputs) (hnw : tensor ∈ n.outputs) :
    m = n := by
  have hnames : (g.productions.map Prod.fst).Nodup := g.productions_names ▸ hwritten
  have hfirst := (lookup_eq_some_iff_mem hnames).mpr (mem_productions.mpr ⟨m, hm, hmw, rfl⟩)
  have hsecond := (lookup_eq_some_iff_mem hnames).mpr (mem_productions.mpr ⟨n, hn, hnw, rfl⟩)
  have hid : m.id = n.id := Option.some.inj (hfirst.symm.trans hsecond)
  have hnode : some m = some n := by rw [← node?_id hids hm, ← node?_id hids hn, hid]
  exact Option.some.inj hnode

private theorem firstRepeat_eq_none {seen names : List String} :
    firstRepeat seen names = none ↔ names.Nodup ∧ ∀ name ∈ names, name ∉ seen := by
  induction names generalizing seen with
  | nil => simp [firstRepeat]
  | cons name rest ih =>
    rw [firstRepeat, List.nodup_cons]
    by_cases hseen : name ∈ seen
    · simp [hseen]
    · have hrest : (∀ other ∈ rest, other ∉ name :: seen) ↔
          name ∉ rest ∧ ∀ other ∈ rest, other ∉ seen := by
        simp only [List.mem_cons, not_or, forall_and]
        refine and_congr_left fun _ => ⟨fun h hmem => h name hmem rfl, ?_⟩
        rintro h other hother rfl
        exact h hother
      rw [if_neg (by simpa using hseen), ih, hrest, List.forall_mem_cons]
      tauto

private theorem connect_of_nodup (h : g.written.Nodup) : g.connect =
    (.ok (), { g with edges := g.drawnEdges }) := by
  have hnone : firstRepeat [] g.written = none := firstRepeat_eq_none.mpr ⟨h, by simp⟩
  rw [connect, productions_names, hnone]

private theorem connect_of_not_nodup (h : ¬ g.written.Nodup) : ∃ fault, g.connect = (.error fault, g) := by
  rw [connect, productions_names]
  cases hrepeat : firstRepeat [] g.written with
  | none => exact absurd (firstRepeat_eq_none.mp hrepeat).1 h
  | some tensor => exact ⟨.duplicateProducer tensor, rfl⟩

theorem connect_eq_ok_iff {h : Graph} :
    g.connect = (.ok (), h) ↔ g.written.Nodup ∧ h = { g with edges := g.drawnEdges } := by
  by_cases hwritten : g.written.Nodup
  · simp [connect_of_nodup hwritten, hwritten, eq_comm]
  · obtain ⟨fault, hconnect⟩ := connect_of_not_nodup hwritten
    simp [hconnect, hwritten]

theorem connect_fst_eq_error_iff : (∃ fault, g.connect.1 = .error fault) ↔ ¬ g.written.Nodup := by
  constructor
  · intro hfails hwritten
    obtain ⟨fault, hfault⟩ := hfails
    simp [connect_of_nodup hwritten] at hfault
  · intro hwritten
    obtain ⟨fault, hconnect⟩ := connect_of_not_nodup hwritten
    exact ⟨fault, congrArg Prod.fst hconnect⟩

theorem connect_snd_of_error {fault : Fault} (h : g.connect.1 = .error fault) : g.connect.2 = g := by
  obtain ⟨_, hconnect⟩ := connect_of_not_nodup (connect_fst_eq_error_iff.mp ⟨fault, h⟩)
  rw [hconnect]

theorem mem_drawnEdges (h : g.written.Nodup) {e : Edge} :
    e ∈ g.drawnEdges ↔ ∃ n ∈ g.nodes, e.tensor ∈ n.inputs ∧ e.target = n.id ∧
      (e.tensor, e.source) ∈ g.productions := by
  have hnames : (g.productions.map Prod.fst).Nodup := g.productions_names ▸ h
  simp only [drawnEdges, List.mem_flatMap, List.mem_filterMap, Option.map_eq_some_iff,
    lookup_eq_some_iff_mem hnames]
  constructor
  · rintro ⟨n, hn, tensor, htensor, source, hsource, rfl⟩
    exact ⟨n, hn, htensor, rfl, hsource⟩
  · rintro ⟨n, hn, htensor, htarget, hsource⟩
    exact ⟨n, hn, e.tensor, htensor, e.source, hsource, by rw [← htarget]⟩

/-- Every edge stands for one input of a node, and only inputs that nobody writes are passed over. -/
theorem drawnEdges_readings (g : Graph) :
    g.drawnEdges.map (fun e => (e.target, e.tensor)) =
      g.readings.filter fun reading => g.written.contains reading.2 := by
  have hwritten : ∀ tensor, g.written.contains tensor = (g.productions.lookup tensor).isSome := by
    intro tensor
    rw [Bool.eq_iff_iff, List.contains_iff_mem, ← productions_names, Option.isSome_iff_exists]
    refine ⟨exists_lookup, ?_⟩
    rintro ⟨writer, hwriter⟩
    exact List.mem_map_of_mem (mem_of_lookup hwriter)
  have hnode : ∀ (id : Nat) (tensors : List String),
      (tensors.filterMap fun tensor => (g.productions.lookup tensor).map fun writer =>
        (⟨writer, id, tensor⟩ : Edge)).map (fun e => (e.target, e.tensor)) =
      (tensors.map (id, ·)).filter fun reading => g.written.contains reading.2 := by
    intro id tensors
    induction tensors with
    | nil => rfl
    | cons tensor rest ih =>
      rw [List.filterMap_cons, List.map_cons, List.filter_cons, hwritten, ← ih]
      cases g.productions.lookup tensor <;> rfl
  rw [drawnEdges, readings, List.map_flatMap, List.filter_flatMap]
  exact congrArg (g.nodes.flatMap ·) (funext fun n => hnode n.id n.inputs)

theorem drawnEdges_source (hids : g.Numbered) (hwritten : g.written.Nodup) {e : Edge}
    (he : e ∈ g.drawnEdges) : ∃ n, g.node? e.source = some n ∧ e.tensor ∈ n.outputs ∧
      ∀ m ∈ g.nodes, e.tensor ∈ m.outputs → m = n := by
  obtain ⟨_, -, -, -, hproduced⟩ := (mem_drawnEdges hwritten).mp he
  obtain ⟨n, hn, htensor, hid⟩ := mem_productions.mp hproduced
  refine ⟨n, hid ▸ node?_id hids hn, htensor, ?_⟩
  intro m hm hmw
  exact writer_unique hids hwritten hm hn hmw htensor

end LoweringCheck.Graph
