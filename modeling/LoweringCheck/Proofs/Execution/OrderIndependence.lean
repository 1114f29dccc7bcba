import LoweringCheck.Proofs.Execution.Readiness
/-!
# The order of execution does not matter

Where edges stand for all that nodes read from each other and no tensor is written twice, a node finds the
same values in every order that follows the edges. A finished run leaves values that every node agrees
with, and a run in any other order can leave no others.
-/
namespace LoweringCheck.Graph

/-- Every tensor has at most one writer, and an edge leads from it to each reader. -/
structure Wired (g : Graph) : Prop where
  numbered : g.Numbered
  written : g.written.Nodup
  covered : g.Covered

/-- No node that is still to be run writes the tensor. -/
def Decided (g : Graph) (done : List Nat) (tensor : String) : Prop :=
  ∀ n ∈ g.nodes, tensor ∈ n.outputs → n.id ∈ done

/-- What a node makes of the values that it reads. -/
def Computes (ops : OperatorSet) (values : Values) (n : Node) (results : List Tensor) : Prop :=
  ∃ op inputs, ops.find n.op = .ok op ∧ gather values n.inputs = .ok inputs ∧
    op.execute inputs n.attributes = .ok results ∧ results.length = n.outputs.length

/-- What a node makes of the values stands among them under the names of its outputs. -/
def Agrees (ops : OperatorSet) (values : Values) (n : Node) : Prop :=
  ∃ results, Computes ops values n results ∧
    ∀ p ∈ n.outputs.zip results, values.lookup p.1 = some p.2

variable {g : Graph} {ops : OperatorSet} {values other last : Values} {order : List Nat}

private theorem schedule_of_run {precision : Precision} {inputs outputs : List Tensor}
    (h : g.run ops precision inputs = .ok outputs) : ∃ order, g.schedule = .ok order := by
  cases hschedule : g.schedule with
  | ok order => exact ⟨order, rfl⟩
  | error fault =>
    rw [run_of_schedule_error hschedule (accepts_of_run h)] at h
    cases h

/-- A graph that has a schedule runs along it. -/
theorem run_eq_runAlong {precision : Precision} {inputs : List Tensor}
    (horder : g.schedule = .ok order) :
    g.run ops precision inputs = g.runAlong ops precision inputs order := by
  by_cases hlength : inputs.length = g.inputs.length
  · rw [run, runAlong, if_pos hlength, if_pos hlength]
    cases bindInputs precision.dtype (g.inputs.zip inputs) [] with
    | error fault => rfl
    | ok values => simp only [horder]
  · rw [run, runAlong, if_neg hlength, if_neg hlength]

private theorem wired_of_connect {h : Graph} (hids : g.Numbered) (hconnect : g.connect = (.ok (), h)) :
    h.Wired := by
  obtain ⟨hwritten, rfl⟩ := connect_eq_ok_iff.mp hconnect
  exact ⟨hids, hwritten, covered_drawn hwritten⟩

private theorem gather_congr {tensors : List String}
    (h : ∀ tensor ∈ tensors, values.lookup tensor = other.lookup tensor) :
    gather values tensors = gather other tensors := by
  induction tensors with
  | nil => rfl
  | cons tensor rest ih =>
    rw [gather, gather, h tensor List.mem_cons_self, ih fun t ht => h t (List.mem_cons_of_mem _ ht)]

private theorem collect_congr (h : ∀ tensor, values.lookup tensor = other.lookup tensor)
    (xs : List Terminal) : collect values xs = collect other xs := by
  induction xs with
  | nil => rfl
  | cons x rest ih => rw [collect, collect, h x.name, ih]

private theorem Computes.congr {n : Node} {results : List Tensor} (h : Computes ops values n results)
    (hinputs : ∀ tensor ∈ n.inputs, values.lookup tensor = other.lookup tensor) :
    Computes ops other n results := by
  obtain ⟨op, inputs, hop, hgather, hrest⟩ := h
  exact ⟨op, inputs, hop, gather_congr hinputs ▸ hgather, hrest⟩

private theorem Computes.length_eq {n : Node} {results : List Tensor} (h : Computes ops values n results) :
    results.length = n.outputs.length := by
  obtain ⟨_, _, _, _, _, hlength⟩ := h
  exact hlength

theorem runNode_eq_ok_iff {n : Node} {next : Values} : runNode ops n values = .ok next ↔
    ∃ results, Computes ops values n results ∧ next = (n.outputs.zip results).reverse ++ values := by
  constructor
  · intro h
    rw [runNode] at h
    split at h
    · cases h
    · rename_i op hop
      split at h
      · cases h
      · rename_i inputs hinputs
        split at h
        · cases h
        · rename_i results hresults
          split at h
          · rename_i hlength
            cases h
            exact ⟨results, ⟨op, inputs, hop, hinputs, hresults, hlength⟩, rfl⟩
          · cases h
  · rintro ⟨results, ⟨op, inputs, hop, hinputs, hresults, hlength⟩, rfl⟩
    simp only [runNode, hop, hinputs, hresults, hlength, if_true]

/-! ## One node -/

section Node
variable {names : List String} {results : List Tensor} {name : String}

private theorem lookup_written_of_notMem (h : name ∉ names) :
    ((names.zip results).reverse ++ values).lookup name = values.lookup name := by
  have hnone : (names.zip results).reverse.lookup name = none := by
    apply List.lookup_eq_none_iff.mpr
    intro p hp
    have hmem : p.1 ∈ names := (List.of_mem_zip (List.mem_reverse.mp hp)).1
    have hne : name ≠ p.1 := fun heq => h (heq ▸ hmem)
    simpa using hne
  rw [List.lookup_append, hnone, Option.none_or]

private theorem lookup_written_of_mem (hlength : results.length = names.length) (hnames : names.Nodup)
    {t : Tensor} (h : (name, t) ∈ names.zip results) :
    ((names.zip results).reverse ++ values).lookup name = some t := by
  have hnodup : ((names.zip results).reverse.map Prod.fst).Nodup := by
    rwa [List.map_reverse, List.nodup_reverse, List.map_fst_zip (Nat.le_of_eq hlength.symm)]
  rw [List.lookup_append, (lookup_eq_some_iff_mem hnodup).mpr (List.mem_reverse.mpr h),
    Option.some_or]

private theorem exists_mem_zip (hlength : results.length = names.length) (h : name ∈ names) :
    ∃ t, (name, t) ∈ names.zip results := by
  rw [← List.map_fst_zip (Nat.le_of_eq hlength.symm)] at h
  obtain ⟨⟨_, t⟩, hp, rfl⟩ := List.mem_map.mp h
  exact ⟨t, hp⟩

end Node

namespace Wired

private theorem outputs_nodup (h : g.Wired) {n : Node} (hn : n ∈ g.nodes) : n.outputs.Nodup :=
  (List.nodup_flatMap.mp h.written).1 n hn

private theorem writer_eq (h : g.Wired) {m n : Node} {tensor : String} (hm : m ∈ g.nodes) (hn : n ∈ g.nodes)
    (hmw : tensor ∈ m.outputs) (hnw : tensor ∈ n.outputs) : m = n :=
  writer_unique h.numbered h.written hm hn hmw hnw

end Wired

private theorem Decided.mono {done : List Nat} {tensor : String} (h : g.Decided done tensor) (id : Nat) :
    g.Decided (done ++ [id]) tensor :=
  fun n hn hwrites => List.mem_append_left _ (h n hn hwrites)

/-- A node of a schedule, between those that are done and those that are not. -/
structure Turn (g : Graph) (before : List Nat) (n : Node) : Prop where
  mem : n ∈ g.nodes
  new : n.id ∉ before
  inputs : ∀ tensor ∈ n.inputs, g.Decided before tensor

private theorem IsSchedule.turn (h : g.IsSchedule order) (hwired : g.Wired) {before after : List Nat}
    {id : Nat} (horder : order = before ++ id :: after) :
    ∃ n, g.node? id = some n ∧ n.id = id ∧ g.Turn before n := by
  have hid : id < g.size := by
    apply h.mem_iff.mp
    simp [horder]
  have hnode : g.node? id = some g.nodes[id] := List.getElem?_eq_getElem hid
  have hn : g.nodes[id] ∈ g.nodes := List.getElem_mem hid
  have heq : g.nodes[id].id = id := hwired.numbered id _ hnode
  refine ⟨g.nodes[id], hnode, heq, hn, ?_, ?_⟩
  · have hnodup := h.nodup
    rw [horder] at hnodup
    rw [heq]
    exact fun hmem => (List.nodup_append.mp hnodup).2.2 _ hmem _ List.mem_cons_self rfl
  · intro tensor hreads m hm hwrites
    obtain ⟨e, he, hsource, htarget⟩ := hwired.covered m hm _ hn tensor hwrites hreads
    have hsplit : order = before ++ e.target :: after := by rw [htarget, heq, horder]
    exact hsource ▸ h.source_mem hsplit he

namespace Turn
variable {before : List Nat} {n : Node} {tensor : String} {results : List Tensor}

private theorem notMem_outputs (h : g.Turn before n) (hdecided : g.Decided before tensor) :
    tensor ∉ n.outputs :=
  fun hwrites => h.new (hdecided n h.mem hwrites)

theorem decided_iff (h : g.Turn before n) (hwired : g.Wired) :
    g.Decided (before ++ [n.id]) tensor ↔ g.Decided before tensor ∨ tensor ∈ n.outputs := by
  constructor
  · intro hdecided
    by_cases hwrites : tensor ∈ n.outputs
    · exact .inr hwrites
    · left
      intro m hm hmw
      rcases List.mem_append.mp (hdecided m hm hmw) with hbefore | hlast
      · exact hbefore
      · have hid : m.id = n.id := List.mem_singleton.mp hlast
        have heq : some m = some n := by
          rw [← node?_id hwired.numbered hm, ← node?_id hwired.numbered h.mem, hid]
        exact absurd (Option.some.inj heq ▸ hmw) hwrites
  · rintro (hdecided | hwrites)
    · exact hdecided.mono n.id
    · intro m hm hmw
      rw [hwired.writer_eq hm h.mem hmw hwrites]
      simp

end Turn

/-! ## Whole runs -/

section Running
variable {before rest : List Nat}

/-- A run keeps what is decided and leaves values that its nodes agree with. -/
theorem runNodes_agrees (hwired : g.Wired) (hschedule : g.IsSchedule order)
    (horder : order = before ++ rest) (hrun : runNodes ops g rest values = .ok last) :
    (∀ tensor, g.Decided before tensor → last.lookup tensor = values.lookup tensor) ∧
      ∀ id ∈ rest, ∀ n, g.node? id = some n → Agrees ops last n := by
  induction rest generalizing before values with
  | nil =>
    cases hrun
    simp
  | cons id rest ih =>
    obtain ⟨n, hnode, rfl, hturn⟩ := hschedule.turn hwired horder
    simp only [runNodes, hnode] at hrun
    split at hrun
    · cases hrun
    · rename_i next hnext
      obtain ⟨results, hcomputes, rfl⟩ := runNode_eq_ok_iff.mp hnext
      have hsplit : order = (before ++ [n.id]) ++ rest := by simpa using horder
      obtain ⟨hkept, hagrees⟩ := ih hsplit hrun
      have hold : ∀ tensor, g.Decided before tensor → last.lookup tensor = values.lookup tensor := by
        intro tensor hdecided
        rw [hkept tensor (hdecided.mono n.id),
          lookup_written_of_notMem (hturn.notMem_outputs hdecided)]
      refine ⟨hold, ?_⟩
      intro i hi m hm
      rcases List.mem_cons.mp hi with rfl | hi
      · obtain rfl : n = m := Option.some.inj (hnode.symm.trans hm)
        refine ⟨results, ?_, ?_⟩
        · exact hcomputes.congr fun tensor hreads => (hold tensor (hturn.inputs tensor hreads)).symm
        · intro p hp
          have hwrites : p.1 ∈ n.outputs := (List.of_mem_zip hp).1
          rw [hkept p.1 ((hturn.decided_iff hwired).mpr (.inr hwrites)),
            lookup_written_of_mem hcomputes.length_eq (hwired.outputs_nodup hturn.mem) hp]
      · exact hagrees i hi m hm

/-- Where all nodes agree with some values, a run from what these have in common with the start leaves
the same values. -/
theorem exists_runNodes (hwired : g.Wired) (hschedule : g.IsSchedule order)
    (horder : order = before ++ rest) (hagrees : ∀ n ∈ g.nodes, Agrees ops last n)
    (hvalues : ∀ tensor, g.Decided before tensor → values.lookup tensor = last.lookup tensor) :
    ∃ final, runNodes ops g rest values = .ok final ∧
      ∀ tensor, final.lookup tensor = last.lookup tensor := by
  induction rest generalizing before values with
  | nil =>
    refine ⟨values, rfl, ?_⟩
    intro tensor
    apply hvalues
    intro n hn _
    have hid := (List.getElem?_eq_some_iff.mp (node?_id hwired.numbered hn)).1
    rw [List.append_nil] at horder
    exact horder ▸ hschedule.mem_iff.mpr hid
  | cons id rest ih =>
    obtain ⟨n, hnode, rfl, hturn⟩ := hschedule.turn hwired horder
    obtain ⟨results, hcomputes, hwritten⟩ := hagrees n hturn.mem
    have hinputs : ∀ tensor ∈ n.inputs, last.lookup tensor = values.lookup tensor :=
      fun tensor hreads => (hvalues tensor (hturn.inputs tensor hreads)).symm
    have hnext := runNode_eq_ok_iff.mpr ⟨results, hcomputes.congr hinputs, rfl⟩
    have hsplit : order = (before ++ [n.id]) ++ rest := by simpa using horder
    have hsame : ∀ tensor, g.Decided (before ++ [n.id]) tensor →
        ((n.outputs.zip results).reverse ++ values).lookup tensor = last.lookup tensor := by
      intro tensor hdecided
      by_cases hwrites : tensor ∈ n.outputs
      · obtain ⟨t, ht⟩ := exists_mem_zip hcomputes.length_eq hwrites
        rw [lookup_written_of_mem hcomputes.length_eq (hwired.outputs_nodup hturn.mem) ht,
          hwritten _ ht]
      · rw [lookup_written_of_notMem hwrites]
        exact hvalues tensor (((hturn.decided_iff hwired).mp hdecided).resolve_right hwrites)
    obtain ⟨final, hfinal, hlookup⟩ := ih hsplit hsame
    refine ⟨final, ?_, hlookup⟩
    simp only [runNodes, hnode, hnext]
    exact hfinal

end Running

/-- What comes out of a run in one order comes out of a run in every other. -/
theorem runInOrder_of_isSchedule (hwired : g.Wired) {first second : List Nat}
    (hfirst : g.IsSchedule first) (hsecond : g.IsSchedule second) {outputs : List Tensor}
    (h : g.runInOrder ops first values = .ok outputs) :
    g.runInOrder ops second values = .ok outputs := by
  rw [runInOrder] at h
  split at h
  · cases h
  · rename_i last hlast
    obtain ⟨hkept, hagrees⟩ := runNodes_agrees hwired hfirst (List.nil_append first).symm hlast
    have hall : ∀ n ∈ g.nodes, Agrees ops last n := by
      intro n hn
      have hnode := node?_id hwired.numbered hn
      exact hagrees n.id (hfirst.mem_iff.mpr (List.getElem?_eq_some_iff.mp hnode).1) n hnode
    obtain ⟨final, hfinal, hlookup⟩ := exists_runNodes hwired hsecond (List.nil_append second).symm
      hall fun tensor hdecided => (hkept tensor hdecided).symm
    rw [runInOrder]
    simp only [hfinal]
    rw [collect_congr hlookup]
    exact h

private theorem runAlong_of_isSchedule (hwired : g.Wired) {first second : List Nat}
    (hfirst : g.IsSchedule first) (hsecond : g.IsSchedule second) {precision : Precision}
    {inputs outputs : List Tensor} (h : g.runAlong ops precision inputs first = .ok outputs) :
    g.runAlong ops precision inputs second = .ok outputs := by
  rw [runAlong] at h ⊢
  split at h
  · rename_i hlength
    rw [if_pos hlength]
    cases hbound : bindInputs precision.dtype (g.inputs.zip inputs) [] with
    | error fault => simp [hbound] at h
    | ok bound =>
      simp only [hbound] at h
      exact runInOrder_of_isSchedule hwired hfirst hsecond h
  · cases h

private theorem exists_schedule_of_connect {h : Graph} (hids : g.Numbered)
    (hconnect : g.connect = (.ok (), h))
    (hsparse : h.Sparse) (horder : h.IsSchedule order) : ∃ scheduled, h.schedule = .ok scheduled := by
  obtain ⟨hwritten, rfl⟩ := connect_eq_ok_iff.mp hconnect
  have htargets : ∀ e ∈ g.drawnEdges, e.target < g.size := by
    intro e he
    obtain ⟨n, hn, -, htarget, -⟩ := (mem_drawnEdges hwritten).mp he
    rw [htarget]
    exact (List.getElem?_eq_some_iff.mp (node?_id hids hn)).1
  exact exists_schedule (horder.acyclic htargets) hsparse fun e he =>
    ⟨horder.source_lt he (htargets e he), htargets e he⟩

/-- A connected graph gives the same outputs in all orders of its nodes in which each edge leads forward,
or it fails in all of them, whatever the operators and the inputs. Running it picks one of these orders, if
the edges can be counted. -/
theorem runAlong_order_irrelevant (g : Graph) (hids : g.Numbered) {h : Graph}
    (hconnect : g.connect = (.ok (), h)) {first second : List Nat}
    (hfirst : first.Perm (List.range h.size)) (hsecond : second.Perm (List.range h.size))
    (hforward : ∀ e ∈ h.edges, first.idxOf e.source < first.idxOf e.target ∧
      second.idxOf e.source < second.idxOf e.target)
    (ops : OperatorSet) (precision : Precision) (inputs : List Tensor) :
    (∃ outputs, h.runAlong ops precision inputs first = .ok outputs ∧
      h.runAlong ops precision inputs second = .ok outputs ∧
      (h.Sparse → h.run ops precision inputs = .ok outputs)) ∨
    ((∃ fault, h.runAlong ops precision inputs first = .error fault) ∧
      (∃ fault, h.runAlong ops precision inputs second = .error fault) ∧
      ∃ fault, h.run ops precision inputs = .error fault) := by
  have hwired := wired_of_connect hids hconnect
  have hone := isSchedule_of_idxOf_lt hfirst fun e he => (hforward e he).1
  have htwo := isSchedule_of_idxOf_lt hsecond fun e he => (hforward e he).2
  cases hrun : h.runAlong ops precision inputs first with
  | ok outputs =>
    left
    refine ⟨outputs, rfl, runAlong_of_isSchedule hwired hone htwo hrun, ?_⟩
    intro hsparse
    obtain ⟨scheduled, hscheduled⟩ := exists_schedule_of_connect hids hconnect hsparse hone
    rw [run_eq_runAlong hscheduled]
    exact runAlong_of_isSchedule hwired hone (isSchedule_of_schedule hscheduled) hrun
  | error fault =>
    right
    refine ⟨⟨fault, rfl⟩, ?_, ?_⟩
    · cases hother : h.runAlong ops precision inputs second with
      | error fault => exact ⟨fault, rfl⟩
      | ok outputs =>
        rw [runAlong_of_isSchedule hwired htwo hone hother] at hrun
        cases hrun
    · cases hother : h.run ops precision inputs with
      | error fault => exact ⟨fault, rfl⟩
      | ok outputs =>
        obtain ⟨scheduled, hscheduled⟩ := schedule_of_run hother
        rw [run_eq_runAlong hscheduled] at hother
        rw [runAlong_of_isSchedule hwired (isSchedule_of_schedule hscheduled) hone hother] at hrun
        cases hrun

/-- A node writes over an input that the nodes around it read. -/
def overwriting : Graph where
  nodes := [⟨0, "Identity", none, ["given"], ["left"], .empty⟩,
    ⟨1, "Identity", none, ["fresh"], ["given"], .empty⟩,
    ⟨2, "Identity", none, ["given"], ["right"], .empty⟩]
  edges := []
  inputs := [⟨"given", [0], .f32⟩, ⟨"fresh", [0], .f32⟩]
  outputs := [⟨"left", [0], .f32⟩, ⟨"right", [0], .f32⟩]
  metadata := .empty

/-- Both readers get what was written over the input, whichever is run first. -/
theorem runAlong_overwriting :
    let inputs := [Tensor.zeros [2] .f32, Tensor.zeros [3] .f32]
    ∃ h outputs, overwriting.connect = (.ok (), h) ∧ h.Sparse ∧ outputs.map Tensor.shape = [[3], [3]] ∧
      h.runAlong .standard .fp16 inputs [1, 0, 2] = .ok outputs ∧
      h.runAlong .standard .fp16 inputs [1, 2, 0] = .ok outputs ∧
      h.run .standard .fp16 inputs = .ok outputs := by
  intro inputs
  have hids : overwriting.Numbered := displaced?_eq_none.mp rfl
  have hconnect : overwriting.connect = (.ok (), _) := rfl
  have hsparse : Sparse { overwriting with edges := overwriting.drawnEdges } := sparse_of_length (by decide)
  have hfirst : [1, 0, 2].Perm (List.range 3) := by decide
  have hsecond : [1, 2, 0].Perm (List.range 3) := by decide
  rcases runAlong_order_irrelevant overwriting hids hconnect hfirst hsecond (by decide) .standard
    .fp16 inputs with ⟨outputs, hone, htwo, hrun⟩ | ⟨⟨fault, hfault⟩, -⟩
  · refine ⟨_, outputs, hconnect, hsparse, ?_, hone, htwo, hrun hsparse⟩
    cases hone
    rfl
  · cases hfault

end LoweringCheck.Graph
