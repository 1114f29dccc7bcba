import LoweringCheck.Operator.Standard
import LoweringCheck.Proofs.Execution.Run
import LoweringCheck.Proofs.Graph.Connection
/-!
# Nothing is read before it is written

Where edges stand for all that nodes read from each other, a schedule leaves no node without its inputs, and
whatever the operators compute, no tensor is missing in a run. Connected graphs are of this kind. That a
graph is valid does not make it so: the names of tensors and the edges are validated apart.
-/
namespace LoweringCheck

/-- The fault is that a tensor is not there. -/
def ExecutionFault.Missing : ExecutionFault → Prop
  | unavailable _ => True
  | neverProduced _ => True
  | _ => False

namespace Graph
variable {g : Graph} {order : List Nat} {tensor : String}

/-- A tensor enters the graph or is written by one of the nodes that are done. -/
def Available (g : Graph) (done : List Nat) (tensor : String) : Prop :=
  tensor ∈ g.inputs.map (·.name) ∨ ∃ id ∈ done, ∃ n, g.node? id = some n ∧ tensor ∈ n.outputs

/-- Every node reads only what is available before it. -/
def Ready (g : Graph) (order : List Nat) : Prop :=
  ∀ (before : List Nat) (id : Nat) (after : List Nat), order = before ++ id :: after →
    ∀ n, g.node? id = some n → ∀ tensor ∈ n.inputs, g.Available before tensor

/-- An edge leads to every node from the nodes that write what it reads. -/
def Covered (g : Graph) : Prop :=
  ∀ m ∈ g.nodes, ∀ n ∈ g.nodes, ∀ tensor ∈ m.outputs, tensor ∈ n.inputs → g.Step m.id n.id

instance (g : Graph) : Decidable g.Covered :=
  inferInstanceAs (Decidable (∀ m ∈ g.nodes, ∀ n ∈ g.nodes, ∀ tensor ∈ m.outputs,
    tensor ∈ n.inputs → ∃ e ∈ g.edges, e.source = m.id ∧ e.target = n.id))

private theorem available_append {done : List Nat} {id : Nat} : g.Available (done ++ [id]) tensor ↔
    g.Available done tensor ∨ ∃ n, g.node? id = some n ∧ tensor ∈ n.outputs := by
  simp only [Available, List.mem_append, List.mem_singleton, or_and_right, exists_or, exists_eq_left,
    or_assoc]

private theorem IsSchedule.available (h : g.IsSchedule order) (hids : g.Numbered)
    (hsupplied : g.supplies tensor = true) : g.Available order tensor := by
  refine (supplies_iff.mp hsupplied).imp_right ?_
  rintro ⟨n, hn, htensor⟩
  have hnode := node?_id hids hn
  exact ⟨n.id, h.mem_iff.mpr (List.getElem?_eq_some_iff.mp hnode).1, n, hnode, htensor⟩

private theorem IsSchedule.ready (h : g.IsSchedule order) (hvalid : g.IsValid) (hcovered : g.Covered) :
    g.Ready order := by
  intro before id after horder n hnode tensor htensor
  have hn : n ∈ g.nodes := List.mem_of_getElem? hnode
  have hid : n.id = id := hvalid.numbered id n hnode
  refine (supplies_iff.mp (hvalid.inputs n hn tensor htensor)).imp_right ?_
  rintro ⟨m, hm, hwritten⟩
  obtain ⟨e, he, hsource, htarget⟩ := hcovered m hm n hn tensor hwritten htensor
  have hbefore : e.source ∈ before := h.source_mem (htarget.trans hid ▸ horder) he
  exact ⟨m.id, hsource ▸ hbefore, m, node?_id hvalid.numbered hm, hwritten⟩

/-- A result with a property, or a fault other than a missing tensor. -/
def Supplied {α : Type} (P : α → Prop) : Except ExecutionFault α → Prop
  | .ok x => P x
  | .error fault => ¬ fault.Missing

private theorem Supplied.ne_missing {α : Type} {P : α → Prop} {result : Except ExecutionFault α}
    (h : Supplied P result) (tensor : String) :
    result ≠ .error (.unavailable tensor) ∧ result ≠ .error (.neverProduced tensor) := by
  constructor
  · rintro rfl
    exact h trivial
  · rintro rfl
    exact h trivial

section Running
variable {ops : OperatorSet} {values : Values}

private theorem exists_gather {tensors : List String}
    (h : ∀ tensor ∈ tensors, tensor ∈ values.map Prod.fst) :
    ∃ ts, gather values tensors = .ok ts := by
  induction tensors with
  | nil => exact ⟨[], rfl⟩
  | cons tensor rest ih =>
    obtain ⟨t, ht⟩ := exists_lookup (h tensor List.mem_cons_self)
    obtain ⟨ts, hts⟩ := ih fun other hother => h other (List.mem_cons_of_mem _ hother)
    exact ⟨t :: ts, by simp only [gather, ht, hts]⟩

private theorem runNode_supplied {n : Node} (h : ∀ tensor ∈ n.inputs, tensor ∈ values.map Prod.fst) :
    Supplied (fun next => next.map Prod.fst = n.outputs.reverse ++ values.map Prod.fst)
      (runNode ops n values) := by
  obtain ⟨inputs, hinputs⟩ := exists_gather h
  rw [runNode]
  split
  · exact not_false
  · simp only [hinputs]
    split
    · exact not_false
    · split
      · rename_i results _ hlength
        show List.map Prod.fst _ = _
        rw [List.map_append, List.map_reverse, List.map_fst_zip (Nat.le_of_eq hlength.symm)]
      · exact not_false

/-- The nodes before a point of the order have left all that is available there. -/
theorem runNodes_supplied {before rest : List Nat} (hready : g.Ready order)
    (horder : order = before ++ rest)
    (hknown : ∀ tensor, g.Available before tensor → tensor ∈ values.map Prod.fst) :
    Supplied (fun final => ∀ tensor, g.Available order tensor → tensor ∈ final.map Prod.fst)
      (runNodes ops g rest values) := by
  induction rest generalizing before values with
  | nil =>
    rw [horder, List.append_nil]
    exact hknown
  | cons id rest ih =>
    rw [runNodes]
    split
    · exact not_false
    · rename_i n hnode
      have hinputs : ∀ tensor ∈ n.inputs, tensor ∈ values.map Prod.fst := fun tensor htensor =>
        hknown tensor (hready before id rest horder n hnode tensor htensor)
      have hrun : Supplied _ (runNode ops n values) := runNode_supplied hinputs
      cases hnext : runNode ops n values with
      | error fault =>
        rw [hnext] at hrun
        exact hrun
      | ok next =>
        rw [hnext] at hrun
        have hnames : next.map Prod.fst = n.outputs.reverse ++ values.map Prod.fst := hrun
        have hsplit : order = (before ++ [id]) ++ rest := by
          rw [horder, List.append_assoc, List.singleton_append]
        refine ih hsplit fun tensor havailable => ?_
        rw [hnames, List.mem_append, List.mem_reverse]
        rcases available_append.mp havailable with hearlier | ⟨m, hm, hwritten⟩
        · exact .inr (hknown tensor hearlier)
        · rw [hnode, Option.some.injEq] at hm
          exact .inl (hm ▸ hwritten)

private theorem collect_supplied {xs : List Terminal} (h : ∀ x ∈ xs, x.name ∈ values.map Prod.fst) :
    Supplied (fun _ => True) (collect values xs) := by
  induction xs with
  | nil => trivial
  | cons x rest ih =>
    obtain ⟨t, ht⟩ := exists_lookup (h x List.mem_cons_self)
    have hrest := ih fun y hy => h y (List.mem_cons_of_mem _ hy)
    simp only [collect, ht]
    split
    · cases hcollect : collect values rest with
      | ok ts => trivial
      | error fault =>
        rw [hcollect] at hrest
        exact hrest
    · exact not_false

private theorem run_supplied_of_ready {precision : Precision} {inputs : List Tensor} (hvalid : g.IsValid)
    (horder : g.schedule = .ok order) (hready : g.Ready order)
    (haccepts : List.Forall₂ (fun x t => x.accepts t.shape = true) g.inputs inputs) :
    Supplied (fun _ => True) (g.run ops precision inputs) := by
  have hschedule := isSchedule_of_schedule horder
  have hnames : ∀ tensor, g.Available [] tensor → tensor ∈
      ((g.inputs.zip inputs).map fun p => (p.1.name, p.2.toDType precision.dtype)).reverse.map
        Prod.fst := by
    intro tensor havailable
    have hinput : tensor ∈ g.inputs.map (·.name) :=
      havailable.resolve_right fun ⟨_, hmem, _⟩ => List.not_mem_nil hmem
    rw [List.map_reverse, List.mem_reverse, List.map_map]
    show tensor ∈ (g.inputs.zip inputs).map ((·.name) ∘ Prod.fst)
    rwa [← List.map_map, List.map_fst_zip (Nat.le_of_eq haccepts.length_eq)]
  have hnodes : Supplied _ (runNodes ops g order _) :=
    runNodes_supplied hready (List.nil_append order).symm hnames
  rw [run_eq horder haccepts, runInOrder]
  cases hrun : runNodes ops g order _ with
  | error fault =>
    rw [hrun] at hnodes
    exact hnodes
  | ok values =>
    rw [hrun] at hnodes
    apply collect_supplied
    intro x hx
    exact hnodes x.name (hschedule.available hvalid.numbered (hvalid.outputs x hx))

end Running

theorem covered_drawn (hwritten : g.written.Nodup) : Covered { g with edges := g.drawnEdges } := by
  intro m hm n hn tensor houtput hinput
  have hproduced : (tensor, m.id) ∈ g.productions := mem_productions.mpr ⟨m, hm, houtput, rfl⟩
  refine ⟨⟨m.id, n.id, tensor⟩, ?_, rfl, rfl⟩
  exact (mem_drawnEdges hwritten).mpr ⟨n, hn, hinput, rfl, hproduced⟩

/-- A valid graph whose edges stand for all that nodes read from each other misses no tensor. If it is not
scheduled, no node is run at all. -/
theorem run_supplied {precision : Precision} {inputs : List Tensor} (hvalid : g.IsValid)
    (hcovered : g.Covered)
    (haccepts : List.Forall₂ (fun x t => x.accepts t.shape = true) g.inputs inputs) :
    Supplied (fun _ => True) (g.run ops precision inputs) := by
  cases horder : g.schedule with
  | ok order =>
    have hready := (isSchedule_of_schedule horder).ready hvalid hcovered
    exact run_supplied_of_ready hvalid horder hready haccepts
  | error fault =>
    rw [run_of_schedule_error horder haccepts]
    exact not_false

/-- Connecting fails, and then leaves a graph as it was, exactly if some tensor is written twice. Else the
new edges are one for each input of a node that some node writes, in their order and from its only writer,
and connecting again changes nothing. In every schedule of what is valid then no node comes before what it
reads, and no tensor is missing in a run, whatever the operators. There is a schedule if the edges can be
counted. -/
theorem reconnect_ready (g : Graph) (hids : g.Numbered) :
    ((∃ fault, g.connect.1 = .error fault) ↔ ¬ g.written.Nodup) ∧
    (∀ fault, g.connect.1 = .error fault → g.connect.2 = g) ∧
    ∀ h, g.connect = (.ok (), h) →
      h = { g with edges := h.edges } ∧
      h.edges.map (fun e => (e.target, e.tensor)) =
        g.readings.filter (fun reading => g.written.contains reading.2) ∧
      (∀ e ∈ h.edges, ∃ n, g.node? e.source = some n ∧ e.tensor ∈ n.outputs ∧
        ∀ m ∈ g.nodes, e.tensor ∈ m.outputs → m = n) ∧
      h.connect = (.ok (), h) ∧
      (h.validate = .ok () →
        (h.Sparse → ∃ order, h.schedule = .ok order) ∧
        (∀ order, h.schedule = .ok order → order.Perm (List.range h.size) ∧ h.Ready order) ∧
        ∀ (ops : OperatorSet) (precision : Precision) (inputs : List Tensor),
          List.Forall₂ (fun x t => x.accepts t.shape = true) h.inputs inputs → ∀ tensor,
            h.run ops precision inputs ≠ .error (.unavailable tensor) ∧
            h.run ops precision inputs ≠ .error (.neverProduced tensor)) := by
  refine ⟨connect_fst_eq_error_iff, fun fault => connect_snd_of_error, ?_⟩
  intro h hconnect
  obtain ⟨hwritten, rfl⟩ := connect_eq_ok_iff.mp hconnect
  refine ⟨rfl, g.drawnEdges_readings, fun e => drawnEdges_source hids hwritten, ?_, ?_⟩
  · exact connect_eq_ok_iff.mpr ⟨hwritten, rfl⟩
  · intro hvalidate
    have hvalid := validate_eq_ok_iff.mp hvalidate
    have hcovered := covered_drawn hwritten
    refine ⟨hvalid.exists_schedule, ?_, ?_⟩
    · intro order horder
      have hschedule := isSchedule_of_schedule horder
      exact ⟨hschedule.perm, hschedule.ready hvalid hcovered⟩
    · intro ops precision inputs haccepts
      exact (run_supplied hvalid hcovered haccepts).ne_missing

/-- A tensor passes through two nodes, of which the first in the list comes last. -/
def lateWriter : Graph where
  nodes := [⟨0, "Identity", none, ["middle"], ["last"], .empty⟩,
    ⟨1, "Identity", none, ["first"], ["middle"], .empty⟩]
  edges := []
  inputs := [⟨"first", [0], .f32⟩]
  outputs := [⟨"last", [0], .f32⟩]
  metadata := .empty

private theorem numbered_lateWriter : lateWriter.Numbered := by
  intro i n hn
  match i with
  | 0 => cases hn; rfl
  | 1 => cases hn; rfl
  | i + 2 => cases hn

/-- The writer comes first once it is connected to the reader. -/
theorem reconnect_lateWriter :
    let t := Tensor.zeros [4] .f16
    ∃ h, lateWriter.connect = (.ok (), h) ∧ h.edges = [⟨1, 0, "middle"⟩] ∧ h.Sparse ∧
      h.schedule = .ok [1, 0] ∧ h.Ready [1, 0] ∧
      ∀ tensor, h.run .standard .fp32 [t] ≠ .error (.unavailable tensor) := by
  intro t
  have hconnect : lateWriter.connect = (.ok (), _) := rfl
  obtain ⟨-, -, hconnected⟩ := reconnect_ready lateWriter numbered_lateWriter
  obtain ⟨-, -, -, -, hvalid⟩ := hconnected _ hconnect
  obtain ⟨hscheduled, hready, hrun⟩ := hvalid rfl
  have hsparse : Sparse { lateWriter with edges := lateWriter.drawnEdges } := sparse_of_length (by decide)
  obtain ⟨order, horder⟩ := hscheduled hsparse
  obtain rfl : [1, 0] = order := Except.ok.inj horder
  have haccepts : List.Forall₂ (fun (x : Terminal) t => x.accepts (Tensor.shape t) = true)
      lateWriter.inputs [t] := .cons rfl .nil
  exact ⟨_, hconnect, rfl, hsparse, horder, (hready _ horder).2, fun tensor => (hrun _ _ _ haccepts tensor).1⟩

/-- A valid graph in which no tensor is written twice and edges stand for all that nodes read from each
other runs without missing a tensor. Writers come before readers in its schedule, and there is one if the
edges can be counted. -/
theorem run_of_covered (g : Graph) (hvalidate : g.validate = .ok ()) (hwritten : g.written.Nodup)
    (hcovered : g.Covered) :
    (∀ m ∈ g.nodes, ∀ n ∈ g.nodes, ∀ tensor ∈ m.outputs, tensor ∈ n.outputs → m = n) ∧
    (g.Sparse → ∃ order, g.schedule = .ok order) ∧
    (∀ order, g.schedule = .ok order →
      ∀ m ∈ g.nodes, ∀ n ∈ g.nodes, ∀ tensor ∈ m.outputs, tensor ∈ n.inputs →
        order.idxOf m.id < order.idxOf n.id) ∧
    ∀ (ops : OperatorSet) (precision : Precision) (inputs : List Tensor),
      List.Forall₂ (fun x t => x.accepts t.shape = true) g.inputs inputs → ∀ tensor,
        g.run ops precision inputs ≠ .error (.unavailable tensor) := by
  have hvalid := validate_eq_ok_iff.mp hvalidate
  refine ⟨?_, hvalid.exists_schedule, ?_, ?_⟩
  · intro m hm n hn tensor hfirst hsecond
    exact writer_unique hvalid.numbered hwritten hm hn hfirst hsecond
  · intro order horder m hm n hn tensor hwrites hreads
    obtain ⟨e, he, hsource, htarget⟩ := hcovered m hm n hn tensor hwrites hreads
    rw [← hsource, ← htarget]
    exact (isSchedule_of_schedule horder).idxOf_lt he (hvalid.inside e he).2
  · intro ops precision inputs haccepts tensor
    exact ((run_supplied hvalid hcovered haccepts).ne_missing tensor).1

/-- The writer is given its edge to the reader. -/
theorem run_covered_lateWriter :
    let g := { lateWriter with edges := [⟨1, 0, "middle"⟩] }
    g.validate = .ok () ∧ g.written.Nodup ∧ g.Covered ∧ g.Sparse ∧ g.schedule = .ok [1, 0] ∧
      ∀ tensor, g.run .standard .fp16 [Tensor.zeros [4] .f16] ≠ .error (.unavailable tensor) := by
  intro g
  have hvalidate : g.validate = .ok () := rfl
  have hwritten : g.written.Nodup := by decide
  have hcovered : g.Covered := by decide
  have hsparse : g.Sparse := sparse_of_length (by decide)
  obtain ⟨-, hscheduled, -, hrun⟩ := run_of_covered g hvalidate hwritten hcovered
  obtain ⟨order, horder⟩ := hscheduled hsparse
  obtain rfl : [1, 0] = order := Except.ok.inj horder
  exact ⟨hvalidate, hwritten, hcovered, hsparse, horder, hrun _ _ _ (.cons rfl .nil)⟩

/-- Without the edge the same graph is as valid, but it is run in the order of the list. Two writers of one
tensor pass as well. -/
theorem valid_lateWriter_reads_early :
    (lateWriter.validate = .ok () ∧ lateWriter.schedule = .ok [0, 1] ∧
      lateWriter.run .standard .fp32 [Tensor.zeros [4] .f16] = .error (.unavailable "middle")) ∧
    let g := { lateWriter with nodes := [⟨0, "Identity", none, ["first"], ["last"], .empty⟩,
      ⟨1, "Identity", none, ["first"], ["last"], .empty⟩] }
    g.validate = .ok () ∧ ¬ g.written.Nodup ∧
      ∃ outputs, g.run .standard .fp32 [Tensor.zeros [4] .f16] = .ok outputs := by
  refine ⟨⟨rfl, rfl, rfl⟩, rfl, by decide, _, rfl⟩

end Graph
end LoweringCheck
