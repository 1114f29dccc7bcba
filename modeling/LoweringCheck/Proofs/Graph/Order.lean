import LoweringCheck.Proofs.Graph.Schedule
/-!
# Execution orders

A schedule lists every node once, and the source of each edge before its target. As long as the edges into
each node can be counted, there is one exactly if the edges stay within the graph and close no cycle; what
is left out otherwise waits for itself, or for an edge from outside.
-/
namespace LoweringCheck.Graph
variable {g : Graph} {order : List Nat}

namespace IsSchedule

theorem mem_iff (h : g.IsSchedule order) {i : Nat} : i ∈ order ↔ i < g.size := by
  rw [h.perm.mem_iff, List.mem_range]

theorem nodup (h : g.IsSchedule order) : order.Nodup :=
  h.perm.nodup_iff.mpr List.nodup_range

theorem source_mem (h : g.IsSchedule order) {before after : List Nat} {e : Edge}
    (horder : order = before ++ e.target :: after) (he : e ∈ g.edges) : e.source ∈ before := by
  have hordered := h.ordered
  rw [horder, List.reverse_append, List.reverse_cons, List.append_assoc] at hordered
  exact List.mem_reverse.mp (hordered.source_mem he rfl)

private theorem exists_split (h : g.IsSchedule order) {i : Nat} (hi : i < g.size) :
    ∃ before after, order = before ++ i :: after :=
  List.append_of_mem (h.mem_iff.mpr hi)

theorem source_lt (h : g.IsSchedule order) {e : Edge} (he : e ∈ g.edges) (htarget : e.target < g.size) :
    e.source < g.size := by
  obtain ⟨before, after, horder⟩ := h.exists_split htarget
  have hsource : e.source ∈ before := h.source_mem horder he
  exact h.mem_iff.mp (horder ▸ List.mem_append_left _ hsource)

theorem idxOf_lt (h : g.IsSchedule order) {e : Edge} (he : e ∈ g.edges) (htarget : e.target < g.size) :
    order.idxOf e.source < order.idxOf e.target := by
  obtain ⟨before, after, horder⟩ := h.exists_split htarget
  have hsource : e.source ∈ before := h.source_mem horder he
  have hnew : e.target ∉ before := by
    have hnodup := h.nodup
    rw [horder] at hnodup
    exact fun hmem => (List.nodup_append.mp hnodup).2.2 _ hmem _ List.mem_cons_self rfl
  rw [horder, List.idxOf_append_of_mem hsource, List.idxOf_append_of_notMem hnew]
  exact (List.idxOf_lt_length_iff.mpr hsource).trans_le (Nat.le_add_right _ _)

private theorem idxOf_lt_of_transGen (h : g.IsSchedule order) (htargets : ∀ e ∈ g.edges, e.target < g.size)
    {i j : Nat} (hij : Relation.TransGen g.Step i j) : order.idxOf i < order.idxOf j := by
  induction hij with
  | single hstep =>
    obtain ⟨e, he, rfl, rfl⟩ := hstep
    exact h.idxOf_lt he (htargets e he)
  | tail _ hstep ih =>
    obtain ⟨e, he, rfl, rfl⟩ := hstep
    exact ih.trans (h.idxOf_lt he (htargets e he))

theorem acyclic (h : g.IsSchedule order) (htargets : ∀ e ∈ g.edges, e.target < g.size) : g.Acyclic :=
  fun _ hi => Nat.lt_irrefl _ (h.idxOf_lt_of_transGen htargets hi)

end IsSchedule

theorem isSchedule_of_idxOf_lt (hperm : order.Perm (List.range g.size))
    (hforward : ∀ e ∈ g.edges, order.idxOf e.source < order.idxOf e.target) : g.IsSchedule order := by
  have hnodup : order.Nodup := hperm.nodup_iff.mpr List.nodup_range
  have hordered : ∀ earlier later : List Nat, order = earlier.reverse ++ later → g.Ordered earlier := by
    intro earlier
    induction earlier with
    | nil => exact fun _ _ => trivial
    | cons id earlier ih =>
      intro later horder
      have hsplit : order = earlier.reverse ++ id :: later := by simpa using horder
      refine ⟨?_, ih _ hsplit⟩
      intro e he htarget
      have hlt := hforward e he
      have hid : id ∉ earlier.reverse := by
        rw [hsplit] at hnodup
        exact fun hmem => (List.nodup_append.mp hnodup).2.2 _ hmem _ List.mem_cons_self rfl
      by_contra hsource
      have hnot : e.source ∉ earlier.reverse := by simpa using hsource
      rw [htarget, hsplit, List.idxOf_append_of_notMem hnot, List.idxOf_append_of_notMem hid,
        List.idxOf_cons_self] at hlt
      omega
  exact ⟨hperm, hordered order.reverse [] (by simp)⟩

/-- Where every edge ends at a node and fewer than 2^31 end at each, no count falls below zero, and
scheduling ends. It finds an order exactly if the edges also come from nodes and close no cycle, whatever
loops and repeated edges there are. Of more edges into one node the count overflows. -/
theorem schedule_ok_iff_acyclic (g : Graph) (htargets : ∀ e ∈ g.edges, e.target < g.size) :
    (g.Sparse →
      (∃ first last : Agenda, g.agenda = .ok first ∧ last.queue = [] ∧
        (∀ rounds, ∃ a, Agenda.run g rounds first = .ok a ∧ ∀ n ∈ a.waiting, 0 ≤ n) ∧
        ∀ rounds, g.size ≤ rounds → Agenda.run g rounds first = .ok last) ∧
      ((∃ order, g.schedule = .ok order) ↔ (∀ e ∈ g.edges, e.source < g.size) ∧ g.Acyclic)) ∧
    (¬ g.Sparse → g.schedule = .error .overflow) ∧
    g.schedule ≠ .error .outOfBounds ∧
    ∀ order, g.schedule = .ok order →
      order.Perm (List.range g.size) ∧
        ∀ e ∈ g.edges, order.idxOf e.source < order.idxOf e.target := by
  refine ⟨?_, fun hdense => schedule_overflow hdense htargets, ?_, ?_⟩
  · intro hsparse
    obtain ⟨first, last, hfirst, hqueue, -, hrounds, hrun⟩ := exists_run hsparse htargets
    refine ⟨⟨first, last, hfirst, hqueue, ?_, hrun⟩, ?_, ?_⟩
    · intro rounds
      obtain ⟨a, ha, hholds⟩ := hrounds rounds
      exact ⟨a, ha, hholds.nonneg⟩
    · intro hok
      obtain ⟨order, horder⟩ := hok
      have hschedule := isSchedule_of_schedule horder
      exact ⟨fun e he => hschedule.source_lt he (htargets e he), hschedule.acyclic htargets⟩
    · intro h
      exact exists_schedule h.2 hsparse fun e he => ⟨h.1 e he, htargets e he⟩
  · by_cases hsparse : g.Sparse
    · obtain ⟨a, -, -, heq⟩ := schedule_eq hsparse htargets
      rw [heq]
      split <;> simp
    · simp [schedule_overflow hsparse htargets]
  · intro order horder
    have hschedule := isSchedule_of_schedule horder
    exact ⟨hschedule.perm, fun e he => hschedule.idxOf_lt he (htargets e he)⟩

/-- Nodes without tensors, joined by the edges given. -/
def ofEdges (size : Nat) (edges : List (Nat × Nat)) : Graph where
  nodes := (List.range size).map fun id => ⟨id, "Identity", none, [], [], .empty⟩
  edges := edges.map fun e => ⟨e.1, e.2, ""⟩
  inputs := []
  outputs := []
  metadata := .empty

/-- A repeated edge holds a node back only until its source has left, a loop or an edge from nowhere for
good. -/
theorem schedule_repeated_edges :
    let g := ofEdges 3 [(2, 0), (2, 0), (0, 1), (2, 1)]
    (∀ e ∈ g.edges, e.target < g.size) ∧ g.Sparse ∧ g.schedule = .ok [2, 0, 1] ∧ g.Acyclic ∧
      (∀ e ∈ g.edges, [2, 0, 1].idxOf e.source < [2, 0, 1].idxOf e.target) ∧
      (¬ ∃ order, (ofEdges 2 [(0, 1), (1, 1)]).schedule = .ok order) ∧
      ¬ ∃ order, (ofEdges 2 [(0, 1), (5, 1)]).schedule = .ok order := by
  intro g
  have htargets : ∀ e ∈ g.edges, e.target < g.size := by decide
  have hsparse : g.Sparse := sparse_of_length (by decide)
  have horder : g.schedule = .ok [2, 0, 1] := rfl
  obtain ⟨hall, -, -, hordered⟩ := schedule_ok_iff_acyclic g htargets
  obtain ⟨hloop, -⟩ := schedule_ok_iff_acyclic (ofEdges 2 [(0, 1), (1, 1)]) (by decide)
  obtain ⟨hnowhere, -⟩ := schedule_ok_iff_acyclic (ofEdges 2 [(0, 1), (5, 1)]) (by decide)
  refine ⟨htargets, hsparse, horder, ((hall hsparse).2.mp ⟨_, horder⟩).2, (hordered _ horder).2, ?_, ?_⟩
  · intro hok
    have hacyclic := ((hloop (sparse_of_length (by decide))).2.mp hok).2
    exact hacyclic 1 (.single ⟨⟨1, 1, ""⟩, by decide, rfl, rfl⟩)
  · intro hok
    have hsource : 5 < 2 := ((hnowhere (sparse_of_length (by decide))).2.mp hok).1 ⟨5, 1, ""⟩ (by decide)
    omega

/-- Two nodes and the same edge as often as given. -/
def parallel (copies source target : Nat) : Graph := ofEdges 2 (List.replicate copies (source, target))

section Parallel
variable {copies source target : Nat} {e : Edge}

private theorem edge_of_parallel (he : e ∈ (parallel copies source target).edges) :
    e = ⟨source, target, ""⟩ := by
  rw [parallel, ofEdges, List.map_replicate] at he
  exact List.eq_of_mem_replicate he

theorem inside_parallel (hsource : source < 2) (htarget : target < 2)
    (he : e ∈ (parallel copies source target).edges) :
    e.source < (parallel copies source target).size ∧ e.target < (parallel copies source target).size := by
  rw [edge_of_parallel he]
  simp [parallel, ofEdges, size, hsource, htarget]

theorem acyclic_parallel (h : source < target) : (parallel copies source target).Acyclic := by
  apply acyclic_of_lt
  intro e he
  rw [edge_of_parallel he]
  exact h

theorem schedule_parallel_overflow (hsource : source < 2) (htarget : target < 2) (hcopies : 2 ^ 31 ≤ copies) :
    (parallel copies source target).schedule = .error .overflow := by
  have hdense : ¬ (parallel copies source target).Sparse := by
    intro hsparse
    have hlt := hsparse target
    simp [parallel, ofEdges, edgesInto] at hlt
    omega
  exact schedule_overflow hdense fun e he => (inside_parallel hsource htarget he).2

end Parallel

/-- An edge that is repeated 2^31 times closes no cycle, and yet there is no order. -/
theorem schedule_repeated_overflow :
    let g := parallel (2 ^ 31) 0 1
    (∀ e ∈ g.edges, e.target < g.size) ∧ (∀ e ∈ g.edges, e.source < g.size) ∧ g.Acyclic ∧
      g.schedule = .error .overflow := by
  intro g
  have hinside : ∀ e ∈ g.edges, e.source < g.size ∧ e.target < g.size := by
    intro e he
    exact inside_parallel Nat.zero_lt_two Nat.one_lt_two he
  refine ⟨fun e he => (hinside e he).2, fun e he => (hinside e he).1, acyclic_parallel Nat.zero_lt_one, ?_⟩
  exact schedule_parallel_overflow Nat.zero_lt_two Nat.one_lt_two (Nat.le_refl (2 ^ 31))

end LoweringCheck.Graph
