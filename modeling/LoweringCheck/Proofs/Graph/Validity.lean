import LoweringCheck.Proofs.Graph.Order
import LoweringCheck.Proofs.Graph.Search
/-!
# Validity

A graph is accepted exactly if it has none of the faults. The search for cycles and the schedule come to
the same verdict on edges that can be counted, so what is accepted can be scheduled then.
-/
namespace LoweringCheck.Graph
variable {g : Graph}

/-- Nodes carry their positions as numbers. -/
def Numbered (g : Graph) : Prop := ∀ (i : Nat) (n : Node), g.nodes[i]? = some n → n.id = i

/-- Edges join nodes of the graph. -/
def Inside (g : Graph) : Prop := ∀ e ∈ g.edges, e.source < g.size ∧ e.target < g.size

instance (g : Graph) : Decidable g.Inside :=
  inferInstanceAs (Decidable (∀ e ∈ g.edges, e.source < g.size ∧ e.target < g.size))

/-- A graph without faults. -/
structure IsValid (g : Graph) : Prop where
  numbered : g.Numbered
  inside : g.Inside
  acyclic : g.Acyclic
  inputs : ∀ n ∈ g.nodes, ∀ tensor ∈ n.inputs, g.supplies tensor = true
  outputs : ∀ x ∈ g.outputs, g.supplies x.name = true

theorem displaced?_eq_none : g.displaced? = none ↔ g.Numbered := by
  simp only [displaced?, List.findSome?_eq_none_iff, Prod.forall, List.mem_zipIdx_iff_getElem?,
    ite_eq_left_iff, reduceCtorEq, imp_false, not_not]
  exact forall_comm

private theorem dangling?_eq_none : g.dangling? = none ↔ g.Inside := by
  simp only [dangling?, List.findSome?_eq_none_iff]
  refine forall₂_congr fun e _ => ?_
  split
  · simp [*]
  · split
    · simp [*]
    · simp
      omega

private theorem unsupplied?_eq_none :
    g.unsupplied? = none ↔ (∀ n ∈ g.nodes, ∀ tensor ∈ n.inputs, g.supplies tensor = true) ∧
      ∀ terminal ∈ g.outputs, g.supplies terminal.name = true := by
  simp [unsupplied?]

private theorem unsupplied?_ne_cyclic : g.unsupplied? ≠ some .cyclic := by
  intro h
  rw [unsupplied?, Option.orElse_eq_orElse, Option.orElse_eq_or, Option.or_eq_some_iff] at h
  rcases h with hnode | ⟨-, houtput⟩
  · obtain ⟨n, -, hn⟩ := List.exists_of_findSome?_eq_some hnode
    obtain ⟨tensor, -, hfault⟩ := Option.map_eq_some_iff.mp hn
    cases hfault
  · obtain ⟨x, -, hfault⟩ := Option.map_eq_some_iff.mp houtput
    cases hfault

theorem validate_eq_ok : g.validate = .ok () ↔ g.fault? = none := by
  unfold validate
  cases g.fault? <;> simp

private theorem fault?_of_inside (hids : g.Numbered) (hedges : g.Inside) :
    g.fault? = if g.hasCycle then some .cyclic else g.unsupplied? := by
  rw [fault?, displaced?_eq_none.mpr hids, dangling?_eq_none.mpr hedges]
  cases g.hasCycle <;> rfl

theorem validate_eq_ok_iff : g.validate = .ok () ↔ g.IsValid := by
  rw [validate_eq_ok]
  constructor
  · intro h
    have hparts := h
    simp only [fault?, Option.orElse_eq_orElse, Option.orElse_eq_or, Option.or_eq_none_iff] at hparts
    have hids : g.Numbered := displaced?_eq_none.mp hparts.1
    have hedges : g.Inside := dangling?_eq_none.mp hparts.2.1
    rw [fault?_of_inside hids hedges] at h
    split at h
    · cases h
    · rename_i hcycle
      have hacyclic : g.Acyclic := not_not.mp fun hnot => hcycle ((hasCycle_iff hedges).mpr hnot)
      obtain ⟨hinputs, houtputs⟩ := unsupplied?_eq_none.mp h
      exact ⟨hids, hedges, hacyclic, hinputs, houtputs⟩
  · intro h
    have hcycle : ¬ g.hasCycle = true := fun hcycle => (hasCycle_iff h.inside).mp hcycle h.acyclic
    rw [fault?_of_inside h.numbered h.inside, if_neg hcycle]
    exact unsupplied?_eq_none.mpr ⟨h.inputs, h.outputs⟩

theorem validate_eq_cyclic_iff (hids : g.Numbered) (hedges : g.Inside) :
    g.validate = .error .cyclic ↔ ¬ g.Acyclic := by
  have hfault : g.validate = .error .cyclic ↔ g.fault? = some .cyclic := by
    unfold validate
    cases g.fault? <;> simp
  rw [hfault, fault?_of_inside hids hedges, ← hasCycle_iff hedges]
  split
  · rename_i hcycle
    exact iff_of_true rfl hcycle
  · rename_i hcycle
    exact iff_of_false unsupplied?_ne_cyclic hcycle

theorem schedule_eq_cyclic_iff (hsparse : g.Sparse) (hedges : g.Inside) :
    g.schedule = .error .cyclic ↔ ¬ g.Acyclic := by
  constructor
  · intro hcyclic hacyclic
    obtain ⟨order, horder⟩ := exists_schedule hacyclic hsparse hedges
    rw [hcyclic] at horder
    cases horder
  · intro hcyclic
    obtain ⟨a, -, -, heq⟩ := schedule_eq hsparse fun e he => (hedges e he).2
    by_cases hlength : a.left.length = g.size
    · rw [if_pos hlength] at heq
      exact absurd ((isSchedule_of_schedule heq).acyclic fun e he => (hedges e he).2) hcyclic
    · rw [heq, if_neg hlength]

theorem IsValid.exists_schedule (h : g.IsValid) (hsparse : g.Sparse) : ∃ order, g.schedule = .ok order :=
  Graph.exists_schedule h.acyclic hsparse h.inside

private theorem append_ne {first rest text : String} (h : ¬ first.toList <+: text.toList) :
    first ++ rest ≠ text := by
  rintro rfl
  exact h (by simp)

private theorem Fault.message_eq_cyclic {fault : Fault} :
    fault.message = "Graph contains cycles" ↔ fault = .cyclic := by
  refine ⟨fun h => ?_, fun h => h ▸ rfl⟩
  unfold message at h
  cases fault with
  | cyclic => rfl
  | missingEndpoint => exact absurd h (by decide)
  | missingSource id => exact absurd h (append_ne (by decide))
  | missingTarget id => exact absurd h (append_ne (by decide))
  | _ =>
    simp only [String.append_assoc] at h
    exact absurd h (append_ne (by decide))

/-- Among nodes in their positions and edges between them, the search for cycles ends with one result, and
it finds a cycle exactly if there is one. With fewer than 2^31 edges into each node validation complains of
a cycle exactly if scheduling does, and everything valid can be scheduled. With more, scheduling overflows
whatever the search has found. -/
theorem validate_cyclic_iff_schedule_error (g : Graph) (hids : g.Numbered) (hedges : g.Inside) :
    (∃ result, (∀ r, Explores g (List.range g.size) noMarks r ↔ r = result) ∧
      g.hasCycle = result.isNone) ∧
    (g.hasCycle = true ↔ ∃ i, Relation.TransGen g.Step i i) ∧
    (g.Sparse →
      ((∃ fault, g.validate = .error fault ∧ fault.message = "Graph contains cycles") ↔
        g.schedule = .error .cyclic) ∧
      (g.validate = .ok () → ∃ order, g.schedule = .ok order)) ∧
    (¬ g.Sparse → g.schedule = .error .overflow) := by
  refine ⟨?_, ?_, ?_, fun hdense => schedule_overflow hdense fun e he => (hedges e he).2⟩
  · obtain ⟨result, hsearch, hcycle⟩ := explores_all fun e he => (hedges e he).2
    refine ⟨result, fun r => ⟨hsearch.unique, ?_⟩, hcycle⟩
    rintro rfl
    exact hsearch
  · rw [hasCycle_iff hedges, Acyclic, not_forall_not]
  · intro hsparse
    constructor
    · rw [schedule_eq_cyclic_iff hsparse hedges, ← validate_eq_cyclic_iff hids hedges]
      constructor
      · intro h
        obtain ⟨fault, hvalidate, hmessage⟩ := h
        rwa [Fault.message_eq_cyclic.mp hmessage] at hvalidate
      · intro hvalidate
        exact ⟨.cyclic, hvalidate, rfl⟩
    · intro hvalidate
      exact (validate_eq_ok_iff.mp hvalidate).exists_schedule hsparse

private theorem numbered_ofEdges (size : Nat) (edges : List (Nat × Nat)) :
    (ofEdges size edges).Numbered := by
  intro i n hn
  simp only [ofEdges, List.getElem?_map, Option.map_eq_some_iff] at hn
  obtain ⟨j, hj, rfl⟩ := hn
  obtain ⟨hlt, rfl⟩ := List.getElem?_eq_some_iff.mp hj
  exact List.getElem_range hlt

/-- A loop at the end of two edges is found, and nothing behind a repeated edge. -/
theorem validate_loop :
    let looped := ofEdges 3 [(0, 2), (1, 2), (2, 2)]
    let repeated := ofEdges 3 [(2, 0), (2, 0), (0, 1), (2, 1)]
    looped.Numbered ∧ looped.Inside ∧ looped.Sparse ∧ looped.hasCycle = true ∧
      (∃ fault, looped.validate = .error fault ∧ fault.message = "Graph contains cycles") ∧
      looped.schedule = .error .cyclic ∧
      repeated.validate = .ok () ∧ ∃ order, repeated.schedule = .ok order := by
  intro looped repeated
  have hids : looped.Numbered := numbered_ofEdges 3 _
  have hedges : looped.Inside := by decide
  have hsparse : looped.Sparse := sparse_of_length (by decide)
  have hrepeated : repeated.validate = .ok () := rfl
  obtain ⟨-, hcycle, hcyclic, -⟩ := validate_cyclic_iff_schedule_error looped hids hedges
  obtain ⟨-, -, hvalid, -⟩ :=
    validate_cyclic_iff_schedule_error repeated (numbered_ofEdges 3 _) (by decide)
  have hfault : looped.schedule = .error .cyclic := rfl
  refine ⟨hids, hedges, hsparse, ?_, (hcyclic hsparse).1.mpr hfault, hfault, hrepeated,
    (hvalid (sparse_of_length (by decide))).2 hrepeated⟩
  exact hcycle.mpr ⟨2, .single ⟨⟨2, 2, ""⟩, by decide, rfl, rfl⟩⟩

section Parallel
variable {copies source target : Nat}

private theorem numbered_parallel : (parallel copies source target).Numbered := numbered_ofEdges 2 _

private theorem isValid_parallel (h : source < target) (htarget : target < 2) :
    (parallel copies source target).IsValid := by
  refine ⟨numbered_parallel, ?_, acyclic_parallel h, ?_, ?_⟩
  · intro e he
    exact inside_parallel (h.trans htarget) htarget he
  · intro n hn tensor htensor
    obtain ⟨id, -, rfl⟩ := List.mem_map.mp hn
    cases htensor
  · intro x hx
    cases hx

private theorem not_acyclic_parallel (hcopies : 0 < copies) : ¬
    (parallel copies target target).Acyclic := by
  intro hacyclic
  apply hacyclic target
  apply Relation.TransGen.single
  refine ⟨⟨target, target, ""⟩, ?_, rfl, rfl⟩
  simp [parallel, ofEdges, hcopies.ne']

end Parallel

/-- Where an edge is repeated 2^31 times, a valid graph is not scheduled, and of a loop that validation
finds scheduling has nothing to say. -/
theorem validate_repeated_overflow :
    let g := parallel (2 ^ 31) 0 1
    let looped := parallel (2 ^ 31) 1 1
    g.Numbered ∧ g.Inside ∧ g.validate = .ok () ∧ g.schedule = .error .overflow ∧
      looped.Numbered ∧ looped.Inside ∧ looped.validate = .error .cyclic ∧
      looped.schedule = .error .overflow := by
  intro g looped
  have hoverflow : ∀ source < 2, (parallel (2 ^ 31) source 1).schedule = .error .overflow := by
    intro source hsource
    exact schedule_parallel_overflow hsource Nat.one_lt_two (Nat.le_refl (2 ^ 31))
  have hvalid : g.IsValid := isValid_parallel Nat.zero_lt_one Nat.one_lt_two
  have hinside : looped.Inside := fun e he => inside_parallel Nat.one_lt_two Nat.one_lt_two he
  have hcyclic : ¬ looped.Acyclic := not_acyclic_parallel (Nat.two_pow_pos 31)
  refine ⟨hvalid.numbered, hvalid.inside, validate_eq_ok_iff.mpr hvalid, hoverflow 0 Nat.zero_lt_two,
    numbered_parallel, hinside, ?_, hoverflow 1 Nat.one_lt_two⟩
  exact (validate_eq_cyclic_iff numbered_parallel hinside).mpr hcyclic

end LoweringCheck.Graph
