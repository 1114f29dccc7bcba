import Mathlib.Data.List.Count
import LoweringCheck.Graph.Validate
import LoweringCheck.Proofs.Graph.Schedule
/-!
# Searching for cycles

The depth-first search is described as a relation without a bound on its depth, one constructor for each
thing that a visit can do. While it goes on, the active nodes lead to whatever is visited next, so an
active node that is met again closes a cycle. Finished nodes have only finished nodes after them, and none
lies on a cycle. Every level makes a fresh node active, so the search ends within the depth that it is
given.
-/
namespace LoweringCheck.Graph
variable {g : Graph} {ids : List Nat} {marks : Marks} {result : Option Marks}

/-- The nodes that edges lead to, once for each edge. -/
def successors (g : Graph) (id : Nat) : List Nat := (g.edgesFrom id).map Edge.target

private theorem mem_successors {i j : Nat} : j ∈ g.successors i ↔ g.Step i j := by
  simp only [successors, edgesFrom, List.mem_map, List.mem_filter, beq_iff_eq, Step, and_assoc]

/-- A search from some nodes, one after the other, from the marks given. It comes to new marks, or to none
where an active node is met again. -/
inductive Explores (g : Graph) : List Nat → Marks → Option Marks → Prop where
  | done (marks : Marks) : Explores g [] marks (some marks)
  | met {id : Nat} {rest : List Nat} {marks : Marks} (active : marks id = .active) :
      Explores g (id :: rest) marks none
  | passed {id : Nat} {rest : List Nat} {marks : Marks} {result : Option Marks}
      (finished : marks id = .finished) (next : Explores g rest marks result) :
      Explores g (id :: rest) marks result
  | stopped {id : Nat} {rest : List Nat} {marks : Marks} (fresh : marks id = .fresh)
      (below : Explores g (g.successors id) (marks.set id .active) none) :
      Explores g (id :: rest) marks none
  | left {id : Nat} {rest : List Nat} {marks inner : Marks} {result : Option Marks}
      (fresh : marks id = .fresh)
      (below : Explores g (g.successors id) (marks.set id .active) (some inner))
      (next : Explores g rest (inner.set id .finished) result) :
      Explores g (id :: rest) marks result

theorem Explores.unique {other : Option Marks} (h : Explores g ids marks result)
    (h' : Explores g ids marks other) : other = result := by
  induction h generalizing other with
  | done => cases h' with | done => rfl
  | met active =>
    cases h' with
    | met => rfl
    | passed finished => simp [active] at finished
    | stopped fresh | left fresh => simp [active] at fresh
  | passed finished _ ih =>
    cases h' with
    | passed _ next => exact ih next
    | met active => simp [finished] at active
    | stopped fresh | left fresh => simp [finished] at fresh
  | stopped fresh _ ih =>
    cases h' with
    | stopped => rfl
    | left _ below => exact nomatch ih below
    | met active => simp [fresh] at active
    | passed finished => simp [fresh] at finished
  | left fresh _ _ ihbelow ihnext =>
    cases h' with
    | left _ below next =>
      cases ihbelow below
      exact ihnext next
    | stopped _ below => exact nomatch ihbelow below
    | met active => simp [fresh] at active
    | passed finished => simp [fresh] at finished

namespace Marks

@[simp] theorem set_self (marks : Marks) (id : Nat) (mark : Mark) : marks.set id mark id = mark :=
  if_pos rfl

private theorem set_of_ne {i id : Nat} (h : i ≠ id) (marks : Marks) (mark : Mark) :
    marks.set id mark i = marks i :=
  if_neg h

/-- The same nodes are active. -/
def SameActive (marks marks' : Marks) : Prop := ∀ i, marks i = .active ↔ marks' i = .active

/-- All active nodes lead to the nodes that are visited next. -/
def LeadTo (g : Graph) (marks : Marks) (ids : List Nat) : Prop :=
  ∀ i, marks i = .active → ∀ j ∈ ids, Relation.TransGen g.Step i j

/-- What comes after a finished node is finished, and no finished node lies on a cycle. -/
structure Settled (g : Graph) (marks : Marks) : Prop where
  closed : ∀ i j, g.Step i j → marks i = .finished → marks j = .finished
  acyclic : ∀ i, marks i = .finished → ¬ Relation.TransGen g.Step i i

/-- What a search from some nodes comes to. -/
structure Searched (g : Graph) (ids : List Nat) (marks marks' : Marks) : Prop where
  active : marks.SameActive marks'
  settled : marks'.Settled g
  kept : ∀ i, marks i = .finished → marks' i = .finished
  visited : ∀ i ∈ ids, marks' i = .finished

section Descent
variable {id : Nat} {rest : List Nat}

private theorem LeadTo.descend (h : marks.LeadTo g (id :: rest)) :
    (marks.set id .active).LeadTo g (g.successors id) := by
  intro i hactive j hj
  have hstep : g.Step id j := mem_successors.mp hj
  by_cases hi : i = id
  · exact hi ▸ .single hstep
  · rw [set_of_ne hi] at hactive
    exact (h i hactive id List.mem_cons_self).tail hstep

private theorem Settled.descend (h : marks.Settled g) (hfresh : marks id = .fresh) :
    (marks.set id .active).Settled g := by
  have hfinished : ∀ i, marks.set id .active i = .finished ↔ marks i = .finished := by
    intro i
    by_cases hi : i = id
    · simp [hi, hfresh]
    · rw [set_of_ne hi]
  constructor
  · intro i j hstep hi
    exact (hfinished j).mpr (h.closed i j hstep ((hfinished i).mp hi))
  · intro i hi
    exact h.acyclic i ((hfinished i).mp hi)

private theorem Settled.finished_of_transGen (h : marks.Settled g) {i j : Nat}
    (hij : Relation.TransGen g.Step i j) (hi : marks i = .finished) : marks j = .finished := by
  induction hij with
  | single hstep => exact h.closed _ _ hstep hi
  | tail _ hstep ih => exact h.closed _ _ hstep ih

variable {inner : Marks}

private theorem Searched.acyclic (h : Searched g (g.successors id) (marks.set id .active) inner) :
    ¬ Relation.TransGen g.Step id id := by
  intro hcycle
  have hactive : inner id = .active := (h.active id).mp (set_self marks id .active)
  obtain ⟨j, hstep, hback⟩ := Relation.TransGen.head'_iff.mp hcycle
  have hj : inner j = .finished := h.visited j (mem_successors.mpr hstep)
  have hfinished : inner id = .finished := by
    rcases Relation.reflTransGen_iff_eq_or_transGen.mp hback with heq | hback
    · exact heq ▸ hj
    · exact h.settled.finished_of_transGen hback hj
  rw [hactive] at hfinished
  cases hfinished

private theorem Searched.settled_leave (h : Searched g (g.successors id) (marks.set id .active) inner) :
    (inner.set id .finished).Settled g := by
  have hkept : ∀ j, inner j = .finished → inner.set id .finished j = .finished := by
    intro j hj
    by_cases heq : j = id
    · rw [heq, set_self]
    · rw [set_of_ne heq, hj]
  constructor
  · intro i j hstep hi
    by_cases heq : i = id
    · subst heq
      exact hkept j (h.visited j (mem_successors.mpr hstep))
    · rw [set_of_ne heq] at hi
      exact hkept j (h.settled.closed i j hstep hi)
  · intro i hi
    by_cases heq : i = id
    · exact heq ▸ h.acyclic
    · rw [set_of_ne heq] at hi
      exact h.settled.acyclic i hi

private theorem Searched.active_leave (h : Searched g (g.successors id) (marks.set id .active) inner)
    (hfresh : marks id = .fresh) : marks.SameActive (inner.set id .finished) := by
  intro i
  by_cases heq : i = id
  · simp [heq, hfresh]
  · have hsame := h.active i
    rwa [set_of_ne heq] at hsame ⊢

private theorem Searched.kept_leave (h : Searched g (g.successors id) (marks.set id .active) inner)
    {i : Nat}
    (hi : marks i = .finished) : inner.set id .finished i = .finished := by
  by_cases heq : i = id
  · rw [heq, set_self]
  · rw [set_of_ne heq]
    exact h.kept i ((set_of_ne heq marks .active).trans hi)

private theorem Searched.leave {marks' : Marks}
    (h : Searched g (g.successors id) (marks.set id .active) inner) (hfresh : marks id = .fresh)
    (hnext : Searched g rest (inner.set id .finished) marks') :
    Searched g (id :: rest) marks marks' := by
  refine ⟨?_, hnext.settled, ?_, ?_⟩
  · intro i
    exact (h.active_leave hfresh i).trans (hnext.active i)
  · intro i hi
    exact hnext.kept i (h.kept_leave hi)
  · intro i hi
    rcases List.mem_cons.mp hi with rfl | hi
    · exact hnext.kept i (set_self inner i .finished)
    · exact hnext.visited i hi

private theorem LeadTo.of_sameActive {marks' : Marks} (h : marks.LeadTo g (id :: rest))
    (hsame : marks.SameActive marks') : marks'.LeadTo g rest :=
  fun i hi j hj => h i ((hsame i).mpr hi) j (List.mem_cons_of_mem _ hj)

end Descent
end Marks

/-- A search comes to an end only by finishing what it visits or by closing a cycle. -/
theorem Explores.searched (h : Explores g ids marks result) (hlead : marks.LeadTo g ids)
    (hsettled : marks.Settled g) :
    (∀ marks', result = some marks' → Marks.Searched g ids marks marks') ∧
      (result = none → ¬ g.Acyclic) := by
  induction h with
  | done marks =>
    refine ⟨?_, nofun⟩
    rintro _ ⟨⟩
    exact ⟨fun _ => Iff.rfl, hsettled, fun _ hi => hi, fun _ hi => nomatch hi⟩
  | @met id _ _ active =>
    refine ⟨nofun, fun _ hacyclic => ?_⟩
    exact hacyclic id (hlead id active id List.mem_cons_self)
  | @passed id rest marks _ finished _ ih =>
    obtain ⟨hsome, hnone⟩ := ih (hlead.of_sameActive fun _ => Iff.rfl) hsettled
    refine ⟨fun marks' hresult => ?_, hnone⟩
    have hrest := hsome marks' hresult
    refine ⟨hrest.active, hrest.settled, hrest.kept, fun i hi => ?_⟩
    rcases List.mem_cons.mp hi with rfl | hi
    · exact hrest.kept i finished
    · exact hrest.visited i hi
  | stopped fresh _ ih =>
    exact ⟨nofun, fun _ => (ih hlead.descend (hsettled.descend fresh)).2 rfl⟩
  | left fresh _ _ ihbelow ihnext =>
    have hbelow := (ihbelow hlead.descend (hsettled.descend fresh)).1 _ rfl
    obtain ⟨hsome, hnone⟩ :=
      ihnext (hlead.of_sameActive (hbelow.active_leave fresh)) hbelow.settled_leave
    exact ⟨fun marks' hresult => hbelow.leave fresh (hsome marks' hresult), hnone⟩

private theorem Marks.fresh_of_leave {id : Nat} {inner : Marks} (hfresh : marks id = .fresh)
    (hbelow : ∀ i, inner i = .fresh → marks.set id .active i = .fresh) (i : Nat)
    (hi : inner.set id .finished i = .fresh) : marks i = .fresh := by
  by_cases heq : i = id
  · exact heq ▸ hfresh
  · rw [set_of_ne heq] at hi
    have hset := hbelow i hi
    rwa [set_of_ne heq] at hset

private theorem Explores.fresh {marks' : Marks} (h : Explores g ids marks (some marks')) :
    ∀ i, marks' i = .fresh → marks i = .fresh := by
  generalize hresult : some marks' = result at h
  induction h generalizing marks' with
  | done =>
    cases hresult
    exact fun _ hi => hi
  | met | stopped => cases hresult
  | passed _ _ ih => exact ih hresult
  | left hmark _ _ ihbelow ihnext =>
    intro i hi
    exact Marks.fresh_of_leave hmark (ihbelow rfl) i (ihnext hresult i hi)

/-- How many nodes have not been met. -/
def Marks.freshCount (g : Graph) (marks : Marks) : Nat :=
  (List.range g.size).countP fun i => marks i = .fresh

private theorem Marks.freshCount_le {marks' : Marks} (h : ∀ i, marks' i = .fresh → marks i = .fresh) :
    marks'.freshCount g ≤ marks.freshCount g :=
  List.countP_mono_left fun i _ hi => by simpa using h i (by simpa using hi)

private theorem Marks.freshCount_active {id : Nat} (hid : id < g.size) (hfresh : marks id = .fresh) :
    (marks.set id .active).freshCount g < marks.freshCount g := by
  have hsplit : ∀ nodes : List Nat, nodes.countP (fun i => marks i = .fresh) =
      nodes.countP (fun i => marks.set id .active i = .fresh) + nodes.count id := by
    intro nodes
    induction nodes with
    | nil => rfl
    | cons i rest ih =>
      by_cases hi : i = id
      · subst hi
        simp [ih, hfresh]
        omega
      · simp only [List.countP_cons, ih, set_of_ne hi, List.count_cons_of_ne hi]
        omega
  have hcount : (List.range g.size).count id = 1 :=
    List.count_eq_one_of_mem List.nodup_range (List.mem_range.mpr hid)
  have hnodes := hsplit (List.range g.size)
  unfold freshCount
  omega

/-- The search ends, and the visits that are bounded in their depth come to its result. -/
theorem explores_visit (htargets : ∀ e ∈ g.edges, e.target < g.size) (depth : Nat)
    (hids : ∀ i ∈ ids, i < g.size) (hdepth : marks.freshCount g < depth) :
    Explores g ids marks (ids.foldlM (visit g.successors depth) marks) := by
  induction depth generalizing ids marks with
  | zero => exact absurd hdepth (Nat.not_lt_zero _)
  | succ depth ih =>
    induction ids generalizing marks with
    | nil => exact .done marks
    | cons id rest ihrest =>
      have hrest : ∀ i ∈ rest, i < g.size := fun i hi => hids i (List.mem_cons_of_mem _ hi)
      rw [List.foldlM_cons, visit]
      cases hmark : marks id with
      | active => exact .met hmark
      | finished => exact .passed hmark (ihrest hrest hdepth)
      | fresh =>
        have hsuccessors : ∀ i ∈ g.successors id, i < g.size := by
          intro i hi
          obtain ⟨e, he, _, rfl⟩ := mem_successors.mp hi
          exact htargets e he
        have hfewer := Marks.freshCount_active (hids id List.mem_cons_self) hmark
        have hbelow := ih hsuccessors (by omega : (marks.set id .active).freshCount g < depth)
        cases hinner : (g.successors id).foldlM (visit g.successors depth) (marks.set id .active) with
        | none => exact .stopped hmark (hinner ▸ hbelow)
        | some inner =>
          rw [hinner] at hbelow
          have hle := Marks.freshCount_le (g := g) (Marks.fresh_of_leave hmark hbelow.fresh)
          exact .left hmark hbelow (ihrest hrest (by omega))

/-- The marks before a search. -/
def noMarks : Marks := fun _ => .fresh

/-- The search from all nodes ends, whatever edges there are between them. -/
theorem explores_all (htargets : ∀ e ∈ g.edges, e.target < g.size) :
    ∃ result, Explores g (List.range g.size) noMarks result ∧ g.hasCycle = result.isNone := by
  refine ⟨_, explores_visit htargets (g.size + 1) (fun i hi => List.mem_range.mp hi) ?_, rfl⟩
  have hle : noMarks.freshCount g ≤ (List.range g.size).length := List.countP_le_length
  rw [List.length_range] at hle
  omega

theorem hasCycle_iff (hedges : ∀ e ∈ g.edges, e.source < g.size ∧ e.target < g.size) :
    g.hasCycle = true ↔ ¬ g.Acyclic := by
  obtain ⟨result, hsearch, hcycle⟩ := explores_all fun e he => (hedges e he).2
  have hlead : noMarks.LeadTo g (List.range g.size) := fun _ hi => nomatch hi
  have hsettled : noMarks.Settled g := ⟨nofun, nofun⟩
  obtain ⟨hsome, hnone⟩ := hsearch.searched hlead hsettled
  rw [hcycle]
  cases result with
  | none => exact iff_of_true rfl (hnone rfl)
  | some marks =>
    refine iff_of_false (by simp) (not_not.mpr ?_)
    have hsearched := hsome marks rfl
    intro i hi
    obtain ⟨j, ⟨e, he, hsource, _⟩, _⟩ := Relation.TransGen.head'_iff.mp hi
    have hlt : i < g.size := hsource ▸ (hedges e he).1
    exact hsearched.settled.acyclic i (hsearched.visited i (List.mem_range.mpr hlt)) hi

end LoweringCheck.Graph
