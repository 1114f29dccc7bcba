import Mathlib.Data.Fintype.EquivFin
import Mathlib.Data.Fintype.Card
import Mathlib.Data.List.Nodup
import Mathlib.Data.List.Perm.Lattice
import Mathlib.Logic.Relation
import LoweringCheck.Proofs.Graph.Counting
/-!
# Schedules

While a schedule is made, a node waits for exactly the edges whose sources have not left the queue, and
it is in the queue or has left it once there are none. So no node is released too often, and what has
left is ordered along the edges. The queue runs empty within as many rounds as there are nodes, and a
graph without cycles is scheduled to its end. All this is so while the edges into each node are few
enough to be counted; of one edge more the program ends before anything is released.
-/
namespace LoweringCheck.Graph

/-- Some edge leads from one node to the other. -/
def Step (g : Graph) (i j : Nat) : Prop := ∃ e ∈ g.edges, e.source = i ∧ e.target = j

def Acyclic (g : Graph) : Prop := ∀ i, ¬ Relation.TransGen g.Step i i

theorem acyclic_of_lt {g : Graph} (h : ∀ e ∈ g.edges, e.source < e.target) : g.Acyclic := by
  have hlt : ∀ i j, Relation.TransGen g.Step i j → i < j := by
    intro i j hij
    induction hij with
    | single hstep =>
      obtain ⟨e, he, rfl, rfl⟩ := hstep
      exact h e he
    | tail _ hstep ih =>
      obtain ⟨e, he, rfl, rfl⟩ := hstep
      exact ih.trans (h e he)
  exact fun i hi => Nat.lt_irrefl i (hlt i i hi)

/-- Nodes listed with the last one first, each with the sources of all edges into it behind it. -/
def Ordered (g : Graph) : List Nat → Prop
  | [] => True
  | id :: earlier => (∀ e ∈ g.edges, e.target = id → e.source ∈ earlier) ∧ g.Ordered earlier

/-- All nodes in an order in which every edge leads forward. -/
structure IsSchedule (g : Graph) (order : List Nat) : Prop where
  perm : order.Perm (List.range g.size)
  ordered : g.Ordered order.reverse

theorem Ordered.source_mem {g : Graph} {later earlier : List Nat} {id : Nat}
    (h : g.Ordered (later ++ id :: earlier)) {e : Edge} (he : e ∈ g.edges) (htarget : e.target = id) :
    e.source ∈ earlier := by
  induction later with
  | nil => exact h.1 e he htarget
  | cons first rest ih => exact ih h.2

/-- How many edges lead into a node from nodes that have not left. -/
def openEdges (g : Graph) (left : List Nat) (id : Nat) : Nat :=
  g.edges.countP fun e => e.target = id ∧ e.source ∉ left

private theorem openEdges_eq_zero {g : Graph} {left : List Nat} {id : Nat} :
    g.openEdges left id = 0 ↔ ∀ e ∈ g.edges, e.target = id → e.source ∈ left := by
  simp [openEdges, List.countP_eq_zero]

private theorem openEdges_nil (g : Graph) (id : Nat) : g.openEdges [] id = (g.edgesInto id).length := by
  simp [openEdges, edgesInto, List.countP_eq_length_filter, beq_eq_decide]

private theorem openEdges_cons (g : Graph) {left : List Nat} {id : Nat} (hid : id ∉ left) (i : Nat) :
    g.openEdges left i =
      g.openEdges (id :: left) i + ((g.edgesFrom id).map Edge.target).count i := by
  unfold openEdges edgesFrom
  induction g.edges with
  | nil => rfl
  | cons e rest ih =>
    simp only [List.countP_cons, List.filter_cons, ih]
    by_cases hsource : e.source = id
    · by_cases htarget : e.target = i <;> simp [hsource, htarget, hid]
      omega
    · by_cases htarget : e.target = i <;> by_cases hleft : e.source ∈ left <;>
        simp [hsource, htarget, hleft]
      omega

namespace Agenda

/-- What holds of an agenda while the edges into the pending nodes are still to be released. -/
structure Holds (g : Graph) (pending : List Nat) (a : Agenda) : Prop where
  length : a.waiting.length = g.size
  waiting : ∀ i < g.size, a.waiting[i]? = some (.ofNat (g.openEdges a.left i + pending.count i))
  fits : ∀ i < g.size, g.openEdges a.left i + pending.count i < 2 ^ 31
  nodup : (a.left ++ a.queue).Nodup
  lt : ∀ i ∈ a.left ++ a.queue, i < g.size
  ready : ∀ i < g.size, i ∈ a.left ++ a.queue ↔ g.openEdges a.left i + pending.count i = 0
  ordered : g.Ordered a.left

variable {g : Graph} {pending : List Nat} {a : Agenda}

theorem Holds.nonneg (h : Holds g pending a) : ∀ n ∈ a.waiting, 0 ≤ n := by
  intro n hn
  obtain ⟨i, hi⟩ := List.mem_iff_getElem?.mp hn
  have hlt : i < g.size := h.length ▸ (List.getElem?_eq_some_iff.mp hi).1
  rw [h.waiting i hlt, Option.some.injEq] at hi
  rw [← hi, Int32.le_iff_toInt_le, Int32.toInt_ofNat_of_lt (h.fits i hlt)]
  exact Int.natCast_nonneg _

private theorem Holds.length_le (h : Holds g pending a) : a.left.length + a.queue.length ≤ g.size := by
  have hsubset : a.left ++ a.queue ⊆ List.range g.size :=
    fun i hi => List.mem_range.mpr (h.lt i hi)
  have hle := (List.subperm_of_subset h.nodup hsubset).length_le
  simpa using hle

section Release
variable {target : Nat}

private theorem Holds.not_mem_of_pending (h : Holds g (target :: pending) a) (hlt : target < g.size) :
    target ∉ a.left ++ a.queue := by
  rw [h.ready target hlt, List.count_cons_self]
  omega

private theorem Holds.waiting_set (h : Holds g (target :: pending) a) (hlt : target < g.size) :
    ∀ i < g.size,
      (a.waiting.set target (.ofNat (g.openEdges a.left target + pending.count target)))[i]? =
        some (.ofNat (g.openEdges a.left i + pending.count i)) := by
  intro i hi
  by_cases heq : i = target
  · subst heq
    rw [List.getElem?_set_self (h.length ▸ hi)]
  · rw [List.getElem?_set_ne (Ne.symm heq), h.waiting i hi, List.count_cons_of_ne (Ne.symm heq)]

private theorem Holds.fits_rest (h : Holds g (target :: pending) a) :
    ∀ i < g.size, g.openEdges a.left i + pending.count i < 2 ^ 31 := by
  intro i hi
  have hfits := h.fits i hi
  have hle : pending.count i ≤ (target :: pending).count i := List.count_le_count_cons
  omega

private theorem Holds.wait (h : Holds g (target :: pending) a) (hlt : target < g.size)
    (hopen : g.openEdges a.left target + pending.count target ≠ 0) :
    Holds g pending { a with
      waiting := a.waiting.set target (.ofNat (g.openEdges a.left target + pending.count target)) } := by
  refine ⟨by rw [List.length_set, h.length], h.waiting_set hlt, h.fits_rest, h.nodup, h.lt, ?_, h.ordered⟩
  intro i hi
  by_cases heq : i = target
  · subst heq
    exact iff_of_false (h.not_mem_of_pending hlt) hopen
  · rw [h.ready i hi, List.count_cons_of_ne (Ne.symm heq)]

private theorem Holds.join (h : Holds g (target :: pending) a) (hlt : target < g.size)
    (hclosed : g.openEdges a.left target + pending.count target = 0) :
    Holds g pending { a with
      waiting := a.waiting.set target (.ofNat (g.openEdges a.left target + pending.count target))
      queue := a.queue ++ [target] } := by
  refine ⟨by rw [List.length_set, h.length], h.waiting_set hlt, h.fits_rest, ?_, ?_, ?_, h.ordered⟩
  · rw [← List.append_assoc, ← List.concat_eq_append]
    exact h.nodup.concat (h.not_mem_of_pending hlt)
  · intro i hi
    rw [← List.append_assoc, List.mem_append, List.mem_singleton] at hi
    rcases hi with hi | rfl
    · exact h.lt i hi
    · exact hlt
  · intro i hi
    rw [← List.append_assoc, List.mem_append, List.mem_singleton]
    by_cases heq : i = target
    · subst heq
      exact iff_of_true (.inr rfl) hclosed
    · rw [or_iff_left heq, h.ready i hi, List.count_cons_of_ne (Ne.symm heq)]

private theorem Holds.release (h : Holds g (target :: pending) a) (hlt : target < g.size) :
    ∃ b, a.release target = .ok b ∧ b.left = a.left ∧ Holds g pending b := by
  have hwaiting : a.waiting[target]? =
      some (.ofNat (g.openEdges a.left target + pending.count target + 1)) := by
    rw [h.waiting target hlt, List.count_cons_self, Nat.add_assoc]
  have hfits : g.openEdges a.left target + pending.count target + 1 < 2 ^ 31 := by
    have hfits := h.fits target hlt
    rw [List.count_cons_self] at hfits
    omega
  simp only [Agenda.release, hwaiting, ofNat_ne_minValue hfits, if_false, ofNat_succ_sub_one]
  refine ⟨_, rfl, rfl, ?_⟩
  by_cases hclosed : g.openEdges a.left target + pending.count target = 0
  · rw [if_pos ((ofNat_eq_zero (by omega)).mpr hclosed)]
    exact h.join hlt hclosed
  · rw [if_neg (mt (ofNat_eq_zero (by omega)).mp hclosed)]
    exact h.wait hlt hclosed

end Release

private theorem Holds.releaseAll (h : Holds g pending a) (hlt : ∀ i ∈ pending, i < g.size) :
    ∃ b, a.releaseAll pending = .ok b ∧ b.left = a.left ∧ Holds g [] b := by
  induction pending generalizing a with
  | nil => exact ⟨a, rfl, rfl, h⟩
  | cons target rest ih =>
    obtain ⟨b, hb, hleft, hrest⟩ := h.release (hlt target List.mem_cons_self)
    obtain ⟨c, hc, hleft', hdone⟩ := ih hrest fun i hi => hlt i (List.mem_cons_of_mem _ hi)
    refine ⟨c, ?_, hleft'.trans hleft, hdone⟩
    simp only [Agenda.releaseAll, hb, Except.bind, hc]

private theorem Holds.leave {id : Nat} {queue : List Nat} (h : Holds g [] a)
    (hqueue : a.queue = id :: queue) :
    Holds g ((g.edgesFrom id).map Edge.target) { a with queue := queue, left := id :: a.left } := by
  have hperm : (a.left ++ a.queue).Perm (id :: a.left ++ queue) := by
    rw [hqueue]
    exact List.perm_middle
  have hmem : id ∈ a.left ++ a.queue := by simp [hqueue]
  have hid : id < g.size := h.lt id hmem
  have hnew : id ∉ a.left := by
    have := hperm.nodup_iff.mp h.nodup
    rw [List.cons_append, List.nodup_cons, List.mem_append, not_or] at this
    exact this.1.1
  have hopen : ∀ i, g.openEdges (id :: a.left) i + ((g.edgesFrom id).map Edge.target).count i =
      g.openEdges a.left i + ([] : List Nat).count i := by
    intro i
    rw [g.openEdges_cons hnew i, List.count_nil, Nat.add_zero]
  constructor
  · exact h.length
  · intro i hi
    rw [h.waiting i hi, hopen]
  · intro i hi
    rw [hopen]
    exact h.fits i hi
  · exact hperm.nodup_iff.mp h.nodup
  · exact fun i hi => h.lt i (hperm.mem_iff.mpr hi)
  · intro i hi
    rw [hopen, ← h.ready i hi]
    exact hperm.mem_iff.symm
  · refine ⟨?_, h.ordered⟩
    exact openEdges_eq_zero.mp (by simpa using (h.ready id hid).mp hmem)

private theorem Holds.run (h : Holds g [] a) (rounds : Nat) (htargets : ∀ e ∈ g.edges, e.target < g.size) :
    ∃ b, Agenda.run g rounds a = .ok b ∧ Holds g [] b ∧
      (b.queue = [] ∨ b.left.length = a.left.length + rounds) := by
  induction rounds generalizing a with
  | zero => exact ⟨a, rfl, h, .inr rfl⟩
  | succ rounds ih =>
    rw [Agenda.run]
    split
    · rename_i hqueue
      exact ⟨a, rfl, h, .inl hqueue⟩
    · rename_i id queue hqueue
      have hpending : ∀ i ∈ (g.edgesFrom id).map Edge.target, i < g.size := by
        intro i hi
        obtain ⟨e, he, rfl⟩ := List.mem_map.mp hi
        exact htargets e (List.mem_filter.mp he).1
      obtain ⟨b, hb, hleft, hholds⟩ := (h.leave hqueue).releaseAll hpending
      obtain ⟨c, hc, hdone, hlength⟩ := ih hholds
      refine ⟨c, by simp only [hb, Except.bind, hc], hdone, hlength.imp_right ?_⟩
      intro hlength
      rw [hlength, hleft, List.length_cons]
      omega

private theorem run_of_queue_nil (hqueue : a.queue = []) (rounds : Nat) : run g rounds a = .ok a := by
  cases rounds with
  | zero => rfl
  | succ rounds => simp [run, hqueue]

private theorem run_add (first second : Nat) (a : Agenda) :
    run g (first + second) a = (run g first a).bind (run g second) := by
  induction first generalizing a with
  | zero => rw [Nat.zero_add, run, Except.bind]
  | succ first ih =>
    rw [Nat.succ_add, run, run]
    split
    · rename_i hqueue
      exact (run_of_queue_nil hqueue second).symm
    · cases Agenda.releaseAll _ _ with
      | error fault => rfl
      | ok b => exact ih b

end Agenda

variable {g : Graph}

/-- Before any node leaves, each waits for all edges into it. -/
theorem agenda_holds (hsparse : g.Sparse) (htargets : ∀ e ∈ g.edges, e.target < g.size) :
    ∃ a, g.agenda = .ok a ∧ a.left = [] ∧ a.Holds g [] := by
  obtain ⟨waiting, heq, hcounted⟩ := agenda_eq_ok hsparse htargets
  have hopen : ∀ i, g.openEdges [] i + ([] : List Nat).count i = (g.edgesInto i).length := by
    intro i
    rw [openEdges_nil, List.count_nil, Nat.add_zero]
  have hwaiting : ∀ i < g.size, waiting[i]? = some (.ofNat (g.openEdges [] i + ([] : List Nat).count i)) := by
    intro i hi
    rw [hcounted.waiting i hi, hopen, length_edgesInto]
  refine ⟨_, heq, rfl, hcounted.length, hwaiting, ?_, List.nodup_range.filter _, ?_, ?_, trivial⟩
  · intro i _
    rw [hopen]
    exact hsparse i
  · intro i hi
    exact List.mem_range.mp (List.mem_filter.mp hi).1
  · intro i hi
    have hfits : g.openEdges [] i + ([] : List Nat).count i < 2 ^ 31 := hopen i ▸ hsparse i
    show i ∈ List.filter _ _ ↔ _
    rw [List.mem_filter, List.mem_range, hwaiting i hi, beq_iff_eq, Option.some.injEq, ofNat_eq_zero hfits]
    exact and_iff_right hi

/-- The queue runs empty, and further rounds change nothing. In no round is a node released that waits for
nothing or does not exist. -/
theorem exists_run (hsparse : g.Sparse) (htargets : ∀ e ∈ g.edges, e.target < g.size) :
    ∃ first last, g.agenda = .ok first ∧ last.queue = [] ∧ last.Holds g [] ∧
      (∀ rounds, ∃ a, Agenda.run g rounds first = .ok a ∧ a.Holds g []) ∧
      ∀ rounds, g.size ≤ rounds → Agenda.run g rounds first = .ok last := by
  obtain ⟨first, hfirst, hstart, hholds⟩ := agenda_holds hsparse htargets
  obtain ⟨last, hlast, hdone, hend⟩ := hholds.run g.size htargets
  have hqueue : last.queue = [] := by
    cases hend with
    | inl hqueue => exact hqueue
    | inr hlength =>
      have hle := hdone.length_le
      rw [hlength, hstart, List.length_nil] at hle
      exact List.length_eq_zero_iff.mp (by omega)
  refine ⟨first, last, hfirst, hqueue, hdone, ?_, ?_⟩
  · intro rounds
    obtain ⟨a, ha, hholds', -⟩ := hholds.run rounds htargets
    exact ⟨a, ha, hholds'⟩
  · intro rounds hrounds
    obtain ⟨more, rfl⟩ := Nat.exists_eq_add_of_le hrounds
    rw [Agenda.run_add, hlast]
    exact Agenda.run_of_queue_nil hqueue more

/-- All of scheduling: the nodes that have left, and whether any are missing. -/
theorem schedule_eq (hsparse : g.Sparse) (htargets : ∀ e ∈ g.edges, e.target < g.size) :
    ∃ a, Agenda.Holds g [] a ∧ a.queue = [] ∧
      g.schedule = if a.left.length = g.size then .ok a.left.reverse else .error .cyclic := by
  obtain ⟨first, last, hfirst, hqueue, hholds, -, hrun⟩ := exists_run hsparse htargets
  refine ⟨last, hholds, hqueue, ?_⟩
  rw [schedule, hfirst, Except.bind, hrun g.size (Nat.le_refl _)]

theorem schedule_overflow (hdense : ¬ g.Sparse) (htargets : ∀ e ∈ g.edges, e.target < g.size) :
    g.schedule = .error .overflow := by
  rw [schedule, agenda_overflow hdense htargets]
  rfl

theorem isSchedule_of_schedule {order : List Nat} (h : g.schedule = .ok order) : g.IsSchedule order := by
  obtain ⟨hsparse, htargets⟩ : g.Sparse ∧ ∀ e ∈ g.edges, e.target < g.size := by
    cases hagenda : g.agenda with
    | ok first => exact sparse_of_agenda hagenda
    | error fault => simp [schedule, hagenda, Except.bind] at h
  obtain ⟨a, hholds, -, heq⟩ := schedule_eq hsparse htargets
  rw [heq] at h
  split at h
  · rename_i hlength
    cases h
    refine ⟨?_, (List.reverse_reverse a.left).symm ▸ hholds.ordered⟩
    have hnodup := hholds.nodup.of_append_left
    have hsubset : a.left ⊆ List.range g.size :=
      fun i hi => List.mem_range.mpr (hholds.lt i (List.mem_append_left _ hi))
    refine (List.reverse_perm _).trans ?_
    exact (List.subperm_of_subset hnodup hsubset).perm_of_length_le (by simp [hlength])
  · cases h

/-- Nodes of a finite graph without cycles can be taken in the order of the edges. -/
theorem Acyclic.induction (hg : g.Acyclic)
    (hrange : ∀ e ∈ g.edges, e.source < g.size) {P : Nat → Prop}
    (h : ∀ i < g.size, (∀ e ∈ g.edges, e.target = i → P e.source) → P i) :
    ∀ i < g.size, P i := by
  let r : Fin g.size → Fin g.size → Prop := fun i j => Relation.TransGen g.Step i j
  have : IsTrans (Fin g.size) r := ⟨fun _ _ _ hij hjk => Relation.TransGen.trans hij hjk⟩
  have : Std.Irrefl r := ⟨fun i hi => hg i hi⟩
  have hwf : WellFounded r := Finite.wellFounded_of_trans_of_irrefl r
  have hall : ∀ i : Fin g.size, P i := by
    intro i
    induction i using hwf.induction with
    | _ i ih =>
      apply h i i.isLt
      intro e he htarget
      exact ih ⟨e.source, hrange e he⟩ (.single ⟨e, he, rfl, htarget⟩)
  exact fun i hi => hall ⟨i, hi⟩

theorem exists_schedule (hg : g.Acyclic) (hsparse : g.Sparse)
    (hrange : ∀ e ∈ g.edges, e.source < g.size ∧ e.target < g.size) :
    ∃ order, g.schedule = .ok order := by
  obtain ⟨a, hholds, hqueue, heq⟩ := schedule_eq hsparse fun e he => (hrange e he).2
  have hall : ∀ i < g.size, i ∈ a.left := by
    refine hg.induction (fun e he => (hrange e he).1) fun i hi hsources => ?_
    have hleft := hholds.ready i hi
    rw [hqueue, List.append_nil, List.count_nil, Nat.add_zero] at hleft
    exact hleft.mpr (openEdges_eq_zero.mpr hsources)
  have hlength : a.left.length = g.size := by
    have hle := hholds.length_le
    have hge := (List.subperm_of_subset List.nodup_range
      (fun i hi => hall i (List.mem_range.mp hi))).length_le
    rw [List.length_range] at hge
    omega
  exact ⟨_, heq.trans (if_pos hlength)⟩

end LoweringCheck.Graph
