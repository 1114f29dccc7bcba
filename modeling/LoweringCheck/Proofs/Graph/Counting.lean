import Mathlib.Algebra.Ring.Nat
import Mathlib.Data.List.Count
import LoweringCheck.Graph.Schedule
/-!
# Counting edges

The edges into each node are counted one after the other. The counts are those of a graph with fewer than
2^31 edges into each node; in any other graph counting ends with an overflow.
-/
namespace LoweringCheck.Graph
variable {g : Graph}

section Words
variable {n : Nat}

theorem ofNat_succ_sub_one : Int32.ofNat (n + 1) - 1 = Int32.ofNat n := by
  simp [Int32.ofNat_add]

theorem ofNat_eq_zero (h : n < 2 ^ 31) : Int32.ofNat n = 0 ↔ n = 0 := by
  rw [← Int32.toInt_inj, Int32.toInt_ofNat_of_lt h]
  simp

theorem ofNat_ne_minValue (h : n < 2 ^ 31) : Int32.ofNat n ≠ Int32.minValue := by
  rw [Ne, ← Int32.toInt_inj, Int32.toInt_ofNat_of_lt h, Int32.toInt_minValue]
  omega

private theorem ofNat_eq_maxValue (h : n < 2 ^ 31) : Int32.ofNat n = Int32.maxValue ↔ n + 1 = 2 ^ 31 := by
  rw [← Int32.toInt_inj, Int32.toInt_ofNat_of_lt h, Int32.toInt_maxValue]
  omega

end Words

/-- Fewer than 2^31 edges lead into each node. -/
def Sparse (g : Graph) : Prop := ∀ id, (g.edgesInto id).length < 2 ^ 31

theorem length_edgesInto (g : Graph) (id : Nat) :
    (g.edgesInto id).length = g.edges.countP (·.target == id) := by
  rw [edgesInto, List.countP_eq_length_filter]

theorem sparse_of_length (h : g.edges.length < 2 ^ 31) : g.Sparse := by
  intro id
  have hle : (g.edgesInto id).length ≤ g.edges.length := List.length_filter_le _ _
  exact Nat.lt_of_le_of_lt hle h

namespace Agenda
variable {size : Nat} {edges rest : List Edge} {waiting : List Int32} {e : Edge}

/-- What counting some edges has come to. -/
structure Counted (size : Nat) (edges : List Edge) (waiting : List Int32) : Prop where
  length : waiting.length = size
  waiting : ∀ i < size, waiting[i]? = some (.ofNat (edges.countP (·.target == i)))

private theorem Counted.count (h : Counted size edges waiting) (he : e.target < size)
    (hroom : edges.countP (·.target == e.target) + 1 < 2 ^ 31) :
    ∃ more, count waiting e = .ok more ∧ Counted size (edges ++ [e]) more := by
  have hmax : Int32.ofNat (edges.countP (·.target == e.target)) ≠ Int32.maxValue := by
    rw [Ne, ofNat_eq_maxValue (by omega)]
    omega
  simp only [Agenda.count, h.waiting _ he, hmax, if_false]
  refine ⟨_, rfl, by rw [List.length_set, h.length], ?_⟩
  intro i hi
  by_cases heq : e.target = i
  · subst heq
    rw [List.getElem?_set_self (h.length ▸ hi)]
    simp [Int32.ofNat_add]
  · rw [List.getElem?_set_ne heq, h.waiting i hi]
    simp [heq]

private theorem Counted.count_overflow (h : Counted size edges waiting) (he : e.target < size)
    (hfull : edges.countP (·.target == e.target) + 1 = 2 ^ 31) :
    Agenda.count waiting e = .error .overflow := by
  have hmax : Int32.ofNat (edges.countP (·.target == e.target)) = Int32.maxValue :=
    (ofNat_eq_maxValue (by omega)).mpr hfull
  simp only [Agenda.count, h.waiting _ he, hmax, if_true]

private theorem Counted.foldlM (h : Counted size edges waiting) (htargets : ∀ e ∈ rest, e.target < size)
    (hfits : ∀ i, (edges ++ rest).countP (·.target == i) < 2 ^ 31) :
    ∃ more, rest.foldlM Agenda.count waiting = .ok more ∧ Counted size (edges ++ rest) more := by
  induction rest generalizing edges waiting with
  | nil => exact ⟨waiting, rfl, (List.append_nil edges).symm ▸ h⟩
  | cons e rest ih =>
    have hroom : edges.countP (·.target == e.target) + 1 < 2 ^ 31 := by
      have hall := hfits e.target
      simp only [List.countP_append, List.countP_cons, beq_self_eq_true, if_true] at hall
      omega
    obtain ⟨next, hnext, hcounted⟩ := h.count (htargets e List.mem_cons_self) hroom
    rw [List.append_cons] at hfits ⊢
    rw [List.foldlM_cons, hnext]
    exact ih hcounted (fun e he => htargets e (List.mem_cons_of_mem _ he)) hfits

private theorem Counted.foldlM_overflow (h : Counted size edges waiting)
    (htargets : ∀ e ∈ rest, e.target < size) (hfits : ∀ i, edges.countP (·.target == i) < 2 ^ 31)
    (hfull : ∃ i, 2 ^ 31 ≤ (edges ++ rest).countP (·.target == i)) :
    rest.foldlM Agenda.count waiting = .error .overflow := by
  induction rest generalizing edges waiting with
  | nil =>
    obtain ⟨i, hi⟩ := hfull
    have hlt := hfits i
    rw [List.append_nil] at hi
    omega
  | cons e rest ih =>
    have he : e.target < size := htargets e List.mem_cons_self
    have hlt := hfits e.target
    by_cases hroom : edges.countP (·.target == e.target) + 1 < 2 ^ 31
    · obtain ⟨next, hnext, hcounted⟩ := h.count he hroom
      rw [List.append_cons] at hfull
      rw [List.foldlM_cons, hnext]
      apply ih hcounted (fun e he => htargets e (List.mem_cons_of_mem _ he)) _ hfull
      intro i
      by_cases heq : e.target = i
      · subst heq
        simpa using hroom
      · simpa [heq] using hfits i
    · rw [List.foldlM_cons, h.count_overflow he (by omega)]
      rfl

private theorem target_lt_of_foldlM {more : List Int32} (h : edges.foldlM Agenda.count waiting = .ok more) :
    ∀ e ∈ edges, e.target < waiting.length := by
  induction edges generalizing waiting with
  | nil => simp
  | cons e rest ih =>
    rw [List.foldlM_cons] at h
    cases hget : waiting[e.target]? with
    | none => simp [Agenda.count, hget, bind, Except.bind] at h
    | some n =>
      have hlt : e.target < waiting.length := (List.getElem?_eq_some_iff.mp hget).1
      by_cases hmax : n = Int32.maxValue
      · simp [Agenda.count, hget, hmax, bind, Except.bind] at h
      · simp only [Agenda.count, hget, hmax, if_false, bind, Except.bind] at h
        have hrest := ih h
        rw [List.length_set] at hrest
        simpa [hlt] using hrest

end Agenda

private theorem counted_nil (size : Nat) : Agenda.Counted size [] (List.replicate size 0) := by
  constructor
  · exact List.length_replicate
  · intro i hi
    simp [hi]

theorem agenda_eq_ok (hsparse : g.Sparse) (htargets : ∀ e ∈ g.edges, e.target < g.size) :
    ∃ waiting, g.agenda = .ok ⟨waiting, (List.range g.size).filter fun id => waiting[id]? == some 0, []⟩ ∧
      Agenda.Counted g.size g.edges waiting := by
  have hfits : ∀ i, (([] : List Edge) ++ g.edges).countP (·.target == i) < 2 ^ 31 := by
    intro i
    rw [List.nil_append, ← length_edgesInto]
    exact hsparse i
  obtain ⟨waiting, hwaiting, hcounted⟩ := (counted_nil g.size).foldlM htargets hfits
  exact ⟨waiting, by simp only [agenda, hwaiting], hcounted⟩

/-- A node with 2^31 edges into it or more ends the program before any node is scheduled. -/
theorem agenda_overflow (hdense : ¬ g.Sparse) (htargets : ∀ e ∈ g.edges, e.target < g.size) :
    g.agenda = .error .overflow := by
  have hfull : ∃ i, 2 ^ 31 ≤ (([] : List Edge) ++ g.edges).countP (·.target == i) := by
    simpa [Sparse, length_edgesInto] using hdense
  have hcount := (counted_nil g.size).foldlM_overflow htargets (by simp) hfull
  simp only [agenda, hcount]

theorem sparse_of_agenda {a : Agenda} (h : g.agenda = .ok a) :
    g.Sparse ∧ ∀ e ∈ g.edges, e.target < g.size := by
  have htargets : ∀ e ∈ g.edges, e.target < g.size := by
    cases hcount : g.edges.foldlM Agenda.count (List.replicate g.size 0) with
    | error fault => simp [agenda, hcount] at h
    | ok waiting => simpa using Agenda.target_lt_of_foldlM hcount
  refine ⟨?_, htargets⟩
  by_contra hdense
  rw [agenda_overflow hdense htargets] at h
  cases h

end LoweringCheck.Graph
