import LoweringCheck.Provider.Registry
/-!
# Providers stand in their own slots

Whatever is done to a registry, it holds a provider for the device and the precision that this one has.
-/
namespace LoweringCheck

theorem Provider.create_eq_ok {device : Device} {precision : Precision} {p : Provider}
    (h : create device precision = .ok p) : p.device = device ∧ p.precision = precision := by
  cases device with
  | cpu =>
    cases h
    exact ⟨rfl, rfl⟩
  | gpu => cases h

namespace Registry
variable {r r' : Registry} {slot : Slot} {i : Instance}

/-- A registry that operations make of an empty one. -/
inductive Reachable : Registry → Prop
  | empty : Reachable .empty
  | register {r : Registry} (i : Instance) (before : Reachable r) : Reachable (r.register i).2
  | unregister {r : Registry} (slot : Slot) (before : Reachable r) : Reachable (r.unregister slot).2
  | getOrCreate {r : Registry} (slot : Slot) (before : Reachable r) : Reachable (r.getOrCreate slot).2
  | clear {r : Registry} (before : Reachable r) : Reachable r.clear

/-- Each provider stands in the slot of its device and its precision. -/
def Sorted (r : Registry) : Prop := ∀ slot i, r.get? slot = some i → i.slot = slot

private theorem Sorted.put (h : r.Sorted) (hi : i.slot = slot) : (r.put slot i).Sorted := by
  intro other j hj
  change (if other = slot then some i else r.held other) = some j at hj
  split at hj
  · rename_i heq
    rw [heq, ← hi, Option.some.inj hj]
  · exact h other j hj

private theorem Sorted.register (h : r.Sorted) (i : Instance) : (r.register i).2.Sorted := by
  rw [Registry.register]
  split
  · exact h
  · exact h.put rfl

private theorem Sorted.unregister (h : r.Sorted) (slot : Slot) : (r.unregister slot).2.Sorted := by
  rw [Registry.unregister]
  split
  · intro other j hj
    change (if other = slot then none else r.held other) = some j at hj
    split at hj
    · cases hj
    · exact h other j hj
  · exact h

theorem getOrCreate_eq_ok (hget : r.getOrCreate slot = (.ok i, r')) :
    (r.get? slot = some i ∧ r' = r) ∨
      r.get? slot = none ∧ i.slot = slot ∧ r' = { r with next := r.next + 1 }.put slot i := by
  rw [getOrCreate] at hget
  split at hget
  · rename_i hheld
    cases hget
    exact .inl ⟨hheld, rfl⟩
  · rename_i hempty
    rw [create] at hget
    cases hcreate : Provider.create slot.device slot.precision with
    | error e => simp [hcreate] at hget
    | ok p =>
      obtain ⟨hdevice, hprecision⟩ := Provider.create_eq_ok hcreate
      have hnext : get? { r with next := r.next + 1 } slot = none := hempty
      simp only [hcreate, putIfEmpty, hnext, Prod.mk.injEq, Except.ok.injEq] at hget
      obtain ⟨rfl, rfl⟩ := hget
      refine .inr ⟨hempty, ?_, rfl⟩
      rw [Instance.slot, hdevice, hprecision]

theorem getOrCreate_error {e : ProviderError} (hget : r.getOrCreate slot = (.error e, r')) : r' = r := by
  rw [getOrCreate] at hget
  split at hget
  · cases hget
  · rw [create] at hget
    cases hcreate : Provider.create slot.device slot.precision with
    | error e =>
      simp only [hcreate, Prod.mk.injEq] at hget
      exact hget.2.symm
    | ok p => simp [hcreate] at hget

private theorem Sorted.getOrCreate (h : r.Sorted) (slot : Slot) : (r.getOrCreate slot).2.Sorted := by
  rcases hget : r.getOrCreate slot with ⟨e | i, r'⟩
  · rw [getOrCreate_error hget]
    exact h
  · rcases getOrCreate_eq_ok hget with ⟨-, rfl⟩ | ⟨-, hslot, rfl⟩
    · exact h
    · exact Sorted.put (r := { r with next := r.next + 1 }) h hslot

theorem Reachable.sorted (h : r.Reachable) : r.Sorted := by
  induction h with
  | empty => exact fun _ _ hj => nomatch hj
  | register i _ ih => exact ih.register i
  | unregister slot _ ih => exact ih.unregister slot
  | getOrCreate slot _ ih => exact ih.getOrCreate slot
  | clear => exact fun _ _ hj => nomatch hj

theorem Reachable.slot_of_getOrCreate (h : r.Reachable) (hget : r.getOrCreate slot = (.ok i, r')) :
    i.slot = slot := by
  rcases getOrCreate_eq_ok hget with ⟨hheld, -⟩ | ⟨-, hslot, -⟩
  · exact h.sorted slot i hheld
  · exact hslot

end Registry
end LoweringCheck
