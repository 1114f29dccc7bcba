import Mathlib.Data.List.Nodup
import LoweringCheck.Proofs.Provider.Slots
/-!
# Calls on registries

A registry is changed by calls only. A provider that stands in a slot stays there until a call takes it
out, so all lookups in between hand out the same one, whether it was registered or made on demand.
-/
namespace LoweringCheck

private theorem Slot.mem_all (slot : Slot) : slot ∈ all := by
  obtain ⟨device, precision⟩ := slot
  cases device <;> cases precision <;> decide

namespace Registry
variable {r r' : Registry} {slot : Slot} {i : Instance} {e : ProviderError}

/-- One call on a registry. -/
inductive Call where
  | register (i : Instance)
  | unregister (slot : Slot)
  | get (slot : Slot)
  | getOrCreate (slot : Slot)
  | clear

/-- What a call that succeeds answers: a lookup the provider, if there is one. -/
inductive Answer where
  | provider (i : Option Instance)
  | done

def Call.perform (r : Registry) : Call → Except ProviderError Answer × Registry
  | .register i => ((r.register i).1.map fun _ => .done, (r.register i).2)
  | .unregister slot => ((r.unregister slot).1.map fun _ => .done, (r.unregister slot).2)
  | .get slot => (.ok (.provider (r.get? slot)), r)
  | .getOrCreate slot => ((r.getOrCreate slot).1.map fun i => .provider (some i), (r.getOrCreate slot).2)
  | .clear => (.ok .done, r.clear)

/-- The registry that calls leave, successful or not. -/
def after (r : Registry) : List Call → Registry
  | [] => r
  | c :: rest => after (c.perform r).2 rest

/-- The call looks for the provider of a slot. -/
inductive Call.LooksUp (slot : Slot) : Call → Prop
  | get : LooksUp slot (.get slot)
  | getOrCreate : LooksUp slot (.getOrCreate slot)

/-- The call takes the provider of a slot out. -/
inductive Call.Empties (slot : Slot) : Call → Prop
  | unregister : Empties slot (.unregister slot)
  | clear : Empties slot .clear

/-- What a registry refuses: to put a provider in a slot that is taken, to empty a slot that is empty, and
to make a provider for a graphics device. -/
inductive Call.Refused (r : Registry) : Call → ProviderError → Prop
  | register {i held : Instance} (taken : r.get? i.slot = some held) :
      Refused r (.register i) (.alreadyRegistered i.slot.device i.slot.precision)
  | unregister {slot : Slot} (absent : r.get? slot = none) :
      Refused r (.unregister slot) (.notRegistered slot.device slot.precision)
  | getOrCreate {slot : Slot} (absent : r.get? slot = none) (graphics : slot.device = .gpu) :
      Refused r (.getOrCreate slot) .noGpu

private theorem get?_put (r : Registry) (slot other : Slot) (i : Instance) :
    (r.put slot i).get? other = if other = slot then some i else r.get? other := rfl

/-! ## Single operations -/

theorem register_of_get? {held : Instance} (h : r.get? i.slot = some held) :
    r.register i = (.error (.alreadyRegistered i.slot.device i.slot.precision), r) := by
  rw [register, h]
  rfl

theorem register_of_not_get? (h : r.get? i.slot = none) : r.register i = (.ok (), r.put i.slot i) := by
  rw [register, h]
  rfl

private theorem unregister_of_get? (h : r.get? slot = some i) :
    r.unregister slot =
      (.ok (), { r with held := fun other => if other = slot then none else r.held other }) := by
  rw [unregister, h]

private theorem unregister_of_not_get? (h : r.get? slot = none) :
    r.unregister slot = (.error (.notRegistered slot.device slot.precision), r) := by
  rw [unregister, h]

theorem getOrCreate_of_get? (h : r.get? slot = some i) : r.getOrCreate slot = (.ok i, r) := by
  rw [getOrCreate, h]

private theorem getOrCreate_graphics (h : r.get? slot = none) (hdevice : slot.device = .gpu) :
    r.getOrCreate slot = (.error .noGpu, r) := by
  rw [getOrCreate, h]
  simp only [create, hdevice, Provider.create]

private theorem getOrCreate_processor (h : r.get? slot = none) (hdevice : slot.device = .cpu) :
    ∃ i r', r.getOrCreate slot = (.ok i, r') := by
  rw [getOrCreate, h]
  simp only [create, hdevice, Provider.create]
  exact ⟨_, _, rfl⟩

/-! ## Lookups -/

private theorem Call.LooksUp.perform_of_get? {c : Call} (hc : c.LooksUp slot) (h : r.get? slot = some i) :
    c.perform r = (.ok (.provider (some i)), r) := by
  cases hc with
  | get => rw [Call.perform, h]
  | getOrCreate =>
    rw [Call.perform, getOrCreate_of_get? h]
    rfl

private theorem Call.LooksUp.get?_of_perform {c : Call} (hc : c.LooksUp slot)
    (h : c.perform r = (.ok (.provider (some i)), r')) : r'.get? slot = some i := by
  cases hc with
  | get =>
    simp only [Call.perform, Prod.mk.injEq, Except.ok.injEq, Answer.provider.injEq] at h
    rw [← h.2, h.1]
  | getOrCreate =>
    simp only [Call.perform, Prod.mk.injEq] at h
    rcases hget : r.getOrCreate slot with ⟨e | j, r''⟩
    · simp [hget, Except.map] at h
    · simp only [hget, Except.map, Except.ok.injEq, Answer.provider.injEq, Option.some.injEq] at h
      obtain ⟨rfl, rfl⟩ := h
      rcases getOrCreate_eq_ok hget with ⟨hheld, rfl⟩ | ⟨-, -, rfl⟩
      · exact hheld
      · rw [get?_put, if_pos rfl]

/-- Only a call that takes it out removes a provider from its slot. -/
theorem Call.get?_perform {c : Call} (h : r.get? slot = some i) (hc : ¬ c.Empties slot) :
    (c.perform r).2.get? slot = some i := by
  cases c with
  | register j =>
    cases hheld : r.get? j.slot with
    | some held =>
      rw [Call.perform, register_of_get? hheld]
      exact h
    | none =>
      have hne : slot ≠ j.slot := by
        rintro rfl
        rw [hheld] at h
        cases h
      rw [Call.perform, register_of_not_get? hheld]
      show (r.put j.slot j).get? slot = some i
      rw [get?_put, if_neg hne, h]
  | unregister other =>
    have hne : slot ≠ other := by
      rintro rfl
      exact hc .unregister
    cases hheld : r.get? other with
    | none =>
      rw [Call.perform, unregister_of_not_get? hheld]
      exact h
    | some held =>
      rw [Call.perform, unregister_of_get? hheld]
      show (if slot = other then none else r.get? slot) = some i
      rw [if_neg hne, h]
  | get other => exact h
  | getOrCreate other =>
    rcases hget : r.getOrCreate other with ⟨e | j, r'⟩
    · obtain rfl := getOrCreate_error hget
      rw [Call.perform, hget]
      exact h
    · rw [Call.perform, hget]
      rcases getOrCreate_eq_ok hget with ⟨-, rfl⟩ | ⟨hempty, -, rfl⟩
      · exact h
      · have hne : slot ≠ other := by
          rintro rfl
          rw [hempty] at h
          cases h
        show (({ r with next := r.next + 1 } : Registry).put other j).get? slot = some i
        rw [get?_put, if_neg hne]
        exact h
  | clear => exact absurd .clear hc

private theorem get?_after {calls : List Call} (h : r.get? slot = some i)
    (hcalls : ∀ c ∈ calls, ¬ c.Empties slot) : (r.after calls).get? slot = some i := by
  induction calls generalizing r with
  | nil => exact h
  | cons c rest ih =>
    exact ih (Call.get?_perform h (hcalls c List.mem_cons_self)) fun c hc =>
      hcalls c (List.mem_cons_of_mem _ hc)

/-! ## Refusals -/

/-- A call that is refused leaves the registry as it was. -/
theorem Call.perform_of_refused {c : Call} (h : c.Refused r e) : c.perform r = (.error e, r) := by
  cases h with
  | register taken =>
    rw [Call.perform, register_of_get? taken]
    rfl
  | unregister absent =>
    rw [Call.perform, unregister_of_not_get? absent]
    rfl
  | getOrCreate absent graphics =>
    rw [Call.perform, getOrCreate_graphics absent graphics]
    rfl

private theorem Call.refused_of_perform {c : Call} (h : (c.perform r).1 = .error e) : c.Refused r e := by
  cases c with
  | register i =>
    cases hheld : r.get? i.slot with
    | none => simp [Call.perform, register_of_not_get? hheld, Except.map] at h
    | some held =>
      simp only [Call.perform, register_of_get? hheld, Except.map, Except.error.injEq] at h
      exact h ▸ .register hheld
  | unregister slot =>
    cases hheld : r.get? slot with
    | none =>
      simp only [Call.perform, unregister_of_not_get? hheld, Except.map, Except.error.injEq] at h
      exact h ▸ .unregister hheld
    | some held => simp [Call.perform, unregister_of_get? hheld, Except.map] at h
  | get slot => cases h
  | getOrCreate slot =>
    cases hheld : r.get? slot with
    | some held => simp [Call.perform, getOrCreate_of_get? hheld, Except.map] at h
    | none =>
      cases hdevice : slot.device with
      | gpu =>
        simp only [Call.perform, getOrCreate_graphics hheld hdevice, Except.map, Except.error.injEq]
          at h
        exact h ▸ .getOrCreate hheld hdevice
      | cpu =>
        obtain ⟨i, r', hget⟩ := getOrCreate_processor hheld hdevice
        simp [Call.perform, hget, Except.map] at h
  | clear => cases h

/-! ## What is held -/

private theorem Reachable.after (h : r.Reachable) (calls : List Call) : (r.after calls).Reachable := by
  induction calls generalizing r with
  | nil => exact h
  | cons c rest ih =>
    apply ih
    cases c with
    | register i => exact h.register i
    | unregister slot => exact h.unregister slot
    | get slot => exact h
    | getOrCreate slot => exact h.getOrCreate slot
    | clear => exact h.clear

/-- The providers that a registry holds. -/
def providers (r : Registry) : List Instance := Slot.all.filterMap r.get?

private theorem Sorted.mem_providers (h : r.Sorted) : i ∈ r.providers ↔ r.get? i.slot = some i := by
  rw [providers, List.mem_filterMap]
  constructor
  · rintro ⟨slot, -, hslot⟩
    rw [h slot i hslot]
    exact hslot
  · exact fun hheld => ⟨i.slot, i.slot.mem_all, hheld⟩

private theorem Sorted.slots_providers (h : r.Sorted) : r.providers.map Instance.slot = r.filled := by
  rw [providers, filled]
  induction Slot.all with
  | nil => rfl
  | cons slot rest ih =>
    cases hheld : r.get? slot with
    | none => simpa [hheld] using ih
    | some i => simpa [hheld, h slot i hheld] using ih

private theorem filled_nodup (r : Registry) : r.filled.Nodup := by
  have hall : Slot.all.Nodup := by decide
  exact hall.filter _

private theorem Sorted.count_eq (h : r.Sorted) : r.count = r.providers.length := by
  rw [count, ← h.slots_providers, List.length_map]

private theorem count_eq_sum (r : Registry) : r.count = r.countOn .cpu + r.countOn .gpu := by
  rw [count, countOn, countOn]
  induction r.filled with
  | nil => rfl
  | cons slot rest ih =>
    cases hdevice : slot.device with
    | cpu =>
      have hgpu : ((Device.cpu == Device.gpu) = false) := by decide
      simp [hdevice, ih, hgpu]
      omega
    | gpu =>
      have hcpu : ((Device.gpu == Device.cpu) = false) := by decide
      simp [hdevice, ih, hcpu]
      omega

/-- After any calls on a registry that was empty at first, a provider that is handed out for a slot has the
device and the precision of it. All lookups of a slot hand out one provider until a call takes it out of
there, and the provider that is put in a slot is the one. Refused is only what has to be, and it changes
nothing. No two of the providers that are held are for one slot, and they are counted by their devices. -/
theorem after_calls_caches (calls : List Call) :
    let r := empty.after calls
    (∀ (slot : Slot) (c : Call) (i : Instance) (r' : Registry), c.LooksUp slot →
      c.perform r = (.ok (.provider (some i)), r') → i.slot = slot) ∧
    (∀ (slot : Slot) (first last : Call) (between : List Call) (i : Instance) (r' : Registry),
      first.LooksUp slot → first.perform r = (.ok (.provider (some i)), r') →
      (∀ c ∈ between, ¬ c.Empties slot) → last.LooksUp slot →
      last.perform (r'.after between) = (.ok (.provider (some i)), r'.after between)) ∧
    (∀ (i : Instance) (r' : Registry), (Call.register i).perform r = (.ok .done, r') →
      r'.get? i.slot = some i) ∧
    (∀ (c : Call) (e : ProviderError), (c.perform r).1 = .error e ↔ c.Refused r e) ∧
    (∀ (c : Call) (e : ProviderError), (c.perform r).1 = .error e → (c.perform r).2 = r) ∧
    (∀ i, i ∈ r.providers ↔ r.get? i.slot = some i) ∧ (r.providers.map Instance.slot).Nodup ∧
    r.count = r.providers.length ∧ r.count = r.countOn .cpu + r.countOn .gpu := by
  intro r
  have hreachable : r.Reachable := Reachable.empty.after calls
  have hsorted : r.Sorted := hreachable.sorted
  refine ⟨?_, ?_, ?_, ?_, ?_, ?_, ?_, ?_, ?_⟩
  · intro slot c i r' hc hperform
    have hheld := hc.get?_of_perform hperform
    have hnext : (r.after [c]).Reachable := hreachable.after [c]
    rw [Registry.after, Registry.after, hperform] at hnext
    exact hnext.sorted slot i hheld
  · intro slot first last between i r' hfirst hperform hbetween hlast
    exact hlast.perform_of_get? (get?_after (hfirst.get?_of_perform hperform) hbetween)
  · intro i r' hperform
    cases hheld : r.get? i.slot with
    | some held =>
      rw [Call.perform, register_of_get? hheld] at hperform
      cases hperform
    | none =>
      rw [Call.perform, register_of_not_get? hheld] at hperform
      cases hperform
      rw [get?_put, if_pos rfl]
  · intro c e
    refine ⟨Call.refused_of_perform, fun hrefused => ?_⟩
    rw [Call.perform_of_refused hrefused]
  · intro c e herror
    rw [Call.perform_of_refused (Call.refused_of_perform herror)]
  · exact fun i => hsorted.mem_providers
  · rw [hsorted.slots_providers]
    exact r.filled_nodup
  · exact hsorted.count_eq
  · exact r.count_eq_sum

/-- The provider that was registered in place of one made on demand is handed out by both lookups; in
between the slot is refused to another one, and another slot is filled and emptied. -/
theorem after_calls_reregistered :
    let half : Slot := ⟨.cpu, .fp16⟩
    let own : Instance := ⟨7, .cpu .fp16 .empty⟩
    let r := empty.after [.getOrCreate half, .unregister half, .register own]
    let between : List Call := [.register ⟨8, .cpu .fp16 .standard⟩, .getOrCreate ⟨.cpu, .fp32⟩,
      .getOrCreate ⟨.gpu, .fp16⟩, .unregister ⟨.cpu, .fp32⟩]
    (Call.getOrCreate half).perform r = (.ok (.provider (some own)), r) ∧
      (Call.get half).perform (r.after between) = (.ok (.provider (some own)), r.after between) ∧
      own.slot = half ∧ (Call.register ⟨8, .cpu .fp16 .standard⟩).Refused r (.alreadyRegistered .cpu .fp16) ∧
      (r.after between).count = 1 := by
  intro half own r between
  have hfirst : (Call.getOrCreate half).perform r = (.ok (.provider (some own)), r) := rfl
  have hbetween : ∀ c ∈ between, ¬ c.Empties half := by
    intro c hc hempties
    cases hempties <;> simp [between, half] at hc
  have hrefused : ((Call.register ⟨8, .cpu .fp16 .standard⟩).perform r).1 =
      .error (.alreadyRegistered .cpu .fp16) := rfl
  have h := after_calls_caches [.getOrCreate half, .unregister half, .register own]
  exact ⟨hfirst, h.2.1 half _ _ between own r .getOrCreate hfirst hbetween .get,
    h.1 half _ own r .getOrCreate hfirst, (h.2.2.2.1 _ _).mp hrefused, rfl⟩

end Registry
end LoweringCheck
