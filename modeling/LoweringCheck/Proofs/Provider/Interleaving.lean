import LoweringCheck.Proofs.Provider.Calls
/-!
# Calls side by side

On a registry that is shared a call takes effect in steps, each of which reads or writes the table of slots
once, and the steps of other calls come in between. A lookup that makes a provider puts it in the slot only
if there is none by then. A registration looks at the slot in one step and fills it in another, so it may
overwrite what was put there in between. As long as that does not happen, what stands in a slot first stays.
-/
namespace LoweringCheck
namespace Registry

/-- How far a call has come. -/
inductive Stage where
  | asked (c : Call)
  /-- a registration that found the slot empty and has not filled it yet -/
  | cleared (i : Instance)
  /-- a lookup that found the slot empty -/
  | missed (slot : Slot)
  /-- a lookup that has made a provider and not put it in the slot yet -/
  | made (slot : Slot) (i : Instance)
  | answered (result : Except ProviderError Answer)

def Stage.step (r : Registry) : Stage → Stage × Registry
  | .asked (.register i) =>
    match r.get? i.slot with
    | some _ => (.answered (.error (.alreadyRegistered i.slot.device i.slot.precision)), r)
    | none => (.cleared i, r)
  | .asked (.getOrCreate slot) =>
    match r.get? slot with
    | some i => (.answered (.ok (.provider (some i))), r)
    | none => (.missed slot, r)
  | .asked c => (.answered (c.perform r).1, (c.perform r).2)
  | .cleared i => (.answered (.ok .done), r.put i.slot i)
  | .missed slot =>
    match r.create slot with
    | (.ok i, r) => (.made slot i, r)
    | (.error e, r) => (.answered (.error e), r)
  | .made slot i =>
    (.answered (.ok (.provider (some (r.putIfEmpty slot i).1))), (r.putIfEmpty slot i).2)
  | .answered result => (.answered result, r)

/-- A registry and the calls that are made on it. A client that makes one call after the other is several
calls, the later of which begin when the earlier ones are answered. -/
structure Shared where
  registry : Registry
  stages : List Stage

namespace Shared

def start (r : Registry) (calls : List Call) : Shared := ⟨r, calls.map .asked⟩

/-- The next step of the call at a position. -/
def step (s : Shared) (k : Nat) : Shared :=
  match s.stages[k]? with
  | none => s
  | some stage => ⟨(stage.step s.registry).2, s.stages.set k (stage.step s.registry).1⟩

def run (s : Shared) : List Nat → Shared
  | [] => s
  | k :: rest => run (s.step k) rest

private theorem run_append (s : Shared) (first second : List Nat) :
    s.run (first ++ second) = (s.run first).run second := by
  induction first generalizing s with
  | nil => rfl
  | cons k rest ih => exact ih (s.step k)

private theorem step_of_stage {s : Shared} {k : Nat} {stage : Stage} (h : s.stages[k]? = some stage) :
    s.step k = ⟨(stage.step s.registry).2, s.stages.set k (stage.step s.registry).1⟩ := by
  rw [step, h]

private theorem stage_step {s : Shared} {j k : Nat} {stage other : Stage} (h : s.stages[k]? = some stage)
    (hj : (s.step k).stages[j]? = some other) :
    (j = k ∧ other = (stage.step s.registry).1) ∨ (j ≠ k ∧ s.stages[j]? = some other) := by
  rw [step_of_stage h] at hj
  by_cases heq : j = k
  · subst heq
    rw [List.getElem?_set_self (List.getElem?_eq_some_iff.mp h).1] at hj
    exact .inl ⟨rfl, (Option.some.inj hj).symm⟩
  · rw [List.getElem?_set_ne (Ne.symm heq)] at hj
    exact .inr ⟨heq, hj⟩

end Shared

/-- The three steps of a call, taken one right after the other, do what the call does. -/
theorem Stage.step_step_step (r : Registry) (c : Call) :
    let first := (asked c).step r
    let second := first.1.step first.2
    second.1.step second.2 = (answered (c.perform r).1, (c.perform r).2) := by
  cases c with
  | register i =>
    cases hheld : r.get? i.slot with
    | some held => simp [step, hheld, Call.perform, register_of_get? hheld, Except.map]
    | none => simp [step, hheld, Call.perform, register_of_not_get? hheld, Except.map]
  | unregister slot => rfl
  | get slot => rfl
  | getOrCreate slot =>
    cases hheld : r.get? slot with
    | some held => simp [step, hheld, Call.perform, getOrCreate_of_get? hheld, Except.map]
    | none =>
      rw [Call.perform, getOrCreate, hheld]
      simp only [step, hheld]
      rcases r.create slot with ⟨e | i, r'⟩
      · rfl
      · rfl
  | clear => rfl

/-! ## One slot -/

section OneSlot
variable {slot : Slot}

/-- The call registers a provider for the slot or looks for one there. -/
inductive Call.Concerns (slot : Slot) : Call → Prop
  | register {i : Instance} (own : i.slot = slot) : Concerns slot (.register i)
  | lookup {c : Call} (looks : c.LooksUp slot) : Concerns slot c

/-- How far calls on a slot can be with what stands in it. Only while it is empty does a registration wait
to fill it, and what was handed out or registered is there. -/
inductive Stage.Fits (slot : Slot) (holder : Option Instance) : Stage → Prop
  | asked {c : Call} (concerns : c.Concerns slot) : Fits slot holder (.asked c)
  | cleared {i : Instance} (own : i.slot = slot) (vacant : holder = none) : Fits slot holder (.cleared i)
  | missed : Fits slot holder (.missed slot)
  | made {i : Instance} : Fits slot holder (.made slot i)
  | handed {i : Instance} (held : holder = some i) :
      Fits slot holder (.answered (.ok (.provider (some i))))
  | nothing : Fits slot holder (.answered (.ok (.provider none)))
  | registered {i : Instance} (held : holder = some i) : Fits slot holder (.answered (.ok .done))
  | refused {e : ProviderError} : Fits slot holder (.answered (.error e))

/-- The call at a position puts a provider in the slot while a registration other than it, which found the
slot empty, has not put its own there. -/
def Shared.Overtakes (s : Shared) (slot : Slot) (k : Nat) : Prop :=
  s.registry.get? slot = none ∧ (s.step k).registry.get? slot ≠ none ∧
    ∃ j i, j ≠ k ∧ s.stages[j]? = some (.cleared i)

/-- No registration is overtaken on the way. -/
def Shared.Orderly (slot : Slot) (s : Shared) : List Nat → Prop
  | [] => True
  | k :: rest => ¬ s.Overtakes slot k ∧ Orderly slot (s.step k) rest

/-- What holds of the calls on a slot while no registration is overtaken. -/
structure Shared.Agreed (slot : Slot) (s : Shared) : Prop where
  fits : ∀ stage ∈ s.stages, stage.Fits slot (s.registry.get? slot)
  once : ∀ j k : Nat, s.stages[j]? = some (.answered (.ok .done)) →
    s.stages[k]? = some (.answered (.ok .done)) → j = k

private theorem Shared.Agreed.start (r : Registry) {calls : List Call} (h : ∀ c ∈ calls, c.Concerns slot) :
    (Shared.start r calls).Agreed slot := by
  have hasked : ∀ stage ∈ (Shared.start r calls).stages, ∃ c ∈ calls, stage = .asked c := by
    intro stage hstage
    obtain ⟨c, hc, rfl⟩ := List.mem_map.mp hstage
    exact ⟨c, hc, rfl⟩
  constructor
  · intro stage hstage
    obtain ⟨c, hc, rfl⟩ := hasked stage hstage
    exact .asked (h c hc)
  · intro j k hj
    obtain ⟨c, -, hc⟩ := hasked _ (List.mem_of_getElem? hj)
    cases hc

/-- What a step does on a slot where it fits: it leaves the slot as it is and answers by it, or it puts a
provider in the slot, which was empty. Only a registration that waited is answered with success. -/
inductive Stage.Moves (slot : Slot) (r : Registry) (stage : Stage) : Prop
  | keeps (same : (stage.step r).2.get? slot = r.get? slot)
      (fits : (stage.step r).1.Fits slot (r.get? slot))
      (registered : (stage.step r).1 = .answered (.ok .done) → stage = .answered (.ok .done))
  | lands {i : Instance} (vacant : r.get? slot = none) (landed : (stage.step r).2.get? slot = some i)
      (fits : (stage.step r).1.Fits slot (some i))

private theorem Stage.Fits.moves {r : Registry} {stage : Stage} (h : stage.Fits slot (r.get? slot)) :
    stage.Moves slot r := by
  cases h with
  | asked concerns =>
    cases concerns with
    | @register i own =>
      subst own
      cases hheld : r.get? i.slot with
      | some held =>
        refine .keeps ?_ ?_ ?_ <;> simp only [step, hheld]
        · exact .refused
        · intro hdone
          cases hdone
      | none =>
        refine .keeps ?_ ?_ ?_ <;> simp only [step, hheld]
        · exact .cleared rfl rfl
        · intro hdone
          cases hdone
    | lookup looks =>
      cases looks with
      | get =>
        refine .keeps rfl ?_ ?_
        · show (answered (.ok (.provider (r.get? slot)))).Fits slot (r.get? slot)
          cases hheld : r.get? slot with
          | some i => exact .handed rfl
          | none => exact .nothing
        · intro hdone
          cases hdone
      | getOrCreate =>
        cases hheld : r.get? slot with
        | some i =>
          refine .keeps ?_ ?_ ?_ <;> simp only [step, hheld]
          · exact .handed rfl
          · intro hdone
            cases hdone
        | none =>
          refine .keeps ?_ ?_ ?_ <;> simp only [step, hheld]
          · exact .missed
          · intro hdone
            cases hdone
  | cleared own vacant =>
    subst own
    exact .lands vacant (if_pos rfl) (.registered rfl)
  | missed =>
    rcases hcreate : Provider.create slot.device slot.precision with e | p
    · refine .keeps ?_ ?_ ?_ <;> simp only [step, create, hcreate]
      · exact .refused
      · intro hdone
        cases hdone
    · refine .keeps ?_ ?_ ?_ <;> simp only [step, create, hcreate]
      · rfl
      · exact .made
      · intro hdone
        cases hdone
  | @made i =>
    cases hheld : r.get? slot with
    | some held =>
      refine .keeps ?_ ?_ ?_ <;> simp only [step, putIfEmpty, hheld]
      · exact .handed rfl
      · intro hdone
        cases hdone
    | none =>
      refine .lands hheld (i := i) ?_ ?_ <;> simp only [step, putIfEmpty, hheld]
      · exact if_pos rfl
      · exact .handed rfl
  | handed held => exact .keeps rfl (.handed held) id
  | nothing => exact .keeps rfl .nothing id
  | registered held => exact .keeps rfl (.registered held) id
  | refused => exact .keeps rfl .refused id

private theorem Stage.Fits.fill {stage : Stage} (h : stage.Fits slot none)
    (hstage : ∀ i, stage ≠ .cleared i)
    (i : Instance) : stage.Fits slot (some i) := by
  cases h with
  | asked concerns => exact .asked concerns
  | cleared own vacant => exact absurd rfl (hstage _)
  | missed => exact .missed
  | made => exact .made
  | handed held => cases held
  | nothing => exact .nothing
  | registered held => cases held
  | refused => exact .refused

section Step
variable {s : Shared} {k : Nat} {stage : Stage} (h : s.Agreed slot) (hstage : s.stages[k]? = some stage)
include h hstage

private theorem Shared.Agreed.step_of_keeps
    (same : (stage.step s.registry).2.get? slot = s.registry.get? slot)
    (fits : (stage.step s.registry).1.Fits slot (s.registry.get? slot))
    (registered : (stage.step s.registry).1 = .answered (.ok .done) → stage = .answered (.ok .done)) :
    (s.step k).Agreed slot := by
  have hheld : (s.step k).registry.get? slot = s.registry.get? slot := by
    rw [step_of_stage hstage, ← same]
  have hbefore : ∀ j : Nat, (s.step k).stages[j]? = some (.answered (.ok .done)) →
      s.stages[j]? = some (.answered (.ok .done)) := by
    intro j hj
    rcases stage_step hstage hj with ⟨rfl, hdone⟩ | ⟨-, hold⟩
    · rw [hstage, registered hdone.symm]
    · exact hold
  constructor
  · intro other hother
    obtain ⟨j, hj⟩ := List.mem_iff_getElem?.mp hother
    rw [hheld]
    rcases stage_step hstage hj with ⟨-, rfl⟩ | ⟨-, hold⟩
    · exact fits
    · exact h.fits other (List.mem_of_getElem? hold)
  · intro j l hj hl
    exact h.once j l (hbefore j hj) (hbefore l hl)

private theorem Shared.Agreed.step_of_lands (hk : ¬ s.Overtakes slot k) {i : Instance}
    (vacant : s.registry.get? slot = none) (landed : (stage.step s.registry).2.get? slot = some i)
    (fits : (stage.step s.registry).1.Fits slot (some i)) : (s.step k).Agreed slot := by
  have hheld : (s.step k).registry.get? slot = some i := by rw [step_of_stage hstage, ← landed]
  have hempty : ∀ (j : Nat) (other : Stage), s.stages[j]? = some other → other.Fits slot none := by
    intro j other hj
    rw [← vacant]
    exact h.fits other (List.mem_of_getElem? hj)
  have honly : ∀ j : Nat, (s.step k).stages[j]? = some (.answered (.ok .done)) → j = k := by
    intro j hj
    rcases stage_step hstage hj with ⟨rfl, -⟩ | ⟨-, hdone⟩
    · rfl
    · -- nothing was registered while the slot was empty
      cases hempty j _ hdone with
      | registered held => cases held
  constructor
  · intro other hother
    obtain ⟨j, hj⟩ := List.mem_iff_getElem?.mp hother
    rw [hheld]
    rcases stage_step hstage hj with ⟨-, rfl⟩ | ⟨hne, hold⟩
    · exact fits
    · refine (hempty j other hold).fill (fun waiting hcleared => hk ?_) i
      exact ⟨vacant, by simp [hheld], j, waiting, hne, hcleared ▸ hold⟩
  · intro j l hj hl
    exact (honly j hj).trans (honly l hl).symm

end Step

/-- A step that overtakes no registration keeps the agreement, and what stands in the slot. -/
theorem Shared.Agreed.step {s : Shared} (h : s.Agreed slot) {k : Nat} (hk : ¬ s.Overtakes slot k) :
    (s.step k).Agreed slot ∧
      ∀ i, s.registry.get? slot = some i → (s.step k).registry.get? slot = some i := by
  cases hstage : s.stages[k]? with
  | none =>
    rw [Shared.step, hstage]
    exact ⟨h, fun i => id⟩
  | some stage =>
    cases (h.fits stage (List.mem_of_getElem? hstage)).moves with
    | keeps same fits registered =>
      refine ⟨h.step_of_keeps hstage same fits registered, fun i hi => ?_⟩
      rw [step_of_stage hstage, ← hi, ← same]
    | lands vacant landed fits =>
      refine ⟨h.step_of_lands hstage hk vacant landed fits, fun i hi => ?_⟩
      rw [vacant] at hi
      cases hi

private theorem Shared.Agreed.run {s : Shared} (h : s.Agreed slot) {schedule : List Nat}
    (hschedule : s.Orderly slot schedule) :
    (s.run schedule).Agreed slot ∧
      ∀ i, s.registry.get? slot = some i → (s.run schedule).registry.get? slot = some i := by
  induction schedule generalizing s with
  | nil => exact ⟨h, fun i => id⟩
  | cons k rest ih =>
    obtain ⟨hstep, hkept⟩ := h.step hschedule.1
    obtain ⟨hrest, hlast⟩ := ih hstep hschedule.2
    exact ⟨hrest, fun i hi => hlast i (hkept i hi)⟩

private theorem Shared.orderly_append {s : Shared} {first second : List Nat} :
    s.Orderly slot (first ++ second) ↔ s.Orderly slot first ∧ (s.run first).Orderly slot second := by
  induction first generalizing s with
  | nil => simp [Orderly, Shared.run]
  | cons k rest ih =>
    rw [List.cons_append, Orderly, ih, Orderly, and_assoc]
    rfl

/-! ## Registrations -/

/-- The call is a registration on its way. -/
inductive Stage.Registers : Stage → Prop
  | asked {i : Instance} : Registers (.asked (.register i))
  | cleared {i : Instance} : Registers (.cleared i)

private theorem Stage.Registers.of_step {r : Registry} {stage : Stage} (h : (stage.step r).1.Registers) :
    stage.Registers := by
  cases stage with
  | asked c =>
    cases c with
    | register i => exact .asked
    | getOrCreate slot =>
      rw [step] at h
      split at h <;> cases h
    | unregister slot => cases h
    | get slot => cases h
    | clear => cases h
  | cleared i => exact .cleared
  | missed slot =>
    rw [step] at h
    split at h <;> cases h
  | made slot i => cases h
  | answered result => cases h

private theorem Shared.registers_of_step {s : Shared} {k : Nat}
    (h : ∀ stage ∈ s.stages, ¬ stage.Registers) :
    ∀ stage ∈ (s.step k).stages, ¬ stage.Registers := by
  cases hstage : s.stages[k]? with
  | none =>
    rw [Shared.step, hstage]
    exact h
  | some stage =>
    intro other hother
    obtain ⟨j, hj⟩ := List.mem_iff_getElem?.mp hother
    rcases stage_step hstage hj with ⟨-, rfl⟩ | ⟨-, hold⟩
    · exact fun hregisters => h stage (List.mem_of_getElem? hstage) hregisters.of_step
    · exact h other (List.mem_of_getElem? hold)

private theorem Shared.orderly_of_lookups {s : Shared} (h : ∀ stage ∈ s.stages, ¬ stage.Registers)
    (schedule : List Nat) : s.Orderly slot schedule := by
  induction schedule generalizing s with
  | nil => trivial
  | cons k rest ih =>
    refine ⟨?_, ih (registers_of_step h)⟩
    rintro ⟨-, -, j, i, -, hcleared⟩
    exact h _ (List.mem_of_getElem? hcleared) .cleared

/-- A registration that is overtaken overwrites what was put in the slot before it. -/
theorem Shared.Agreed.overwrites {s : Shared} (h : s.Agreed slot) {k : Nat} (hk : s.Overtakes slot k) :
    ∃ j i, ((s.step k).step j).registry.get? slot = some i ∧
      (s.step k).stages[j]? = some (.cleared i) ∧
      ((s.step k).step j).stages[j]? = some (.answered (.ok .done)) := by
  obtain ⟨-, -, j, i, hne, hcleared⟩ := hk
  have hwaits : (s.step k).stages[j]? = some (.cleared i) := by
    cases hstage : s.stages[k]? with
    | none => rwa [Shared.step, hstage]
    | some stage =>
      rw [step_of_stage hstage]
      exact (List.getElem?_set_ne hne.symm).trans hcleared
  have hslot : i.slot = slot := by
    cases h.fits _ (List.mem_of_getElem? hcleared) with
    | cleared own vacant => exact own
  refine ⟨j, i, ?_, hwaits, ?_⟩
  · rw [step_of_stage hwaits, ← hslot]
    exact if_pos rfl
  · rw [step_of_stage hwaits]
    exact List.getElem?_set_self (List.getElem?_eq_some_iff.mp hwaits).1

/-- Calls side by side that register providers for a slot or look for one there, in any order of their
steps: unless a registration is overtaken, at most one of them is accepted, what stands in the slot first
stays there, and it is what all lookups hand out. Lookups alone overtake nothing; a registration that is
overtaken is accepted with its next step, and overwrites what was there. -/
theorem run_keeps_first (r : Registry) {calls : List Call} (hcalls : ∀ c ∈ calls, c.Concerns slot)
    (schedule : List Nat) :
    let s := Shared.start r calls
    (s.Orderly slot schedule →
      (∀ j k : Nat, (s.run schedule).stages[j]? = some (.answered (.ok .done)) →
        (s.run schedule).stages[k]? = some (.answered (.ok .done)) → j = k) ∧
      (∀ i, .answered (.ok (.provider (some i))) ∈ (s.run schedule).stages →
        (s.run schedule).registry.get? slot = some i) ∧
      ∀ before after i, schedule = before ++ after → (s.run before).registry.get? slot = some i →
        (s.run schedule).registry.get? slot = some i) ∧
    ((∀ c ∈ calls, c.LooksUp slot) → s.Orderly slot schedule) ∧
    (s.Orderly slot schedule → ∀ k, (s.run schedule).Overtakes slot k →
      ∃ j i, (s.run (schedule ++ [k, j])).registry.get? slot = some i ∧
        (s.run (schedule ++ [k])).stages[j]? = some (.cleared i) ∧
        (s.run (schedule ++ [k, j])).stages[j]? = some (.answered (.ok .done))) := by
  intro s
  have hstart : s.Agreed slot := .start r hcalls
  refine ⟨fun horderly => ?_, fun hlookups => ?_, fun horderly k hk => ?_⟩
  · obtain ⟨hend, -⟩ := hstart.run horderly
    refine ⟨hend.once, fun i hi => ?_, ?_⟩
    · cases hend.fits _ hi with
      | handed held => exact held
    · rintro before after i rfl hi
      obtain ⟨hbefore, hafter⟩ := Shared.orderly_append.mp horderly
      rw [Shared.run_append]
      exact ((hstart.run hbefore).1.run hafter).2 i hi
  · apply Shared.orderly_of_lookups
    intro stage hstage hregisters
    obtain ⟨c, hc, rfl⟩ := List.mem_map.mp hstage
    cases hregisters with
    | asked => cases hlookups _ hc
  · obtain ⟨j, i, hoverwritten, hwaits, hdone⟩ := (hstart.run horderly).1.overwrites hk
    refine ⟨j, i, ?_, ?_, ?_⟩
    · rw [Shared.run_append]
      exact hoverwritten
    · rw [Shared.run_append]
      exact hwaits
    · rw [Shared.run_append]
      exact hdone

/-- Of two registrations and a lookup between them the first is accepted, the second is refused, and the
lookup that looked before both hands out what was registered. -/
theorem run_registered_first :
    let slot : Slot := ⟨.cpu, .fp32⟩
    let one : Instance := ⟨7, .cpu .fp32 .standard⟩
    let two : Instance := ⟨8, .cpu .fp32 .empty⟩
    let calls : List Call := [.getOrCreate slot, .register one, .register two]
    let s := Shared.start .empty calls
    let schedule := [0, 1, 1, 2, 0, 0]
    (∀ c ∈ calls, c.Concerns slot) ∧ s.Orderly slot schedule ∧
      (s.run schedule).stages = [.answered (.ok (.provider (some one))), .answered (.ok .done),
        .answered (.error (.alreadyRegistered .cpu .fp32))] ∧
      (s.run schedule).registry.get? slot = some one := by
  intro slot one two calls s schedule
  have hcalls : ∀ c ∈ calls, c.Concerns slot := by
    intro c hc
    simp only [calls, List.mem_cons, List.not_mem_nil, or_false] at hc
    rcases hc with rfl | rfl | rfl
    · exact .lookup .getOrCreate
    · exact .register rfl
    · exact .register rfl
  -- only the third step puts a provider in the empty slot, and no other registration has looked by then
  have hthird : ¬ ((s.step 0).step 1).Overtakes slot 1 := by
    rintro ⟨-, -, j, i, hne, hcleared⟩
    match j, hne, hcleared with
    | 0, _, hcleared => cases hcleared
    | 2, _, hcleared => cases hcleared
    | _ + 3, _, hcleared => cases hcleared
  have horderly : s.Orderly slot schedule :=
    ⟨fun h => h.2.1 rfl, fun h => h.2.1 rfl, hthird, (nomatch ·.1), (nomatch ·.1), (nomatch ·.1), trivial⟩
  have hstages : (s.run schedule).stages = [.answered (.ok (.provider (some one))), .answered (.ok .done),
      .answered (.error (.alreadyRegistered .cpu .fp32))] := rfl
  have h := (run_keeps_first .empty hcalls schedule).1 horderly
  exact ⟨hcalls, horderly, hstages, h.2.1 one (hstages ▸ List.mem_cons_self)⟩

/-- Two registrations that both look before either fills the slot are both accepted, and lookups hand out
first the one and then the other. One registration is enough beside a lookup that makes a provider. -/
theorem run_registered_twice :
    let slot : Slot := ⟨.cpu, .fp32⟩
    let one : Instance := ⟨7, .cpu .fp32 .standard⟩
    let two : Instance := ⟨8, .cpu .fp32 .empty⟩
    let made : Instance := ⟨0, .cpu .fp32 .standard⟩
    ((Shared.start .empty [.register one, .register two, .get slot, .getOrCreate slot]).run
        [0, 1, 0, 2, 1, 3]).stages =
      [.answered (.ok .done), .answered (.ok .done), .answered (.ok (.provider (some one))),
        .answered (.ok (.provider (some two)))] ∧
    ((Shared.start .empty [.register two, .getOrCreate slot, .get slot]).run
        [0, 1, 1, 1, 0, 2]).stages =
      [.answered (.ok .done), .answered (.ok (.provider (some made))),
        .answered (.ok (.provider (some two)))] ∧
    one ≠ two ∧ made ≠ two := by
  intro slot one two made
  have hone : one.serial ≠ two.serial := by decide
  have hmade : made.serial ≠ two.serial := by decide
  exact ⟨rfl, rfl, fun heq => hone (heq ▸ rfl), fun heq => hmade (heq ▸ rfl)⟩

end OneSlot
end Registry
end LoweringCheck
