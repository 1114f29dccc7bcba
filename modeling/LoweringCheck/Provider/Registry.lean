import LoweringCheck.Provider.Basic
/-!
# Provider registries

A registry holds at most one provider for each device and precision and hands it out again and again.
Providers are told apart by serial numbers.
-/
namespace LoweringCheck

/-- A provider as an object of its own. -/
structure Instance where
  serial : Nat
  provider : Provider

/-- What a provider is held for. -/
structure Slot where
  device : Device
  precision : Precision
deriving DecidableEq, Repr

def Slot.all : List Slot := Device.all.flatMap fun d => Precision.all.map (⟨d, ·⟩)

def Instance.slot (i : Instance) : Slot := ⟨i.provider.device, i.provider.precision⟩

structure Registry where
  held : Slot → Option Instance
  /-- the serial number of the next provider that is made -/
  next : Nat

namespace Registry

def empty : Registry := ⟨fun _ => none, 0⟩

def get? (r : Registry) (slot : Slot) : Option Instance := r.held slot

/-- Holds a provider in a slot, in place of one that is there. -/
def put (r : Registry) (slot : Slot) (i : Instance) : Registry :=
  { r with held := fun other => if other = slot then some i else r.held other }

/-- Holds a provider in a slot, unless there is one. Answers the one that is held. -/
def putIfEmpty (r : Registry) (slot : Slot) (i : Instance) : Instance × Registry :=
  match r.get? slot with
  | some held => (held, r)
  | none => (i, r.put slot i)

/-- Makes a provider without holding it. -/
def create (r : Registry) (slot : Slot) : Except ProviderError Instance × Registry :=
  match Provider.create slot.device slot.precision with
  | .ok p => (.ok ⟨r.next, p⟩, { r with next := r.next + 1 })
  | .error e => (.error e, r)

/-- Holds a provider in its own slot, which has to be empty. -/
def register (r : Registry) (i : Instance) : Except ProviderError Unit × Registry :=
  if (r.get? i.slot).isSome then
    (.error (.alreadyRegistered i.slot.device i.slot.precision), r)
  else (.ok (), r.put i.slot i)

def unregister (r : Registry) (slot : Slot) : Except ProviderError Unit × Registry :=
  match r.get? slot with
  | some _ => (.ok (), { r with held := fun other => if other = slot then none else r.held other })
  | none => (.error (.notRegistered slot.device slot.precision), r)

/-- The provider of a slot, made if there is none. A failure is not remembered. -/
def getOrCreate (r : Registry) (slot : Slot) : Except ProviderError Instance × Registry :=
  match r.get? slot with
  | some i => (.ok i, r)
  | none =>
    match r.create slot with
    | (.error e, r) => (.error e, r)
    | (.ok i, r) =>
      let (held, r) := r.putIfEmpty slot i
      (.ok held, r)

def clear (r : Registry) : Registry := { r with held := fun _ => none }

def filled (r : Registry) : List Slot := Slot.all.filter fun slot => (r.get? slot).isSome

/-- The number of providers, or of those for one device. -/
def count (r : Registry) : Nat := r.filled.length
def countOn (r : Registry) (device : Device) : Nat := (r.filled.filter (·.device == device)).length

end Registry
end LoweringCheck
