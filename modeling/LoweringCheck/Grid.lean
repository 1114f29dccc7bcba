import LoweringCheck.Shape
/-!
# Grids

Multi-dimensional arrays of any element type, stored in row-major order. A grid is fixed by its shape
and its elements at the coordinates inside it.
-/
namespace LoweringCheck

structure Grid (α : Type) where
  shape : List Nat
  cells : Array α
  size_eq : cells.size = Shape.volume shape

namespace Grid
variable {α β : Type}

def get (g : Grid α) (c : List Nat) (h : Shape.Within g.shape c) : α :=
  have := Shape.offset_lt h
  have := g.size_eq
  g.cells[Shape.offset g.shape c]

def tabulate (shape : List Nat) (f : (c : List Nat) → Shape.Within shape c → α) : Grid α where
  shape := shape
  cells := Array.ofFn fun i : Fin (Shape.volume shape) =>
    f (Shape.coordinate shape i) (Shape.coordinate_within i.isLt)
  size_eq := Array.size_ofFn

def map (f : α → β) (g : Grid α) : Grid β where
  shape := g.shape
  cells := g.cells.map f
  size_eq := by rw [Array.size_map, g.size_eq]

/-- The part of a grid with `len` indices from `start` on along one axis. -/
def narrow (g : Grid α) (axis start len extent : Nat) (haxis : g.shape[axis]? = some extent)
    (hroom : start + len ≤ extent) : Grid α :=
  tabulate (g.shape.set axis len) fun c hc =>
    g.get (c.modify axis (start + ·)) (Shape.within_modify haxis hroom hc)

@[simp] theorem shape_tabulate (shape : List Nat)
    (f : (c : List Nat) → Shape.Within shape c → α) : (tabulate shape f).shape = shape := rfl

@[simp] theorem shape_map (f : α → β) (g : Grid α) : (g.map f).shape = g.shape := rfl

theorem get_tabulate (shape : List Nat) (f : (c : List Nat) → Shape.Within shape c → α)
    (c : List Nat) (h : Shape.Within shape c) : (tabulate shape f).get c h = f c h := by
  simp only [get, tabulate, Array.getElem_ofFn]
  congr 1
  exact Shape.coordinate_offset h

theorem get_map (f : α → β) (g : Grid α) (c : List Nat) (h : Shape.Within g.shape c) :
    (g.map f).get c h = f (g.get c h) := by
  simp [get, map]

end Grid
end LoweringCheck
