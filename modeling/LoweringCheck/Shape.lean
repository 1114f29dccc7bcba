/-!
# Row-major shapes

A shape lists the extents of the axes, the slowest first. Coordinates inside a shape and offsets below
its volume are in one-to-one correspondence.
-/
namespace LoweringCheck.Shape

/-- The number of cells of a shape. -/
def volume : List Nat → Nat
  | [] => 1
  | d :: ds => d * volume ds

/-- The coordinate lies in the shape: one index per axis, each below its extent. -/
def Within : List Nat → List Nat → Prop
  | [], [] => True
  | d :: ds, c :: cs => c < d ∧ Within ds cs
  | _, _ => False

instance decidableWithin : (shape c : List Nat) → Decidable (Within shape c)
  | [], [] => isTrue trivial
  | _ :: ds, _ :: cs =>
    have := decidableWithin ds cs
    inferInstanceAs (Decidable (_ ∧ _))
  | [], _ :: _ => isFalse id
  | _ :: _, [] => isFalse id

def offset : List Nat → List Nat → Nat
  | _ :: ds, c :: cs => c * volume ds + offset ds cs
  | _, _ => 0

/-- The coordinate of an offset, and what of the offset lies beyond the shape. An empty axis has
index 0 and takes no part. -/
def spread : List Nat → Nat → List Nat × Nat
  | [], i => ([], i)
  | d :: ds, i =>
    let (cs, rest) := spread ds i
    if 0 < d then (rest % d :: cs, rest / d) else (0 :: cs, rest)

def coordinate (shape : List Nat) (i : Nat) : List Nat :=
  (spread shape i).1

theorem offset_lt : {shape c : List Nat} → Within shape c → offset shape c < volume shape
  | [], [], _ => Nat.one_pos
  | d :: ds, c :: cs, h => by
    have hcell := offset_lt h.2
    have hrow : (c + 1) * volume ds ≤ d * volume ds := Nat.mul_le_mul_right _ h.1
    rw [Nat.add_one_mul] at hrow
    simp only [offset, volume]
    omega

private theorem spread_of_pos (shape : List Nat) (i : Nat) (hv : 0 < volume shape) :
    Within shape (spread shape i).1 ∧ (spread shape i).2 = i / volume shape ∧
      offset shape (spread shape i).1 = i % volume shape := by
  induction shape with
  | nil => simp [spread, Within, volume, offset, Nat.mod_one]
  | cons d ds ih =>
    have hd : 0 < d := Nat.pos_of_mul_pos_right hv
    obtain ⟨hw, hr, ho⟩ := ih (Nat.pos_of_mul_pos_left hv)
    simp only [spread, hd, if_true, Within, offset, volume, hr, ho]
    refine ⟨⟨Nat.mod_lt _ hd, hw⟩, ?_, ?_⟩
    · rw [Nat.div_div_eq_div_mul, Nat.mul_comm]
    · rw [Nat.mul_comm d, Nat.mod_mul, Nat.mul_comm, Nat.add_comm]

theorem coordinate_within {shape : List Nat} {i : Nat} (h : i < volume shape) :
    Within shape (coordinate shape i) :=
  (spread_of_pos shape i (Nat.zero_lt_of_lt h)).1

theorem offset_coordinate {shape : List Nat} {i : Nat} (h : i < volume shape) :
    offset shape (coordinate shape i) = i := by
  rw [coordinate, (spread_of_pos shape i (Nat.zero_lt_of_lt h)).2.2, Nat.mod_eq_of_lt h]

private theorem spread_offset {shape c : List Nat} (k : Nat) (h : Within shape c) :
    spread shape (k * volume shape + offset shape c) = (c, k) := by
  induction shape generalizing c k with
  | nil =>
    cases c with
    | nil => simp [spread, volume, offset]
    | cons => exact h.elim
  | cons d ds ih =>
    cases c with
    | nil => exact h.elim
    | cons c cs =>
      have hsum : k * volume (d :: ds) + offset (d :: ds) (c :: cs) =
          (k * d + c) * volume ds + offset ds cs := by
        simp only [volume, offset, Nat.add_mul, Nat.mul_assoc]
        omega
      have hd : 0 < d := Nat.zero_lt_of_lt h.1
      rw [hsum, spread, ih _ h.2]
      simp only [hd, if_true]
      rw [Nat.mul_comm k, Nat.mul_add_mod, Nat.mod_eq_of_lt h.1, Nat.mul_add_div hd,
        Nat.div_eq_of_lt h.1, Nat.add_zero]

theorem coordinate_offset {shape c : List Nat} (h : Within shape c) :
    coordinate shape (offset shape c) = c := by
  have hs := spread_offset 0 h
  rw [Nat.zero_mul, Nat.zero_add] at hs
  rw [coordinate, hs]

/-- Moving a coordinate along one axis of a shape whose extent there leaves room for it. -/
theorem within_modify {shape c : List Nat} {axis start len extent : Nat}
    (haxis : shape[axis]? = some extent) (hroom : start + len ≤ extent)
    (h : Within (shape.set axis len) c) : Within shape (c.modify axis (start + ·)) := by
  induction shape generalizing c axis with
  | nil => simp at haxis
  | cons d ds ih =>
    cases axis with
    | zero =>
      cases c with
      | nil => exact h.elim
      | cons c cs =>
        simp only [List.getElem?_cons_zero, Option.some.injEq] at haxis
        subst haxis
        exact ⟨Nat.lt_of_lt_of_le (Nat.add_lt_add_left h.1 start) hroom, h.2⟩
    | succ axis =>
      cases c with
      | nil => exact h.elim
      | cons c cs => exact ⟨h.1, ih (by simpa using haxis) h.2⟩

end LoweringCheck.Shape
