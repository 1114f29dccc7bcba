import LoweringCheck.Proofs.Artifact.RoundTrip
import LoweringCheck.Proofs.Json.Rereading
/-!
# Artifacts with reals

What is read from the file of an artifact is the artifact with each real in its attributes as the text of
that real is read. So the artifact comes back if and only if all its reals do.
-/
namespace LoweringCheck

private theorem Attribute.reads_toJson (a : Attribute) : a.toJson.Reads Json.Number.token := by
  have hint : ∀ i : Int64, (Json.integer i.toInt).Reads Json.Number.token := fun i =>
    Json.reads_integer (w := Json.Number.token) (fun _ => rfl) i.le_toInt
      (Int.le_trans i.toInt_le (by decide))
  have hreal : ∀ x : Binary .double, (Json.number (.real .double x)).Reads Json.Number.token := fun x =>
    Json.reads_number.mpr (Json.Number.readsAs_real .double x)
  cases a with
  | int i => simp [toJson, toJson.tagged, hint]
  | float x => simpa [toJson, toJson.tagged] using hreal x
  | text s => simp [toJson, toJson.tagged]
  | ints is => simp [toJson, toJson.tagged, hint]
  | floats xs => simpa [toJson, toJson.tagged] using fun x _ => hreal x

private theorem Graph.reads_token {g : Graph} (h : g.Bounded) : g.toJson.Reads Json.Number.token :=
  Graph.reads_toJson (w := Json.Number.token) (fun _ => rfl) h fun _ _ e _ => e.2.reads_toJson

namespace Artifact
variable {a : Artifact} {folder folder' : Folder} {model file : String}

section
variable (hbounded : a.graph.Bounded) (hvalid : a.graph.validate = .ok ())
  (hwrite : a.write folder model = (.ok file, folder'))
include hbounded hvalid hwrite

private theorem read_of_mapReals? {b : Artifact} (h : a.mapReals? Binary.reread = some b) :
    read folder' file = .ok b := by
  rw [read, (content_of_write hwrite).2]
  exact parse_of_some Binary.keeps_token hbounded (Graph.reads_token hbounded) hvalid h

omit hvalid in
private theorem unreadable_of_mapReals? (h : a.mapReals? Binary.reread = none) :
    ∃ problem, read folder' file = .error (.unreadable problem) := by
  rw [read, (content_of_write hwrite).2]
  exact parse_of_none Binary.keeps_token hbounded (Graph.reads_token hbounded) h

private theorem toOption_read : (read folder' file).toOption = a.mapReals? Binary.reread := by
  cases h : a.mapReals? Binary.reread with
  | some b => rw [read_of_mapReals? hbounded hvalid hwrite h]; rfl
  | none =>
    obtain ⟨problem, hproblem⟩ := unreadable_of_mapReals? hbounded hwrite h
    rw [hproblem]
    rfl

theorem read_eq_ok_iff :
    read folder' file = .ok a ↔ ∀ x ∈ a.graph.reals, x.reread = some x := by
  rw [← mapReals?_eq_self_iff, ← toOption_read hbounded hvalid hwrite]
  cases read folder' file <;> simp [Except.toOption]

/-- What is read from a file that an artifact was written to is the artifact with its reals as their texts
are read, and nothing if the text of one of them is not read. So the artifact comes back if and only if each
real does; it does if the reals have few digits and small exponents, and cannot be read if one is NaN or
infinite. -/
theorem read_written :
    (read folder' file).toOption = a.mapReals? Binary.reread ∧
      (read folder' file = .ok a ↔ ∀ x ∈ a.graph.reals, x.reread = some x) ∧
      ((∀ x ∈ a.graph.reals, x.Brief) → read folder' file = .ok a) ∧
      ((∃ x ∈ a.graph.reals, x.isFinite = false) →
        ∃ problem, read folder' file = .error (.unreadable problem)) := by
  have hiff := read_eq_ok_iff hbounded hvalid hwrite
  refine ⟨toOption_read hbounded hvalid hwrite, hiff, fun hbrief => ?_, fun ⟨x, hx, hinfinite⟩ => ?_⟩
  · exact hiff.mpr fun x hx => Binary.reread_brief (hbrief x hx)
  · exact unreadable_of_mapReals? hbounded hwrite (mapReals?_eq_none hx
      (Binary.reread_of_not_finite hinfinite))

end

/-- One node that has a real. -/
def scaled (x : Binary .double) : Artifact where
  version := .latest
  producer := "scaler"
  graph :=
    { nodes := [⟨0, "Scale", none, ["x"], ["y"], .ofList [("factor", .float x)]⟩]
      edges := []
      inputs := [⟨"x", [3], .f32⟩]
      outputs := [⟨"y", [3], .f32⟩]
      metadata := .empty }

private theorem bounded_scaled (x : Binary .double) : (scaled x).graph.Bounded where
  ids := by simp [scaled]
  edges := by simp [scaled]
  shapes := by simp [scaled, naturalLimit]

private theorem validate_scaled (x : Binary .double) : (scaled x).graph.validate = .ok () := by
  rw [← Graph.validate_bare]
  have hbare : (scaled x).graph.bare = (scaled .zero).graph.bare := rfl
  rw [hbare]
  decide +kernel

private theorem write_scaled (x : Binary .double) :
    ∃ folder, (scaled x).write .absent "scaled" = (.ok (fileName "scaled"), folder) :=
  (scaled x).write_allowed (by decide +kernel)

/-- One tenth comes back. -/
theorem read_written_tenth : ∃ folder,
    (scaled (.ofDecimal .double false 1 (-1))).write .absent "scaled" =
      (.ok (fileName "scaled"), folder) ∧
    read folder (fileName "scaled") = .ok (scaled (.ofDecimal .double false 1 (-1))) := by
  obtain ⟨folder, hwrite⟩ := write_scaled (.ofDecimal .double false 1 (-1))
  exact ⟨folder, hwrite, (read_written (bounded_scaled _) (validate_scaled _) hwrite).2.2.1
    (by decide +kernel)⟩

/-- The largest odd integer that a double holds is read as another number, and NaN is not read. -/
theorem written_not_reread :
    (∃ folder, (scaled (.ofInt .double 9007199254740991)).write .absent "scaled" =
        (.ok (fileName "scaled"), folder) ∧
      read folder (fileName "scaled") ≠ .ok (scaled (.ofInt .double 9007199254740991))) ∧
    ∃ folder, (scaled .nan).write .absent "scaled" = (.ok (fileName "scaled"), folder) ∧
      ∃ problem, read folder (fileName "scaled") = .error (.unreadable problem) := by
  obtain ⟨folder, hwrite⟩ := write_scaled (.ofInt .double 9007199254740991)
  obtain ⟨folder', hwrite'⟩ := write_scaled .nan
  refine ⟨⟨folder, hwrite, fun hread => ?_⟩, folder', hwrite',
    unreadable_of_mapReals? (bounded_scaled _) hwrite' (mapReals?_eq_none (x := .nan) ?_ ?_)⟩
  · have hall := (read_eq_ok_iff (bounded_scaled _) (validate_scaled _) hwrite).mp hread
    exact absurd (hall (.ofInt .double 9007199254740991) (by decide +kernel)) (by decide +kernel)
  · decide +kernel
  · exact Binary.reread_of_not_finite rfl

end Artifact
end LoweringCheck
