import LoweringCheck.Artifact.Basic
import LoweringCheck.Proofs.Graph.Codec
/-!
# Artifacts are read as written

An artifact whose graph can be stored and is valid is given back by its file.
-/
namespace LoweringCheck

private theorem Version.ofNat_number (version : Version) : ofNat version.number = .ok version :=
  dif_pos version.supported

private theorem Version.number_le_limit (version : Version) : version.number ≤ limit := by
  have hsmall : ∀ n ∈ supportedVersions, n ≤ limit := by decide
  exact hsmall _ version.supported

namespace Folder

private theorem pathSize_append (path : List String) (name : String) :
    pathSize (path ++ [name]) = pathSize path + (name.utf8ByteSize + 1) := by
  unfold pathSize
  induction path with
  | nil => simp
  | cons first rest ih =>
    rw [List.cons_append, List.foldr_cons, ih, List.foldr_cons]
    omega

private theorem allows_of_append {f : Folder} {path : List String} {name : String}
    (h : f.allows (path ++ [name]) = true) : f.allows path = true := by
  simp only [allows, pathSize_append, List.all_append, Bool.and_eq_true, decide_eq_true_eq] at h ⊢
  exact ⟨h.1.1, Nat.le_trans (Nat.le_add_right _ _) h.2⟩

private theorem write_allowed (f : Folder) {name : String} (content : Text.Symbols)
    (h : f.allows (f.path ++ [name]) = true) :
    ∃ g, f.write name content = (.ok (), g) := by
  refine ⟨{ f with
    created := true
    files := (name, content) :: (({ f with created := true } : Folder).erase name).files }, ?_⟩
  have hfile : Folder.allows { f with created := true } (f.path ++ [name]) = true := h
  rw [write, create, if_pos (allows_of_append h)]
  simp only [if_pos hfile]

private theorem read_of_write {f g : Folder} {name : String} {content : Text.Symbols}
    (h : f.write name content = (.ok (), g)) : g.read name = .ok content := by
  unfold write at h
  split at h
  · cases h
  · split at h
    · cases h
      simp [read]
    · cases h

end Folder

namespace Artifact
open Json.Reader

variable {w : Json.Number → Json.Token} {v : Binary .double → Option (Binary .double)} {a b : Artifact}

/-- The reals in the graph replaced, if all of them can be. -/
def mapReals? (f : Binary .double → Option (Binary .double)) (a : Artifact) : Option Artifact :=
  (a.graph.mapReals? f).map fun graph => { a with graph }

theorem mapReals?_eq_self_iff {f : Binary .double → Option (Binary .double)} :
    a.mapReals? f = some a ↔ ∀ x ∈ a.graph.reals, f x = some x := by
  rw [← Graph.mapReals?_eq_self_iff, mapReals?]
  obtain ⟨version, producer, graph⟩ := a
  simp

theorem mapReals?_eq_none {f : Binary .double → Option (Binary .double)} {x : Binary .double}
    (hx : x ∈ a.graph.reals) (h : f x = none) : a.mapReals? f = none := by
  rw [mapReals?, Graph.mapReals?_eq_none hx h, Option.map_none]

private theorem reads_toJson (hw : ∀ i, w (.integer i) = .number (.integer i))
    (h : a.graph.toJson.Reads w) :
    a.toJson.Reads w := by
  have hnumber := Nat.le_trans a.version.number_le_limit (by decide : _ ≤ Json.Numeral.natLimit)
  simp [toJson, Json.reads_natural hw hnumber, h]

private theorem Unchecked.read_gives (hw : Keeps w v) (h : a.graph.Bounded) :
    Unchecked.read.Gives w 7 a.toJson
      ((a.graph.mapReals? v).map fun graph => ⟨a.version.number, a.producer, graph⟩) := by
  have hnumber := natural_gives hw a.version.number_le_limit
  exact (record_gives
    (.cons rfl rfl (part_gives _ (hnumber.mono (Nat.zero_le _)))
    (.cons rfl rfl (part_gives _ ((text_gives a.producer).mono (Nat.zero_le _)))
    (.last rfl rfl (part_gives _ (Graph.read_gives hw h)))))).filterMap (by
      cases a.graph.mapReals? v <;> rfl)

/-- The content of an artifact is read as the artifact with its reals as they are read. -/
theorem parse_of_some (hw : Keeps w v) (hbounded : a.graph.Bounded) (hreads : a.graph.toJson.Reads w)
    (hvalid : a.graph.validate = .ok ()) (h : a.mapReals? v = some b) : parse a.content = .ok b := by
  obtain ⟨graph, hgraph, rfl⟩ := Option.map_eq_some_iff.mp h
  have hrun := run_gives (Unchecked.read_gives hw hbounded) (by decide)
  rw [hgraph, Option.map_some] at hrun
  rw [parse, content, Json.tokenize_renderIndented (reads_toJson hw.integer hreads)]
  generalize Unchecked.read.run (a.toJson.tokensBy w) = result at hrun ⊢
  cases result with
  | error problem => cases hrun
  | ok unchecked =>
    cases hrun
    simp only [Unchecked.check, Version.ofNat_number, Graph.validate_of_mapReals? hgraph, hvalid]

/-- The content is not readable if one of the reals is not. -/
theorem parse_of_none (hw : Keeps w v) (hbounded : a.graph.Bounded) (hreads : a.graph.toJson.Reads w)
    (h : a.mapReals? v = none) : ∃ problem, parse a.content = .error (.unreadable problem) := by
  have hrun := run_gives (Unchecked.read_gives hw hbounded) (by decide)
  rw [Option.map_eq_none_iff.mp h, Option.map_none] at hrun
  rw [parse, content, Json.tokenize_renderIndented (reads_toJson hw.integer hreads)]
  generalize Unchecked.read.run (a.toJson.tokensBy w) = result at hrun ⊢
  cases result with
  | error problem => exact ⟨problem, rfl⟩
  | ok unchecked => cases hrun

theorem parse_content (h : a.graph.Storable) (hvalid : a.graph.validate = .ok ()) :
    parse a.content = .ok a :=
  parse_of_some keeps_number h.toBounded (Graph.reads_toJson (fun _ => rfl) h.toBounded h.attributes)
    hvalid (mapReals?_eq_self_iff.mpr fun _ _ => rfl)

theorem content_of_write {a : Artifact} {folder folder' : Folder} {model file : String}
    (h : a.write folder model = (.ok file, folder')) :
    file = fileName model ∧ folder'.read file = .ok a.content := by
  unfold write at h
  split at h
  · rename_i hwrite
    cases h
    exact ⟨rfl, Folder.read_of_write hwrite⟩
  · cases h

theorem write_allowed (a : Artifact) {folder : Folder} {model : String}
    (hallowed : folder.allows (folder.path ++ [fileName model]) = true) :
    ∃ folder', a.write folder model = (.ok (fileName model), folder') := by
  obtain ⟨folder', hwrite⟩ := folder.write_allowed a.content hallowed
  exact ⟨folder', by rw [write, hwrite]⟩

end Artifact
end LoweringCheck
