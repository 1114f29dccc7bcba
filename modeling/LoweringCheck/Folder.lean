import LoweringCheck.Text.Utf8
/-!
# Folders

A folder of files at a path. It comes into being, together with the folders above it, with the first
attempt to write into it.
-/
namespace LoweringCheck

inductive FileError where
  | badPath (path : List String)
  | missing (name : String)
deriving DecidableEq, Repr

def FileError.message : FileError → String
  | badPath path => "'" ++ String.intercalate "/" path ++ "' cannot name a file or a folder"
  | missing name => s!"there is no file '{name}'"

structure Folder where
  /-- the names of the folders on the way, the folder's own last -/
  path : List String := []
  /-- the bytes that a path may have from where the folder's own path starts on -/
  room : Nat := 4095
  created : Bool
  /-- each name once -/
  files : List (String × Text.Symbols)
deriving DecidableEq

namespace Folder

/-- The folder before anything is written. -/
def absent : Folder := { created := false, files := [] }

/-- The bytes that the names of a path have together, each with the slash before it. -/
def pathSize (path : List String) : Nat :=
  path.foldr (fun name size => name.utf8ByteSize + 1 + size) 0

/-- Names have at most 255 bytes and no null character. -/
def allowsName (name : String) : Bool :=
  decide (name.utf8ByteSize ≤ 255) && !name.toList.contains '\x00'

/-- A path has names that are allowed and is not too long as a whole. -/
def allows (f : Folder) (path : List String) : Bool :=
  path.all allowsName && decide (pathSize path ≤ f.room)

def read (f : Folder) (name : String) : Except FileError Text.Symbols :=
  match f.files.lookup name with
  | some content => .ok content
  | none => .error (.missing name)

def erase (f : Folder) (name : String) : Folder :=
  { f with files := f.files.filter (·.1 != name) }

/-- Creates the folder, with those above it. -/
def create (f : Folder) : Except FileError Unit × Folder :=
  if f.allows f.path then (.ok (), { f with created := true }) else (.error (.badPath f.path), f)

/-- Writes a file, in place of one with the same name, into the folder that is created for it. -/
def write (f : Folder) (name : String) (content : Text.Symbols) :
    Except FileError Unit × Folder :=
  match f.create with
  | (.error e, f) => (.error e, f)
  | (.ok (), f) =>
    if f.allows (f.path ++ [name]) then
      (.ok (), { f with files := (name, content) :: (f.erase name).files })
    else (.error (.badPath (f.path ++ [name])), f)

def remove (f : Folder) (name : String) : Except FileError Unit × Folder :=
  match f.read name with
  | .ok _ => (.ok (), f.erase name)
  | .error e => (.error e, f)

end Folder
end LoweringCheck
