import Muster.Config.Flat

/-!
# Folders

A folder of text files, and what reading a path in it comes to. There are no folders below it, and
nothing above it is known.

The program gives a path in it to `from_yaml_file` of `MapConfig`.
-/
namespace Muster

/-- The texts of files by their names. -/
abbrev Folder := Table String String

namespace Folder

def isFolder : Fault := .io "Is a directory (os error 21)"

def isFile : Fault := .io "Not a directory (os error 20)"

/-- The names on a path that say something. -/
def names (path : String) : List String :=
  (path.splitOn "/").filter fun n => n ≠ "" ∧ n ≠ "."

/-- A path that can only name a folder. -/
def wantsFolder (path : String) : Bool := path.endsWith "/" || path.endsWith "/."

def read (folder : Folder) (path : String) : Except Fault String :=
  if path.startsWith "/" then .error Settings.missingFile
  else
    match names path with
    | [] | [".."] => .error isFolder
    | [name] =>
      match folder.get? name with
      | none => .error Settings.missingFile
      | some text => if wantsFolder path then .error isFile else .ok text
    | name :: _ =>
      .error (if folder.contains name then isFile else Settings.missingFile)

end Folder

end Muster
