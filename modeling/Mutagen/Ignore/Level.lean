import Mutagen.Files
import Mutagen.Ignore.Basic

/-!
# Levels of ignore files

A directory can hold an ignore file of this program, a common one, and those of a
repository: one that is part of it and one in its data. The file of a level looks
at the part of a path that follows the directory in the text of the path.
-/
namespace Mutagen

/-- The ignore files of a directory. -/
structure IgnoreLevel where
  directory : String
  /-- Whether the directory is the top of a repository. -/
  isRepository : Bool
  own : List IgnoreRule
  common : List IgnoreRule
  shared : List IgnoreRule
  excluded : List IgnoreRule
  deriving Repr

namespace Files

/-- The rules of an ignore file, none when it cannot be read. -/
def ignoreRules (fs : Files) (path : String) : List IgnoreRule :=
  match fs.read path with
  | .ok b => IgnoreRule.ofBytes b
  | .error _ => []

/-- The first line of a file. -/
def firstLine? (fs : Files) (path : String) : Option Text :=
  match fs.read path with
  | .ok b => b.lines.head?.bind Bytes.text?
  | .error _ => none

/-- The directory that holds the data of a repository. A file in its place names one with the data
of a single working tree, where another file names the one that is shared. -/
def repositoryData? (fs : Files) (dir : String) : Option String :=
  let data := Path.join dir ".git"
  if fs.isFile data then do
    let own := String.ofList (← Text.dropLead? "gitdir: ".toList (← fs.firstLine? data))
    let common ← fs.firstLine? (Path.join own "commondir")
    pure (if common.head? == some '.' then Path.join own (String.ofList common)
      else String.ofList common)
  else some data

def ignoreLevel (fs : Files) (dir : String) : IgnoreLevel where
  directory := dir
  isRepository := fs.exists? (Path.join dir ".git") || fs.exists? (Path.join dir ".jj")
  own := fs.ignoreRules (Path.join dir ".bugforgeignore")
  common := fs.ignoreRules (Path.join dir ".ignore")
  shared := fs.ignoreRules (Path.join dir ".gitignore")
  excluded := match fs.repositoryData? dir with
    | some data => fs.ignoreRules (Path.join data "info/exclude")
    | none => []

end Files

/-- What the rules of a directory say of a path. -/
def IgnoreLevel.verdict? (l : IgnoreLevel) (rules : IgnoreLevel → List IgnoreRule) (path : String)
    (isDirectory : Bool) : Option Verdict :=
  Mutagen.verdict? (rules l) (Text.bytes (Path.behind l.directory path).toList) isDirectory

end Mutagen
