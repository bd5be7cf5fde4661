import Mutagen.Registry
import Mutagen.FileWalk

/-!
# Source files

The files that a path stands for and that some enabled language handles: one
file, or those that a walk from a directory reaches. Patterns given from outside
leave out more.
-/
namespace Mutagen

inductive SourceError where
  | unsupported (path : String)
  | missing (path : String)
  | invalidPattern (pattern : String)
  | deepPattern
  deriving DecidableEq, Repr

def SourceError.message : SourceError → String
  | unsupported path => "Unsupported file " ++ path
  | missing path => "Path does not exist: " ++ path
  | invalidPattern pattern => "Invalid exclude pattern '" ++ pattern ++ "'"
  | deepPattern => "Failed to build exclude patterns"

namespace Sources

/-- The patterns of files to leave out; an error names the first faulty one. -/
def patterns (l : List String) : Except SourceError (List Glob) := do
  let globs ← l.mapM fun p => match Glob.ofText? true .strict p.toList with
    | some g => .ok g
    | none => .error (.invalidPattern p)
  if globs.any Glob.isTooDeep then .error .deepPattern else pure globs

/-- The source files that a walk reaches, as paths through its root. -/
def ofWalk (r : Registry) (globs : List Glob) (w : FileWalk) : List String :=
  let wanted (t : Text) : Bool :=
    (r.languageForPath (String.ofList t)).isOk && !globs.any fun g => g.matchesPath t.bytes
  ((w.reached.map Place.text).filter wanted).map fun t => Path.join w.root (String.ofList t)

/-- The source files that a path stands for. -/
def collect (r : Registry) (exclude : List String) (fs : Files) (home : Option String)
    (root : String) : Except SourceError (List String) := do
  if fs.isFile root then
    match r.languageForPath root with
    | .ok _ => pure [root]
    | .error _ => .error (.unsupported root)
  else match fs.locate root with
    | .error _ => .error (.missing root)
    | .ok place =>
      if fs.isDirectoryAt place then
        pure (ofWalk r (← patterns exclude) (.ofDirectory fs home root place))
      else .error (.missing root)

end Sources
end Mutagen
