import Mutagen.Glob.Reader
import Mutagen.Text.Blank

/-!
# Ignore files

Each line of an ignore file is a pattern for paths below its directory, and the
last pattern that matches a path decides about it. `!` takes a path back, a
slash at the end is for directories only, and a pattern without any other slash
matches at every depth.
-/
namespace Mutagen

structure IgnoreRule where
  glob : Glob
  /-- Whether matching paths are taken back. -/
  keep : Bool
  directoriesOnly : Bool
  deriving Repr

namespace IgnoreRule

/-- The pattern of a line, whether it takes paths back, and whether it is bound to the directory. -/
def marks : Text → Text × Bool × Bool
  | '\\' :: '!' :: t => ('!' :: t, false, false)
  | '\\' :: '#' :: t => ('#' :: t, false, false)
  | '!' :: '/' :: t => (t, true, true)
  | '!' :: t => (t, true, false)
  | '/' :: t => (t, false, true)
  | t => (t, false, false)

/-- The pattern without a slash at its end, and whether there was one. -/
def directoryMark (t : Text) : Text × Bool :=
  match t.reverse with
  | '/' :: '\\' :: r => (r.reverse, true)
  | '/' :: r => (r.reverse, true)
  | _ => (t, false)

/-- The pattern for whole paths below the directory. -/
def expand (bound : Bool) (t : Text) : Text :=
  let t := if bound || t.contains '/' || t == "**".toList then t else "**/".toList ++ t
  if "/**".toList.isSuffixOf t then t ++ "/*".toList else t

/-- The rule of a line; comments, blank lines and faulty patterns have none. -/
def ofLine? (line : Text) : Option IgnoreRule := do
  let line := if "\\ ".toList.isSuffixOf line then line else line.trimEnd
  if line.isEmpty || line.head? == some '#' then none
  else
    let (t, keep, bound) := marks line
    let (t, directoriesOnly) := directoryMark t
    pure ⟨← Glob.ofText? false .lenient (expand bound t), keep, directoriesOnly⟩

def matchesPath (r : IgnoreRule) (path : Bytes) (isDirectory : Bool) : Bool :=
  (isDirectory || !r.directoriesOnly) && r.glob.matchesPath path

/-- The lines of a file that are text, up to the first one that is not; byte order marks may come
before them. -/
def linesOf (b : Bytes) : List Text :=
  match (b.lines.map Bytes.text?).takeWhile Option.isSome |>.filterMap id with
  | [] => []
  | first :: rest => first.dropWhile (· == '\uFEFF') :: rest

/-- The rules of an ignore file. One pattern that cannot be used spoils the file. -/
def ofBytes (b : Bytes) : List IgnoreRule :=
  let rules := (linesOf b).filterMap ofLine?
  if rules.any fun r => r.glob.isTooDeep then [] else rules

end IgnoreRule

/-- What an ignore file says of a path. -/
inductive Verdict where
  | ignored
  | kept
  deriving DecidableEq, Repr

/-- What rules say of a path; the last one that matches it decides. -/
def verdict? (rules : List IgnoreRule) (path : Bytes) (isDirectory : Bool) : Option Verdict :=
  (rules.reverse.find? fun r => r.matchesPath path isDirectory).map fun r =>
    if r.keep then .kept else .ignored

end Mutagen
