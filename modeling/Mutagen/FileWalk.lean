import Mutagen.Ignore.Personal

/-!
# Walks through files

A walk goes from a directory to the files below it. The ignore files in the
directories around a file decide about it, the nearest first; without a word
from them, hidden files are left out. Those of a repository count only inside of
one.
-/
namespace Mutagen

namespace Place

/-- The names of a place with separators between them. -/
def text (p : Place) : Text := List.intercalate ['/'] p

/-- The path of a place from the top. -/
def path (p : Place) : String := String.ofList ('/' :: text p)

/-- The directories above a place, the nearest first. -/
def above (p : Place) : List Place := (List.range p.length).reverse.map p.take

end Place

/-- A walk from a directory. -/
structure FileWalk where
  files : Files
  /-- The path of the directory, as it was given. -/
  root : String
  place : Place
  /-- The levels above the directory, the nearest first. -/
  outer : List IgnoreLevel
  personal : List IgnoreRule

namespace FileWalk

/-- The walk from a directory for the user with a home directory. -/
def ofDirectory (fs : Files) (home : Option String) (root : String) (place : Place) : FileWalk where
  files := fs
  root
  place
  outer := (Place.above place).map fun p => fs.ignoreLevel (Place.path p)
  personal := match home with
    | some home => fs.personalRules home
    | none => []

/-- A path below the root of a walk, as a path from the top. -/
def fromTop (w : FileWalk) (path : String) : String :=
  Path.join (Place.path w.place) (if Path.spells "." w.root then path
    else (Path.dropLead? (Path.dropCurrent w.root) path).getD path)

/-- The levels up to the top of a repository; none outside of one. -/
def withinRepository (levels : List (IgnoreLevel × String)) : List (IgnoreLevel × String) :=
  match levels.dropWhile fun l => !l.1.isRepository with
  | [] => []
  | top :: _ => levels.takeWhile (fun l => !l.1.isRepository) ++ [top]

/-- What the ignore files around a path say of it, where `inner` are the levels of the walk that
are above it. -/
def verdict? (w : FileWalk) (inner : List IgnoreLevel) (path : String) (isDirectory : Bool) :
    Option Verdict :=
  let path := Path.dropCurrent path
  let levels := inner.map (·, path) ++ w.outer.map (·, w.fromTop path)
  let repository := withinRepository levels
  let ask (levels : List (IgnoreLevel × String)) (rules : IgnoreLevel → List IgnoreRule) :=
    levels.findSome? fun (l, p) => l.verdict? rules p isDirectory
  (ask levels (·.own)).or <| (ask levels (·.common)).or <| (ask repository (·.shared)).or <|
    (ask repository (·.excluded)).or <|
      if repository.isEmpty then none
      else Mutagen.verdict? w.personal
        (Text.bytes (Path.behind (Place.path w.files.current) path).toList) isDirectory

/-- Whether the last name of a path starts with a dot. A path that ends in a dot has no name. -/
def isHidden (path : String) : Bool :=
  path.toList.getLast? != some '.' &&
    ((Path.splitOn '/' path.toList).getLast?.bind List.head?) == some '.'

def isSkipped (w : FileWalk) (inner : List IgnoreLevel) (path : String)
    (isDirectory : Bool) : Bool :=
  match w.verdict? inner path isDirectory with
  | some .ignored => true
  | some .kept => false
  | none => isHidden path

/-- Whether the walk goes on from a directory along names to a file. -/
def follows (w : FileWalk) (inner : List IgnoreLevel) (dir : String) : Place → Bool
  | [] => false
  | [name] => !w.isSkipped inner (Path.join dir (String.ofList name)) false
  | name :: rest =>
    let path := Path.join dir (String.ofList name)
    !w.isSkipped inner path true && w.follows (w.files.ignoreLevel path :: inner) path rest

/-- The files that the walk reaches, as places below its directory in ascending order. `-` is no
directory to walk from. -/
def reached (w : FileWalk) : List Place :=
  if Path.spells "-" w.root then []
  else
    let first := w.files.ignoreLevel w.root
    let below := (w.files.entries.map (·.1)).filter fun p => w.place.isPrefixOf p
    ((below.map fun p => p.drop w.place.length).filter (w.follows [first] w.root)).mergeSort
      fun a b => !decide (b < a)

end FileWalk
end Mutagen
