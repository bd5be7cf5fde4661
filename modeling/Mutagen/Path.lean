import Mutagen.Text.Basic

/-!
# File paths

A path is a `/`-separated text. Empty components and `.` do not count for its
names, but a path is followed through all of its steps.
-/
namespace Mutagen
namespace Path

/-- The pieces between separators. -/
def splitOn {α : Type} [DecidableEq α] (sep : α) : List α → List (List α)
  | [] => [[]]
  | c :: t =>
    if c = sep then [] :: splitOn sep t
    else match splitOn sep t with
      | [] => [[c]]
      | p :: ps => (c :: p) :: ps

/-- The names in a path, and its steps up. -/
def components (path : String) : List (List Char) :=
  (splitOn '/' path.toList).filter fun p => p != [] && p != ['.']

/-- The last name, unless a step up comes last. -/
def fileName? (path : String) : Option (List Char) :=
  match (components path).getLast? with
  | some name => if name == ['.', '.'] then none else some name
  | none => none

/-- The text after the last dot of the file name, when something stands before that dot. -/
def extension? (path : String) : Option String := do
  let name ← fileName? path
  let after := name.reverse.takeWhile (· != '.')
  let before := name.reverse.drop (after.length + 1)
  if before.isEmpty then none else pure (String.ofList after.reverse)

def isAbsolute (path : String) : Bool := path.toList.head? == some '/'

/-- A path below a directory. -/
def join (dir name : String) : String :=
  if isAbsolute name || dir.isEmpty then name
  else if dir.toList.getLast? == some '/' then dir ++ name
  else dir ++ "/" ++ name

/-- The directory of a path. -/
def parent (path : String) : String :=
  let dir := List.intercalate ['/'] (components path).dropLast
  String.ofList (if isAbsolute path then '/' :: dir else dir)

/-- The steps of a path as they are taken: `.` counts, and a separator at the end asks for a
directory as `.` does. -/
def steps (path : String) : List (List Char) :=
  (splitOn '/' path.toList).filter (· != []) ++
    if path.toList.getLast? == some '/' then [['.']] else []

/-- Whether a path is a spelling of a single step. -/
def spells (step path : String) : Bool :=
  match splitOn '/' path.toList with
  | first :: rest => first == step.toList && rest.all fun p => p == [] || p == ['.']
  | [] => false

/-- A path without `./` at its start. -/
def dropCurrent (path : String) : String :=
  match path.toList with
  | '.' :: '/' :: t => String.ofList t
  | _ => path

/-- What follows another text in a path, without a separator at its start. -/
def dropLead? (lead path : String) : Option String :=
  (Text.dropLead? lead.toList path.toList).map fun t =>
    String.ofList (match t with
      | '/' :: t => t
      | t => t)

/-- The part of a path that follows a directory in its text. A path without a separator has no
directory. -/
def behind (dir path : String) : String :=
  let dir := dropCurrent dir
  let path := dropCurrent path
  if spells "." dir || !path.toList.contains '/' then path else (dropLead? dir path).getD path

end Path
end Mutagen
