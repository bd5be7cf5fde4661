import Mutagen.Path
import Mutagen.Text.Bytes

/-!
# Files

A file system as a value: files with their bytes, each at the place given by the
names on the way to it, and a working directory from which paths lead. A place
with files below it is a directory. A path is followed step by step, and every
step but the last needs a directory to go on from.
-/
namespace Mutagen

inductive FileError where
  | missing
  | throughFile
  | directory
  | nameTooLong
  | nullCharacter
  | notText
  deriving DecidableEq, Repr

def FileError.message : FileError → String
  | missing => "No such file or directory (os error 2)"
  | throughFile => "Not a directory (os error 20)"
  | directory => "Is a directory (os error 21)"
  | nameTooLong => "File name too long (os error 36)"
  | nullCharacter => "file name contained an unexpected NUL byte"
  | notText => "stream did not contain valid UTF-8"

/-- The names from the top to a file or a directory. -/
abbrev Place := List (List Char)

structure Files where
  entries : List (Place × Bytes)
  /-- Directories that are there even without files below them. -/
  folders : List Place
  /-- The working directory. -/
  current : Place
  deriving DecidableEq, Repr

namespace Files

def empty : Files := ⟨[], [], []⟩

/-- No files, and a working directory. -/
def ofDirectory (current : Place) : Files := ⟨[], [current], current⟩

/-- The bytes of the file at a place. -/
def at? (fs : Files) (p : Place) : Option Bytes := fs.entries.lookup p

def isFileAt (fs : Files) (p : Place) : Bool := (fs.at? p).isSome

def isDirectoryAt (fs : Files) (p : Place) : Bool :=
  p.isEmpty || fs.folders.any (fun f => p.isPrefixOf f) ||
    fs.entries.any fun e => p.isPrefixOf e.1 && e.1 != p

/-- The most bytes of a name. -/
def nameLimit : Nat := 255

/-- The most bytes of a path. -/
def pathLimit : Nat := 4095

/-- One step of a path, which starts from a directory: `.` stays there and `..` leads up. -/
def step (fs : Files) (p : Place) (name : List Char) : Except FileError Place :=
  if fs.isFileAt p then .error .throughFile
  else if !fs.isDirectoryAt p then .error .missing
  else if name == ['.'] then .ok p
  else if name == ['.', '.'] then .ok p.dropLast
  else if nameLimit < (Text.bytes name).length then .error .nameTooLong
  else .ok (p ++ [name])

/-- Where a path starts. -/
def start (fs : Files) (path : String) : Except FileError Place :=
  if path.toList.contains '\x00' then .error .nullCharacter
  else if path.isEmpty then .error .missing
  else if pathLimit < path.utf8ByteSize then .error .nameTooLong
  else .ok (if Path.isAbsolute path then [] else fs.current)

/-- The place that a path leads to. Nothing need be there, but the directory around it is. -/
def locate (fs : Files) (path : String) : Except FileError Place := do
  (Path.steps path).foldlM fs.step (← fs.start path)

/-- Whether what stands where a path leads to passes a test. -/
def leadsTo (fs : Files) (test : Place → Bool) (path : String) : Bool :=
  match fs.locate path with
  | .ok p => test p
  | .error _ => false

def isDirectory (fs : Files) (path : String) : Bool := fs.leadsTo fs.isDirectoryAt path

def isFile (fs : Files) (path : String) : Bool := fs.leadsTo fs.isFileAt path

def exists? (fs : Files) (path : String) : Bool := fs.isFile path || fs.isDirectory path

def read (fs : Files) (path : String) : Except FileError Bytes := do
  let p ← fs.locate path
  match fs.at? p with
  | some b => .ok b
  | none => .error (if fs.isDirectoryAt p then .directory else .missing)

/-- The text of a file. -/
def readText (fs : Files) (path : String) : Except FileError Text := do
  match (← fs.read path).text? with
  | some t => pure t
  | none => .error .notText

/-- Writes a file, unless a directory stands there. -/
def save (fs : Files) (path : String) (b : Bytes) : Except FileError Files := do
  let p ← fs.locate path
  if fs.isDirectoryAt p then .error .directory
  else pure { fs with entries := fs.entries.filter (·.1 != p) ++ [(p, b)] }

/-- Makes the directories along names from a place. Those made before a mistake stay. -/
def makeAlong (fs : Files) (p : Place) : List (List Char) → Except FileError Unit × Files
  | [] => (.ok (), fs)
  | name :: rest =>
    match fs.step p name with
    | .error e => (.error e, fs)
    | .ok q =>
      if fs.isFileAt q then (.error .throughFile, fs)
      else makeAlong { fs with folders := q :: fs.folders } q rest

/-- Makes a directory, and those on the way to it. -/
def makeDirectory (fs : Files) (path : String) : Except FileError Unit × Files :=
  match fs.start path with
  | .error e => (.error e, fs)
  | .ok p => fs.makeAlong p (Path.steps path)

/-- Puts a file into its place with the directories on the way, as far as this can be done. -/
def provide (fs : Files) (path : String) (b : Bytes) : Files :=
  let fs := (fs.makeDirectory (Path.parent path)).2
  match fs.save path b with
  | .ok fs => fs
  | .error _ => fs

/-- Takes a file away; the directory around it stays. -/
def remove (fs : Files) (path : String) : Files :=
  match fs.locate path with
  | .error _ => fs
  | .ok p =>
    if fs.isFileAt p then
      { fs with entries := fs.entries.filter (·.1 != p), folders := p.dropLast :: fs.folders }
    else fs

end Files
end Mutagen
