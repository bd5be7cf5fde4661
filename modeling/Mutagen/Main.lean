import Mutagen.Command.Run
import Mutagen.Tree.Dump

/-!
# The program

Runs one command. Commands on source files take the paths of the files to look
at from standard input, one a line; the tree of a source file is in a dump
beside it, with `.tree` after its name. Configuration files and files named on
the command line are read without being listed.
-/
namespace Mutagen
namespace Program

partial def readLines (input : IO.FS.Stream) (read : List String) : IO (List String) := do
  let line ← input.getLine
  if line.isEmpty then pure read.reverse
  else readLines input (String.ofList (Text.trimEnd line.toList) :: read)

def readBytes? (path : String) : IO (Option Bytes) := do
  try pure (some (← IO.FS.readBinFile path).toList)
  catch _ => pure none

/-- Adds a file, if it can be read. -/
def addFile (fs : Files) (path : String) : IO Files := do
  match ← readBytes? path with
  | some b => pure (fs.provide path b)
  | none => pure fs

/-- The configuration file and the source path that a command line names. -/
def namedPaths (args : List String) : Option String × Option String :=
  match Command.parse args with
  | .ok i => (i.shared.config, i.command.sourcePath?)
  | .error _ => (none, none)

/-- The trees of the dumps among files, with their languages and sources. -/
def trees (fs : Files) (paths : List String) : List ((Language × Text) × Node) :=
  paths.filterMap fun path =>
    match fs.readText path, fs.readText (path ++ ".tree") with
    | .ok source, .ok dump => (Dump.read? dump).map fun (l, root) => ((l, source), root)
    | _, _ => none

def environment (args : List String) : IO Environment := do
  let current := (← IO.getEnv "PWD").getD "/"
  let home ← IO.getEnv "HOME"
  let config ← IO.getEnv "BUGFORGE_CONFIG"
  let (configPath, sourcePath) := namedPaths args
  let listed ← if sourcePath.isSome then readLines (← IO.getStdin) [] else pure []
  let sources := sourcePath.toList ++ listed
  let workspaces := current :: (sourcePath.toList.flatMap fun path => [path, Path.parent path])
  let configs := configPath.toList ++ config.toList ++
    (workspaces ++ home.toList).map Loader.localPath
  let start := Files.ofDirectory (Path.components current)
  let files ← (configs ++ sources ++ sources.map (· ++ ".tree")).foldlM addFile start
  let known := trees files sources
  pure { files, parse := fun l t => known.lookup (l, t), home, config }

/-- Writes the files that a command changed. -/
def writeChanges (before after : Files) : IO Unit :=
  after.entries.forM fun (p, b) => do
    unless before.at? p == some b do
      IO.FS.createDirAll (Place.path p.dropLast)
      IO.FS.writeBinFile (Place.path p) (ByteArray.mk b.toArray)

def run (args : List String) : IO UInt32 := do
  let env ← environment args
  match Command.invoke env args with
  | .usage =>
    IO.eprintln ("usage: " ++ Command.programName ++
      " [-c FILE] [-v] [-q] extract|mutate|modifiers|languages|config ...")
    pure 2
  | .failed e =>
    IO.eprintln ("Error: " ++ e.message)
    pure 1
  | .printed p =>
    writeChanges env.files p.files
    IO.print (String.ofList p.output)
    p.notes.forM fun t => IO.eprintln (String.ofList t)
    pure 0

end Program
end Mutagen

def main (args : List String) : IO UInt32 := Mutagen.Program.run args
