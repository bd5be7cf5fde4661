import Mutagen.Config.Codec
import Mutagen.Config.Merge
import Mutagen.Toml.Reader
import Mutagen.Toml.Writer

/-!
# Loading configurations

The effective configuration is made of layers: the initial one, the global file,
the file of the workspace or one given by name, and the settings of the run. A
loader keeps the global file once it has been read.
-/
namespace Mutagen
namespace Config

/-- Name of the directory of configuration files. -/
def directoryName : String := ".bugforge"

def fileName : String := "config.toml"

/-- Reads a configuration file. -/
def readFile (fs : Files) (path : String) : Except ConfigError Config :=
  match fs.readText path with
  | .error cause => .error (.unreadable path cause)
  | .ok t =>
    match (Toml.read? t).bind decode with
    | some c => .ok c
    | none => .error (.malformed path)

/-- The text of a configuration file. -/
def fileText (c : Config) : Except ConfigError Text := do pure (Toml.write (← c.encode))

/-- Makes a directory of configuration files, unless it is there. -/
def makeDirectory (fs : Files) (dir : String) : Except ConfigError Unit × Files :=
  if fs.exists? dir then (.ok (), fs)
  else match fs.makeDirectory dir with
    | (.ok _, fs) => (.ok (), fs)
    | (.error cause, fs) => (.error (.noDirectory dir cause), fs)

/-- Writes a configuration file into a directory, which stays also when the file is not written. -/
def writeFile (c : Config) (fs : Files) (dir : String) : Except ConfigError Unit × Files :=
  match makeDirectory fs dir with
  | (.error e, fs) => (.error e, fs)
  | (.ok _, fs) =>
    match c.fileText with
    | .error e => (.error e, fs)
    | .ok t =>
      match fs.save (Path.join dir fileName) t.bytes with
      | .ok fs => (.ok (), fs)
      | .error cause => (.error (.unwritable (Path.join dir fileName) cause), fs)

/-- Reads a configuration file, if there is one. -/
def readFile? (fs : Files) (path : String) : Except ConfigError (Option Config) :=
  if fs.exists? path then (readFile fs path).map some else .ok none

/-- Writes the initial configuration into a directory, unless a file is there. -/
def initDirectory (fs : Files) (dir : String) : Except ConfigError String × Files :=
  let path := Path.join dir fileName
  match makeDirectory fs dir with
  | (.error e, fs) => (.error e, fs)
  | (.ok _, fs) =>
    if fs.exists? path then (.ok path, fs)
    else
      let (done, fs) := initial.writeFile fs dir
      (done.map fun _ => path, fs)

end Config

structure Loader where
  globalDirectory : Option String
  /-- The global layer, once it has been read. -/
  cache : Option Config

namespace Loader

def ofDirectory (dir : String) : Loader := ⟨some dir, none⟩

def globalPath? (l : Loader) : Option String :=
  l.globalDirectory.map fun dir => Path.join dir Config.fileName

/-- The directory of the configuration of a workspace. -/
def localDirectory (workspace : String) : String := Path.join workspace Config.directoryName

def localPath (workspace : String) : String :=
  Path.join (localDirectory workspace) Config.fileName

def clear (l : Loader) : Loader := { l with cache := none }

/-- The global layer, from the cache or from its file. -/
def loadGlobal (l : Loader) (fs : Files) : Except ConfigError (Option Config) × Loader :=
  match l.cache with
  | some c => (.ok (some c), l)
  | none =>
    match l.globalPath? with
    | none => (.ok none, l)
    | some path =>
      match Config.readFile? fs path with
      | .ok (some c) => (.ok (some c), { l with cache := some c })
      | answer => (answer, l)

def loadLocal (fs : Files) (workspace : String) : Except ConfigError (Option Config) :=
  Config.readFile? fs (localPath workspace)

/-- A layer over a configuration, if there is one. -/
def layered (below : Config) : Option Config → Config
  | some above => below.merge above
  | none => below

/-- The layers put together. -/
def combine (global layer : Option Config) (o : Option ConfigOverrides) : Config :=
  let c := layered (layered .initial global) layer
  match o with
  | some o => c.override o
  | none => c

/-- Loads the global layer and puts a layer and settings over it. -/
def loadLayered (l : Loader) (fs : Files) (layer : Option Config) (o : Option ConfigOverrides) :
    Except ConfigError Config × Loader :=
  match l.loadGlobal fs with
  | (.error e, l) => (.error e, l)
  | (.ok global, l) =>
    let c := combine global layer o
    (c.validate.map fun _ => c, l)

/-- The effective configuration of a workspace. -/
def load (l : Loader) (fs : Files) (workspace : String) (o : Option ConfigOverrides) :
    Except ConfigError Config × Loader :=
  match loadLocal fs workspace with
  | .error e => (.error e, l)
  | .ok layer => l.loadLayered fs layer o

/-- The effective configuration with a file in place of the one of the workspace. -/
def loadFile (l : Loader) (fs : Files) (path : String) (o : Option ConfigOverrides) :
    Except ConfigError Config × Loader :=
  match Config.readFile fs path with
  | .error e => (.error e, l)
  | .ok c => l.loadLayered fs (some c) o

/-- Writes the configuration of a workspace. -/
def saveLocal (fs : Files) (workspace : String) (c : Config) : Except ConfigError Unit × Files :=
  c.writeFile fs (localDirectory workspace)

def initGlobal (l : Loader) (fs : Files) : Except ConfigError String × Files :=
  match l.globalDirectory with
  | some dir => Config.initDirectory fs dir
  | none => (.error .noHome, fs)

def initLocal (fs : Files) (workspace : String) : Except ConfigError String × Files :=
  Config.initDirectory fs (localDirectory workspace)

end Loader
end Mutagen
