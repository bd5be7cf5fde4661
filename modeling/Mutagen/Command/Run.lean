import Mutagen.Command.Basic
import Mutagen.Config.Loader
import Mutagen.Json.Member
import Mutagen.Report
import Mutagen.Sources

/-!
# Running commands

A command reads a file system, prints a report and some notes beside it, and may
leave a changed file system behind.
-/
namespace Mutagen

/-- What a command is run in. -/
structure Environment where
  files : Files
  parse : Parser
  home : Option String
  /-- A configuration file named by the surroundings. -/
  config : Option String

/-- Why a command fails. -/
inductive CommandError where
  | configuration
  | configFile (path : String)
  | mutationConfig
  | registry
  | sources (cause : SourceError)
  | unknownModifier (name : String)
  | unknownLanguage (name : String)
  | unknownKey (key : String)
  | config (cause : ConfigError)

def CommandError.message : CommandError → String
  | configuration => "Failed to load configuration"
  | configFile path => "Failed to load config file " ++ path
  | mutationConfig => "Invalid mutation configuration"
  | registry => "Failed to build modifier registry"
  | sources cause => cause.message
  | unknownModifier name =>
    "Unknown modifier '" ++ name ++ "' (see `" ++ Command.programName ++ " modifiers`)"
  | unknownLanguage name => "Unknown or disabled language '" ++ name ++ "'"
  | unknownKey key => "Unknown configuration key: " ++ key
  | config cause => cause.message

/-- What a command leaves behind. -/
structure Printed where
  output : Text
  notes : List Text
  files : Files

inductive Outcome where
  | usage
  | printed (p : Printed)
  | failed (e : CommandError)

namespace Environment

def loader (env : Environment) : Loader :=
  ⟨env.home.map fun home => Path.join home Config.directoryName, none⟩

/-- The path of the working directory. -/
def workingDirectory (env : Environment) : String := Place.path env.files.current

/-- The directory whose configuration applies to a path. -/
def workspace (env : Environment) (path : String) : String :=
  if env.files.isFile path then Path.parent path else path

def loadConfig (env : Environment) (o : SharedOptions) (workspace : String)
    (settings : ConfigOverrides) : Except CommandError Config :=
  match o.config.or env.config with
  | some path =>
    match (env.loader.loadFile env.files path (some settings)).1 with
    | .ok c => .ok c
    | .error _ => .error (.configFile path)
  | none =>
    match (env.loader.load env.files workspace (some settings)).1 with
    | .ok c => .ok c
    | .error _ => .error .configuration

end Environment

namespace Config

/-- The registry of a configuration. -/
def registry (c : Config) : Except CommandError Registry :=
  match c.registryConfig with
  | .error _ => .error .mutationConfig
  | .ok config =>
    match Registry.ofConfig config with
    | .ok r => .ok r
    | .error _ => .error .registry

end Config

namespace Command

def sourceFiles (env : Environment) (c : Config) (r : Registry) (path : String) :
    Except CommandError (List String) :=
  match Sources.collect r c.extraction.excludePatterns env.files env.home path with
  | .ok l => .ok l
  | .error cause => .error (.sources cause)

/-- A document on lines of its own. -/
def document (env : Environment) (j : Json) : Printed := ⟨j.pretty.toList ++ ['\n'], [], env.files⟩

/-- A report with a summary beside it, unless that is not wanted. -/
def summarized (env : Environment) (o : SharedOptions) (output summary : Text) : Printed :=
  ⟨output, if o.quiet then [] else [summary], env.files⟩

def plain (env : Environment) (output : Text) : Printed := ⟨output, [], env.files⟩

def runExtract (env : Environment) (o : SharedOptions) (path : String) (maxEntities : Option UInt64)
    (exclude : List String) (json : Bool) : Except CommandError Printed := do
  let c ← env.loadConfig o (env.workspace path)
    { ConfigOverrides.none with maxEntities, excludePatterns := exclude }
  let r ← c.registry
  let files ← sourceFiles env c r path
  let limit := c.extraction.maxEntities.map UInt64.toNat
  let entities := files.flatMap fun f =>
    match r.extract env.parse env.files f limit with
    | .ok l => l
    | .error _ => []
  if json then pure (document env (.array (entities.map Entity.toJson)))
  else
    pure (summarized env o (entities.flatMap fun e => e.line ++ ['\n'])
      (natText entities.length ++ " entities in ".toList ++
        natText files.length ++ " files".toList))

def runMutate (env : Environment) (o : SharedOptions) (path : String) (m : MutateOptions)
    (maxEntities : Option UInt64) (exclude : List String) (json : Bool) :
    Except CommandError Printed := do
  if let some name := m.modifiers.find? fun name => (Strategy.ofName? name).isNone then
    .error (.unknownModifier name)
  let c ← env.loadConfig o (env.workspace path)
    ⟨m.seed, m.likelihood, maxEntities, m.maxMutants, exclude, none⟩
  let r ← c.registry
  let files ← sourceFiles env c r path
  let job : MutationJob := {
    registry := r
    only := m.modifiers
    maxEntities := c.extraction.maxEntities.map UInt64.toNat
    maxMutants := c.mutation.maxMutants.toNat }
  let records := files.flatMap (job.run env.parse env.files)
  if json then pure (document env (.array (records.map Record.toJson)))
  else
    pure (summarized env o (records.flatMap Record.block)
      (natText records.length ++ " bug rewrites from ".toList ++ natText files.length ++
        " files".toList))

/-- The strategies to list: all, or those enabled for a language. -/
def listedStrategies (env : Environment) (o : SharedOptions) :
    Option String → Except CommandError (List Strategy)
  | none => .ok Strategy.all
  | some name => do
    let r ← (← env.loadConfig o env.workingDirectory .none).registry
    match (Language.ofName? name).or (r.languageFor name).toOption with
    | some l => pure (r.strategiesFor l)
    | none => .error (.unknownLanguage name)

def runModifiers (env : Environment) (o : SharedOptions) (language : Option String) (json : Bool) :
    Except CommandError Printed := do
  let listed ← listedStrategies env o language
  if json then pure (document env (.array (listed.map Strategy.toJson)))
  else pure (plain env (Strategy.tableHead ++ listed.flatMap Strategy.tableRow))

def runLanguages (env : Environment) (o : SharedOptions) (json : Bool) :
    Except CommandError Printed := do
  let r ← (← env.loadConfig o env.workingDirectory .none).registry
  if json then pure (document env (.array (r.listing.map LanguageInfo.toJson)))
  else pure (plain env (LanguageInfo.tableHead ++ r.listing.flatMap LanguageInfo.tableRow))

def runShow (env : Environment) (o : SharedOptions) (json : Bool) :
    Except CommandError Printed := do
  let c ← env.loadConfig o env.workingDirectory .none
  if json then pure (document env c.toJson)
  else match c.fileText with
    | .ok t => pure (plain env t)
    | .error cause => .error (.config cause)

def runGet (env : Environment) (o : SharedOptions) (key : String) (json : Bool) :
    Except CommandError Printed := do
  let c ← env.loadConfig o env.workingDirectory .none
  match c.toJson.sorted.dotted? key with
  | none => .error (.unknownKey key)
  | some j => pure (if json then document env j else plain env j.line)

/-- Whether a file is there, in words. -/
def presence (there : Bool) : Text := (if there then " (exists)\n" else " (not found)\n").toList

def runPaths (env : Environment) (json : Bool) : Printed :=
  let globalPath := env.loader.globalPath?
  let localPath := Loader.localPath env.workingDirectory
  let globalExists := globalPath.any env.files.exists?
  let localExists := env.files.exists? localPath
  if json then
    document env (.object [("global", .ofOption .string globalPath), ("local", .string localPath),
      ("global_exists", .bool globalExists), ("local_exists", .bool localExists)])
  else
    plain env ((match globalPath with
        | some path => "Global: ".toList ++ path.toList ++ presence globalExists
        | none => "Global: (no home directory)\n".toList) ++
      "Local:  ".toList ++ localPath.toList ++ presence localExists)

def runInit (env : Environment) (global : Bool) : Except CommandError Printed :=
  match if global then env.loader.initGlobal env.files
    else Loader.initLocal env.files env.workingDirectory with
  | (.ok path, files) => .ok ⟨("Configuration file: " ++ path ++ "\n").toList, [], files⟩
  | (.error cause, _) => .error (.config cause)

def run (env : Environment) (o : SharedOptions) : Command → Except CommandError Printed
  | extract path maxEntities exclude json => runExtract env o path maxEntities exclude json
  | mutate path options maxEntities exclude json =>
    runMutate env o path options maxEntities exclude json
  | modifiers language json => runModifiers env o language json
  | languages json => runLanguages env o json
  | showConfig json => runShow env o json
  | getConfig key json => runGet env o key json
  | configPaths json => .ok (runPaths env json)
  | initConfig global => runInit env global

/-- Runs a command line. -/
def invoke (env : Environment) (args : List String) : Outcome :=
  match parse args with
  | .error .usage => .usage
  | .error .help => .printed (plain env [])
  | .error (.version title) => .printed (plain env (title ++ " " ++ programVersion ++ "\n").toList)
  | .ok i =>
    if env.config == some "" && !i.namesConfig then .usage
    else match i.command.run env i.shared with
      | .ok p => .printed p
      | .error e => .failed e

end Command
end Mutagen
