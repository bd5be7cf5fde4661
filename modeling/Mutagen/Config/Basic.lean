import Mutagen.Number.Decimal
import Mutagen.Registry

/-!
# Configurations

A configuration bounds extraction, sets up mutation, routes extensions to
languages and names a log level. It is checked before use and then turned into
the configuration of a registry.
-/
namespace Mutagen

structure ExtractionConfig where
  maxEntities : Option UInt64
  maxFileSizeKb : UInt64
  excludePatterns : List String

structure MutationConfig where
  seed : UInt64
  likelihood : Option Float
  /-- Mutants kept of an entity; 0 stands for all. -/
  maxMutants : UInt64
  modifiers : Table Override

structure LanguagesConfig where
  disabled : List String
  extensions : Table String

structure LoggingConfig where
  level : String

structure Config where
  extraction : ExtractionConfig
  mutation : MutationConfig
  languages : LanguagesConfig
  logging : LoggingConfig

namespace ExtractionConfig

/-- Files up to one megabyte, without the usual directories of dependencies and products. -/
def initial : ExtractionConfig where
  maxEntities := none
  maxFileSizeKb := 1024
  excludePatterns := ["**/node_modules/**", "**/target/**", "**/.git/**", "**/vendor/**",
    "**/__pycache__/**", "**/dist/**", "**/build/**"]

end ExtractionConfig

namespace MutationConfig

def initial : MutationConfig := ⟨42, none, 0, .empty⟩

end MutationConfig

namespace LanguagesConfig

def initial : LanguagesConfig := ⟨[], .empty⟩

end LanguagesConfig

namespace LoggingConfig

def initial : LoggingConfig := ⟨"info"⟩

end LoggingConfig

namespace Config

/-- The configuration that holds where nothing is said. -/
def initial : Config := ⟨.initial, .initial, .initial, .initial⟩

end Config

/-- Settings given for one run. -/
structure ConfigOverrides where
  seed : Option UInt64
  likelihood : Option Float
  maxEntities : Option UInt64
  maxMutants : Option UInt64
  excludePatterns : List String
  logLevel : Option String

namespace ConfigOverrides

def none : ConfigOverrides := ⟨.none, .none, .none, .none, [], .none⟩

end ConfigOverrides

/-- The items of `base`, then those of `more` that are new. -/
def appendNew (base more : List String) : List String :=
  more.foldl (fun known s => if known.contains s then known else known ++ [s]) base

/-- What is wrong with a value. -/
inductive InvalidCause where
  | notProbability (value : Float)
  | unknownModifier
  | invertedBounds (low high : UInt32)
  | unknownLanguage (name : String)

def InvalidCause.message : InvalidCause → String
  | notProbability value => String.ofList (Decimal.plain value) ++ " is not within [0, 1]"
  | unknownModifier => "unknown modifier"
  | invertedBounds low high =>
    "min_complexity " ++ toString low.toNat ++ " exceeds max_complexity " ++ toString high.toNat
  | unknownLanguage name => "unknown language '" ++ name ++ "'"

inductive ConfigError where
  | unreadable (path : String) (cause : FileError)
  | malformed (path : String)
  | unwritable (path : String) (cause : FileError)
  | noDirectory (path : String) (cause : FileError)
  | outOfRange
  | noHome
  | invalid (key : String) (cause : InvalidCause)

def ConfigError.message : ConfigError → String
  | unreadable path cause => "failed to read config file '" ++ path ++ "': " ++ cause.message
  | malformed path => "failed to parse config file '" ++ path ++ "'"
  | unwritable path cause => "failed to write config file '" ++ path ++ "': " ++ cause.message
  | noDirectory path cause =>
    "failed to create config directory '" ++ path ++ "': " ++ cause.message
  | outOfRange => "failed to serialize config: out-of-range value for u64 type"
  | noHome => "could not determine home directory"
  | invalid key cause => "invalid configuration value for '" ++ key ++ "': " ++ cause.message

/-- Whether a number is a probability. -/
def isProbability (x : Float) : Bool := 0.0 ≤ x && x ≤ 1.0

namespace Config

/-- The configuration with settings for one run. -/
def override (c : Config) (o : ConfigOverrides) : Config :=
  { c with
    extraction := { c.extraction with
      maxEntities := o.maxEntities.or c.extraction.maxEntities
      excludePatterns := appendNew c.extraction.excludePatterns o.excludePatterns }
    mutation := { c.mutation with
      seed := o.seed.getD c.mutation.seed
      likelihood := o.likelihood.or c.mutation.likelihood
      maxMutants := o.maxMutants.getD c.mutation.maxMutants }
    logging := ⟨o.logLevel.getD c.logging.level⟩ }

def checkLikelihood (key : String) : Option Float → Except ConfigError Unit
  | some x => if isProbability x then .ok () else .error (.invalid key (.notProbability x))
  | none => .ok ()

def checkBounds (key : String) : Option UInt32 → Option UInt32 → Except ConfigError Unit
  | some low, some high =>
    if high < low then .error (.invalid key (.invertedBounds low high)) else .ok ()
  | _, _ => .ok ()

/-- The language of a name under a key. -/
def languageOf (key name : String) : Except ConfigError Language :=
  match Language.ofName? name with
  | some l => .ok l
  | none => .error (.invalid key (.unknownLanguage name))

def modifierKey (name : String) : String := "mutation.modifiers." ++ name

def extensionKey (ext : String) : String := "languages.extensions." ++ ext

def checkModifier (name : String) (o : Override) : Except ConfigError Unit := do
  if (Strategy.ofName? name).isNone then .error (.invalid (modifierKey name) .unknownModifier)
  checkLikelihood (modifierKey name ++ ".likelihood") o.likelihood
  checkBounds (modifierKey name) o.minComplexity o.maxComplexity

/-- The languages that are turned off. -/
def disabledLanguages (c : Config) : Except ConfigError (List Language) :=
  c.languages.disabled.mapM (languageOf "languages.disabled")

/-- The extensions with their languages, as they are spelled. -/
def extensionLanguages (c : Config) : Except ConfigError (List (String × Language)) :=
  c.languages.extensions.entries.mapM fun (ext, name) => do
    pure (ext, ← languageOf (extensionKey ext) name)

/-- Checks probabilities, complexity bounds, modifier names and language names, in this order. -/
def validate (c : Config) : Except ConfigError Unit := do
  checkLikelihood "mutation.likelihood" c.mutation.likelihood
  c.mutation.modifiers.entries.forM fun (name, o) => checkModifier name o
  let _ ← c.disabledLanguages
  let _ ← c.extensionLanguages

/-- The largest size of a file in bytes, as far as a word can hold it. -/
def maxFileSize (c : Config) : Nat :=
  min (c.extraction.maxFileSizeKb.toNat * 1024) (UInt64.size - 1)

/-- The configuration of a registry. -/
def registryConfig (c : Config) : Except ConfigError RegistryConfig := do
  c.validate
  let extensions ← c.extensionLanguages
  let disabled ← c.disabledLanguages
  pure {
    seed := c.mutation.seed
    likelihood := c.mutation.likelihood
    overrides := c.mutation.modifiers
    extensions := .ofList (extensions.map fun (ext, l) => (normalizeExtension ext, l))
    disabled
    maxFileSize := some c.maxFileSize }

end Config
end Mutagen
