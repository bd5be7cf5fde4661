import Mutagen.Files
import Mutagen.Modifier.Basic
import Mutagen.Random.Seed
import Mutagen.Table

/-!
# Registries

A registry routes files to languages by their extensions and hands out freshly
seeded modifiers for them, as a configuration says. Parsing is given from
outside, as a function from source text to trees.
-/
namespace Mutagen

/-- Settings of one modifier that differ from the usual ones. -/
structure Override where
  enabled : Option Bool
  likelihood : Option Float
  minComplexity : Option UInt32
  maxComplexity : Option UInt32
  attempts : Option UInt32

namespace Override

def none : Override := ⟨.none, .none, .none, .none, .none⟩

def apply (o : Override) (m : Modifier) : Modifier :=
  let m := match o.likelihood with
    | some x => m.setLikelihood x
    | Option.none => m
  let m := m.setComplexity (o.minComplexity.map UInt32.toNat) (o.maxComplexity.map UInt32.toNat)
  match o.attempts with
  | some n => m.setAttempts n.toNat
  | Option.none => m

end Override

structure RegistryConfig where
  seed : UInt64
  /-- Likelihood of every modifier without one of its own. -/
  likelihood : Option Float
  overrides : Table Override
  extensions : Table Language
  disabled : List Language
  maxFileSize : Option Nat

inductive RegistryError where
  | unknownExtension (ext : String)
  | unknownModifier (name : String)
  | unreadable (path : String) (cause : FileError)
  deriving DecidableEq, Repr

def RegistryError.message : RegistryError → String
  | unknownExtension ext => "No language registered for extension '" ++ ext ++ "'"
  | unknownModifier name => "Unknown modifier '" ++ name ++ "'"
  | unreadable path cause => "Failed to read " ++ path ++ ": " ++ cause.message

/-- Parsing of source text, given from outside. -/
abbrev Parser := Language → Text → Option Node

/-- A configuration whose overrides all name modifiers. -/
structure Registry where
  config : RegistryConfig
  known : ∀ name ∈ config.overrides.keys, (Strategy.ofName? name).isSome

namespace Registry

/-- The registry of a configuration; an error names the first override of an unknown modifier. -/
def ofConfig (config : RegistryConfig) : Except RegistryError Registry :=
  match h : config.overrides.keys.find? fun name => (Strategy.ofName? name).isNone with
  | some name => .error (.unknownModifier name)
  | none => .ok ⟨config, by
      simpa [Option.isSome_iff_ne_none] using List.find?_eq_none.1 h⟩

/-- The language of an extension, in any spelling of it. -/
def languageFor (r : Registry) (ext : String) : Except RegistryError Language :=
  let ext := normalizeExtension ext
  match ((r.config.extensions.get? ext).or (Language.ofExtension? ext)).filter
      fun l => !r.config.disabled.contains l with
  | some l => .ok l
  | none => .error (.unknownExtension ext)

def languageForPath (r : Registry) (path : String) : Except RegistryError Language :=
  r.languageFor ((Path.extension? path).getD "")

def overrideOf? (r : Registry) (s : Strategy) : Option Override := r.config.overrides.get? s.name

def isEnabled (r : Registry) (s : Strategy) : Bool :=
  ((r.overrideOf? s).bind (·.enabled)).getD true

/-- The enabled strategies for a language. -/
def strategiesFor (r : Registry) (l : Language) : List Strategy :=
  (Strategy.forLanguage l).filter r.isEnabled

/-- A modifier with the settings of the registry. -/
def configure (r : Registry) (m : Modifier) : Modifier :=
  let m := match r.config.likelihood with
    | some x => m.setLikelihood x
    | none => m
  match r.overrideOf? m.strategy with
  | some o => o.apply m
  | none => m

/-- A freshly seeded modifier. -/
def modifier (r : Registry) (l : Language) (salt : Bytes) (s : Strategy) : Modifier :=
  r.configure (.ofStrategy s l (Seed.derive r.config.seed [salt, Text.bytes s.name.toList]))

/-- Freshly seeded modifiers for a language. -/
def modifiers (r : Registry) (l : Language) (salt : Bytes) : List Modifier :=
  (r.strategiesFor l).map (r.modifier l salt)

def modifiersFor (r : Registry) (ext : String) : Except RegistryError (List Modifier) := do
  pure (r.modifiers (← r.languageFor ext) [])

/-- Modifiers for a file, seeded by its path too. -/
def modifiersForFile (r : Registry) (path : String) : Except RegistryError (List Modifier) := do
  pure (r.modifiers (← r.languageForPath path) (Text.bytes path.toList))

/-- The entities of a file's bytes: none when it is too large, is not text or cannot be parsed. -/
def entities (r : Registry) (parse : Parser) (l : Language) (path : String) (content : Bytes)
    (limit : Option Nat) : List Entity :=
  if r.config.maxFileSize.any fun n => decide (n < content.length) then []
  else match content.text? with
    | none => []
    | some source =>
      match parse l source with
      | none => []
      | some root => l.dialect.extract ⟨path, source, root⟩ limit

/-- The entities of a file. -/
def extract (r : Registry) (parse : Parser) (fs : Files) (path : String) (limit : Option Nat) :
    Except RegistryError (List Entity) := do
  let l ← r.languageForPath path
  match fs.read path with
  | .error cause => .error (.unreadable path cause)
  | .ok content => pure (r.entities parse l path content limit)

end Registry
end Mutagen
