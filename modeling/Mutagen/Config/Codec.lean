import Mutagen.Config.Basic
import Mutagen.Json
import Mutagen.Toml.Basic

/-!
# Configurations as documents

A configuration is kept in a TOML document. Settings that are not made are left
out; sections and keys that are left out have their initial values, and unknown
keys are passed over. For display there is a JSON form with the same members.
-/
namespace Mutagen
namespace Config

/-! Encoding. Whole numbers beyond the range of documents cannot be encoded. -/

def encodeNat (n : Nat) : Except ConfigError Toml :=
  if n < Toml.limit then .ok (.integer n) else .error .outOfRange

/-- The member for a setting, when it is made. -/
def optional {α : Type} (key : String) (f : α → Except ConfigError Toml) :
    Option α → Except ConfigError (List (String × Toml))
  | some a => do pure [(key, ← f a)]
  | none => .ok []

def encodeFloat (x : Float) : Except ConfigError Toml := .ok (.float x)

def encodeWord32 (n : UInt32) : Except ConfigError Toml := .ok (.integer n.toNat)

def encodeText (s : String) : Toml := .string s.toList

def encodeOverride (o : Override) : Except ConfigError Toml := do
  let enabled ← optional "enabled" (fun b => .ok (.boolean b)) o.enabled
  let likelihood ← optional "likelihood" encodeFloat o.likelihood
  let low ← optional "min_complexity" encodeWord32 o.minComplexity
  let high ← optional "max_complexity" encodeWord32 o.maxComplexity
  let attempts ← optional "max_attempts" encodeWord32 o.attempts
  pure (.table (enabled ++ likelihood ++ low ++ high ++ attempts))

def encodeExtraction (c : ExtractionConfig) : Except ConfigError Toml := do
  let maxEntities ← optional "max_entities" (fun n => encodeNat n.toNat) c.maxEntities
  let size ← encodeNat c.maxFileSizeKb.toNat
  pure (.table (maxEntities ++ [("max_file_size_kb", size),
    ("exclude_patterns", .array (c.excludePatterns.map encodeText))]))

def encodeMutation (c : MutationConfig) : Except ConfigError Toml := do
  let seed ← encodeNat c.seed.toNat
  let likelihood ← optional "likelihood" encodeFloat c.likelihood
  let most ← encodeNat c.maxMutants.toNat
  let modifiers ← c.modifiers.entries.mapM fun (name, o) => do pure (name, ← encodeOverride o)
  pure (.table ([("seed", seed)] ++ likelihood ++ [("max_bugs_per_entity", most),
    ("modifiers", .table modifiers)]))

def encodeLanguages (c : LanguagesConfig) : Toml :=
  .table [("disabled", .array (c.disabled.map encodeText)),
    ("extensions", .table (c.extensions.entries.map fun (ext, name) => (ext, encodeText name)))]

def encodeLogging (c : LoggingConfig) : Toml := .table [("level", encodeText c.level)]

/-- The document of a configuration. -/
def encode (c : Config) : Except ConfigError Toml := do
  let extraction ← encodeExtraction c.extraction
  let mutation ← encodeMutation c.mutation
  pure (.table [("extraction", extraction), ("mutation", mutation),
    ("languages", encodeLanguages c.languages), ("logging", encodeLogging c.logging)])

/-! Decoding. A member of the wrong type is a mistake. -/

/-- The member under a key, read by `f`; `missing` when there is none. -/
def member {α : Type} (entries : List (String × Toml)) (key : String) (f : Toml → Option α)
    (missing : α) : Option α :=
  match entries.lookup key with
  | some v => f v
  | none => some missing

/-- The key under which a date or a time is kept where texts with keys are asked for. -/
def momentKey : String := "$__toml_private_datetime"

/-- The members of a section with known keys. A table names them, an array has them in order, and
a date or a time has none of them. -/
def sectionOf (keys : List String) : Toml → Option (List (String × Toml))
  | .table entries => some entries
  | .array items => some (keys.zip items)
  | .moment _ => some []
  | _ => none

/-- The members of a table with keys of any kind. -/
def entriesOf : Toml → Option (List (String × Toml))
  | .table entries => some entries
  | .moment t => some [(momentKey, .string t)]
  | _ => none

def decodeNat (limit : Nat) : Toml → Option Nat
  | .integer n => if 0 ≤ n ∧ n < limit then some n.toNat else none
  | _ => none

def decodeWord64 (v : Toml) : Option UInt64 := (decodeNat Toml.limit v).map UInt64.ofNat

def decodeWord32 (v : Toml) : Option UInt32 := (decodeNat UInt32.size v).map UInt32.ofNat

/-- A number; a whole number counts as one. -/
def decodeFloat : Toml → Option Float
  | .float x => some x
  | .integer n => some (Binary64.nearest (decide (n < 0)) n.natAbs 1)
  | _ => none

def decodeBool : Toml → Option Bool
  | .boolean b => some b
  | _ => none

def decodeText : Toml → Option String
  | .string t => some (String.ofList t)
  | _ => none

def decodeTexts : Toml → Option (List String)
  | .array items => items.mapM decodeText
  | _ => none

def decodeTable {α : Type} (f : Toml → Option α) (v : Toml) : Option (Table α) := do
  let entries ← entriesOf v
  let decoded ← entries.mapM fun (k, v) => do pure (k, ← f v)
  pure (.ofList decoded)

def decodeOverride (v : Toml) : Option Override := do
  let entries ← sectionOf
    ["enabled", "likelihood", "min_complexity", "max_complexity", "max_attempts"] v
  pure {
    enabled := ← member entries "enabled" (fun v => (decodeBool v).map some) none
    likelihood := ← member entries "likelihood" (fun v => (decodeFloat v).map some) none
    minComplexity := ← member entries "min_complexity" (fun v => (decodeWord32 v).map some) none
    maxComplexity := ← member entries "max_complexity" (fun v => (decodeWord32 v).map some) none
    attempts := ← member entries "max_attempts" (fun v => (decodeWord32 v).map some) none }

def decodeExtraction (v : Toml) : Option ExtractionConfig := do
  let entries ← sectionOf ["max_entities", "max_file_size_kb", "exclude_patterns"] v
  let d := ExtractionConfig.initial
  pure {
    maxEntities :=
      ← member entries "max_entities" (fun v => (decodeWord64 v).map some) d.maxEntities
    maxFileSizeKb := ← member entries "max_file_size_kb" decodeWord64 d.maxFileSizeKb
    excludePatterns := ← member entries "exclude_patterns" decodeTexts d.excludePatterns }

def decodeMutation (v : Toml) : Option MutationConfig := do
  let entries ← sectionOf ["seed", "likelihood", "max_bugs_per_entity", "modifiers"] v
  let d := MutationConfig.initial
  pure {
    seed := ← member entries "seed" decodeWord64 d.seed
    likelihood := ← member entries "likelihood" (fun v => (decodeFloat v).map some) d.likelihood
    maxMutants := ← member entries "max_bugs_per_entity" decodeWord64 d.maxMutants
    modifiers := ← member entries "modifiers" (decodeTable decodeOverride) d.modifiers }

def decodeLanguages (v : Toml) : Option LanguagesConfig := do
  let entries ← sectionOf ["disabled", "extensions"] v
  let d := LanguagesConfig.initial
  pure {
    disabled := ← member entries "disabled" decodeTexts d.disabled
    extensions := ← member entries "extensions" (decodeTable decodeText) d.extensions }

def decodeLogging (v : Toml) : Option LoggingConfig := do
  let entries ← sectionOf ["level"] v
  pure { level := ← member entries "level" decodeText LoggingConfig.initial.level }

/-- The configuration of a document. -/
def decode (v : Toml) : Option Config := do
  let entries ← sectionOf ["extraction", "mutation", "languages", "logging"] v
  let d := Config.initial
  pure {
    extraction := ← member entries "extraction" decodeExtraction d.extraction
    mutation := ← member entries "mutation" decodeMutation d.mutation
    languages := ← member entries "languages" decodeLanguages d.languages
    logging := ← member entries "logging" decodeLogging d.logging }

/-! Display. -/

def optionalJson {α : Type} (key : String) (f : α → Json) : Option α → List (String × Json)
  | some a => [(key, f a)]
  | none => []

def overrideJson (o : Override) : Json :=
  .object (optionalJson "enabled" .bool o.enabled ++
    optionalJson "likelihood" .float o.likelihood ++
    optionalJson "min_complexity" (fun n => .nat n.toNat) o.minComplexity ++
    optionalJson "max_complexity" (fun n => .nat n.toNat) o.maxComplexity ++
    optionalJson "max_attempts" (fun n => .nat n.toNat) o.attempts)

def toJson (c : Config) : Json :=
  .object [
    ("extraction", .object (
      optionalJson "max_entities" (fun n => .nat n.toNat) c.extraction.maxEntities ++ [
      ("max_file_size_kb", .nat c.extraction.maxFileSizeKb.toNat),
      ("exclude_patterns", .strings c.extraction.excludePatterns)])),
    ("mutation", .object ([("seed", .nat c.mutation.seed.toNat)] ++
      optionalJson "likelihood" .float c.mutation.likelihood ++ [
      ("max_bugs_per_entity", .nat c.mutation.maxMutants.toNat),
      ("modifiers", .object
        (c.mutation.modifiers.entries.map fun (k, o) => (k, overrideJson o)))])),
    ("languages", .object [
      ("disabled", .strings c.languages.disabled),
      ("extensions", .object (c.languages.extensions.entries.map fun (k, v) => (k, .string v)))]),
    ("logging", .object [("level", .string c.logging.level)])]

end Config
end Mutagen
