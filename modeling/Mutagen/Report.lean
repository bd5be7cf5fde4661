import Mutagen.Json
import Mutagen.Mutation

/-!
# Reports

What is shown of entities, mutants, strategies and languages: one line or one
block of text each, or a JSON document.
-/
namespace Mutagen

/-- Text filled up with blanks on the right. -/
def padRight (width : Nat) (t : Text) : Text := t ++ List.replicate (width - t.length) ' '

/-- Text filled up with blanks on the left. -/
def padLeft (width : Nat) (t : Text) : Text := List.replicate (width - t.length) ' ' ++ t

def natText (n : Nat) : Text := Decimal.digitText n

/-- Texts with a comma and a blank between them. -/
def commaList (l : List String) : Text := (", ".intercalate l).toList

namespace Entity

def toJson (e : Entity) : Json :=
  .object [
    ("file_path", .string e.path),
    ("language", .string e.language.name),
    ("kind", .string e.kind.name),
    ("name", .text e.name),
    ("signature", .text e.signature),
    ("stub", .text e.stub),
    ("line_start", .nat e.lineStart),
    ("line_end", .nat e.lineEnd),
    ("indent_level", .nat e.indentLevel),
    ("indent_size", .nat e.indentUnit),
    ("src_code", .text e.code),
    ("tags", .strings (e.tags.map Property.name)),
    ("complexity", .nat e.complexity)]

/-- Path and lines of an entity. -/
def place (e : Entity) : Text :=
  e.path.toList ++ ':' :: (natText e.lineStart ++ '-' :: natText e.lineEnd)

def line (e : Entity) : Text :=
  e.place ++ "  ".toList ++ padRight 8 e.kind.name.toList ++ ' ' :: (e.name ++
    "  (complexity ".toList ++ natText e.complexity ++ ")  [".toList ++
    commaList (e.tags.map Property.name) ++ [']'])

end Entity

namespace Mutant

/-- What is written of a mutant; its cost is not known yet. -/
def members (w : Mutant) : List (String × Json) :=
  [("rewrite", .text w.code), ("explanation", .string w.strategy.explanation),
    ("strategy", .string w.strategy.name), ("cost", .float 0.0)]

end Mutant

namespace Record

def toJson (r : Record) : Json :=
  .object ([
    ("file_path", .string r.entity.path),
    ("entity", .text r.entity.name),
    ("language", .string r.entity.language.name),
    ("line_start", .nat r.entity.lineStart),
    ("line_end", .nat r.entity.lineEnd)] ++ r.mutant.members)

def block (r : Record) : Text :=
  "=== ".toList ++ r.entity.place ++ ' ' :: (r.entity.name ++
    (" [" ++ r.mutant.strategy.name ++ "]\n# " ++ r.mutant.strategy.explanation ++ "\n").toList ++
    r.mutant.code ++ "\n\n".toList)

end Record

namespace Strategy

/-- The greatest complexity, when there is one. -/
def complexityCap? (s : Strategy) : Option Nat :=
  if s.maxComplexity = unboundedComplexity then none else some s.maxComplexity

def toJson (s : Strategy) : Json :=
  .object [
    ("name", .string s.name),
    ("family", .string s.family.name),
    ("likelihood", .float s.likelihood),
    ("min_complexity", .nat s.minComplexity),
    ("max_complexity", .ofOption .nat s.complexityCap?),
    ("max_attempts", .nat s.attempts),
    ("conditions", .strings (s.conditions.map Property.name)),
    ("explanation", .string s.explanation)]

def tableHead : Text :=
  padRight 28 "NAME".toList ++ ' ' :: padRight 13 "FAMILY".toList ++
    ' ' :: padLeft 10 "LIKELIHOOD".toList ++ ' ' :: padLeft 11 "COMPLEXITY".toList ++
    ' ' :: padLeft 8 "ATTEMPTS".toList ++ "  CONDITIONS\n".toList

def tableRow (s : Strategy) : Text :=
  let most := match s.complexityCap? with
    | some n => natText n
    | none => ['∞']
  padRight 28 s.name.toList ++ ' ' :: padRight 13 s.family.name.toList ++
    ' ' :: padLeft 10 (Decimal.fixed 2 s.likelihood) ++
    ' ' :: padLeft 11 (natText s.minComplexity ++ "..".toList ++ most) ++
    ' ' :: padLeft 8 (natText s.attempts) ++
    "  ".toList ++ commaList (s.conditions.map Property.name) ++ ['\n']

end Strategy

/-- What a registry makes of a language. -/
structure LanguageInfo where
  language : Language
  extensions : List String
  enabled : Bool
  modifiers : Nat

namespace Registry

/-- The extensions of a language: its own and the configured ones. -/
def extensionsOf (r : Registry) (l : Language) : List String :=
  r.config.extensions.entries.foldl (fun known e =>
    if e.2 = l ∧ !known.contains e.1 then known ++ [e.1] else known) l.extensions

def describe (r : Registry) (l : Language) : LanguageInfo :=
  let enabled := !r.config.disabled.contains l
  ⟨l, r.extensionsOf l, enabled, if enabled then (r.strategiesFor l).length else 0⟩

/-- What the registry makes of every language. -/
def listing (r : Registry) : List LanguageInfo := Language.all.map r.describe

end Registry

namespace LanguageInfo

def toJson (i : LanguageInfo) : Json :=
  .object [
    ("name", .string i.language.name),
    ("extensions", .strings i.extensions),
    ("classes", .bool i.language.hasClasses),
    ("enabled", .bool i.enabled),
    ("modifiers", .nat i.modifiers)]

def tableHead : Text :=
  padRight 12 "LANGUAGE".toList ++ ' ' :: padRight 8 "CLASSES".toList ++
    ' ' :: padRight 9 "MODIFIERS".toList ++ ' ' :: padRight 9 "STATUS".toList ++
    " EXTENSIONS\n".toList

def tableRow (i : LanguageInfo) : Text :=
  padRight 12 i.language.name.toList ++
    ' ' :: padRight 8 (if i.language.hasClasses then "yes" else "no").toList ++
    ' ' :: padRight 9 (natText i.modifiers) ++
    ' ' :: padRight 9 (if i.enabled then "enabled" else "disabled").toList ++
    ' ' :: commaList i.extensions ++ ['\n']

end LanguageInfo
end Mutagen
