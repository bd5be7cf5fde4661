import Mutagen.Config.Basic

/-!
# Layers

One configuration laid over another: what it says wins, its lists add to those
below, and its tables are merged entry by entry. A number or a level that is
left at its initial value says nothing.
-/
namespace Mutagen

namespace ExtractionConfig

def merge (below above : ExtractionConfig) : ExtractionConfig where
  maxEntities := above.maxEntities.or below.maxEntities
  maxFileSizeKb := if above.maxFileSizeKb ≠ 1024 then above.maxFileSizeKb else below.maxFileSizeKb
  excludePatterns := appendNew below.excludePatterns above.excludePatterns

end ExtractionConfig

namespace Override

def merge (below above : Override) : Override where
  enabled := above.enabled.or below.enabled
  likelihood := above.likelihood.or below.likelihood
  minComplexity := above.minComplexity.or below.minComplexity
  maxComplexity := above.maxComplexity.or below.maxComplexity
  attempts := above.attempts.or below.attempts

end Override

namespace Table

variable {α : Type}

/-- Lays a table over another; entries with the same key are joined by `f`. -/
def mergeWith (f : α → α → α) (below above : Table α) : Table α :=
  above.entries.foldl (fun t e =>
    t.insert e.1 (match t.get? e.1 with
      | some v => f v e.2
      | none => e.2)) below

end Table

namespace MutationConfig

def merge (below above : MutationConfig) : MutationConfig where
  seed := if above.seed ≠ 42 then above.seed else below.seed
  likelihood := above.likelihood.or below.likelihood
  maxMutants := if above.maxMutants ≠ 0 then above.maxMutants else below.maxMutants
  modifiers := below.modifiers.mergeWith Override.merge above.modifiers

end MutationConfig

namespace LanguagesConfig

def merge (below above : LanguagesConfig) : LanguagesConfig where
  disabled := appendNew below.disabled above.disabled
  extensions := below.extensions.mergeWith (fun _ v => v) above.extensions

end LanguagesConfig

namespace LoggingConfig

def merge (below above : LoggingConfig) : LoggingConfig where
  level := if above.level ≠ "info" then above.level else below.level

end LoggingConfig

namespace Config

def merge (below above : Config) : Config where
  extraction := below.extraction.merge above.extraction
  mutation := below.mutation.merge above.mutation
  languages := below.languages.merge above.languages
  logging := below.logging.merge above.logging

end Config
end Mutagen
