import Mutagen.Registry

/-!
# Mutation of files

Every modifier of a file is tried on every entity of it, entity by entity, and
keeps its generator from one entity to the next. A cap ends the work on an entity
once it has enough mutants.
-/
namespace Mutagen

/-- The outcome of one modifier on an entity that it can change. -/
structure Trial where
  strategy : Strategy
  mutant : Option Mutant
  deriving DecidableEq, Repr

/-- One mutant and the entity that it comes from. -/
structure Record where
  entity : Entity
  mutant : Mutant

namespace Mutation

/-- Whether `kept` mutants are enough; no cap is written as 0. -/
def full (cap kept : Nat) : Bool := decide (0 < cap) && decide (cap ≤ kept)

/-- Tries modifiers on an entity that has `kept` mutants. -/
def tryAll (cap : Nat) (e : Entity) : Nat → List Modifier → List Trial × List Modifier
  | _, [] => ([], [])
  | kept, m :: ms =>
    if full cap kept then ([], m :: ms)
    else if m.canChange e then
      let (mutant, m') := m.modify e
      let (trials, ms') := tryAll cap e (if mutant.isSome then kept + 1 else kept) ms
      (⟨m.strategy, mutant⟩ :: trials, m' :: ms')
    else
      let (trials, ms') := tryAll cap e kept ms
      (trials, m :: ms')

/-- Tries modifiers on entities in turn. -/
def run (cap : Nat) : List Modifier → List Entity → List (Entity × List Trial)
  | _, [] => []
  | ms, e :: es =>
    let (trials, ms') := tryAll cap e 0 ms
    (e, trials) :: run cap ms' es

/-- The mutants among trials. -/
def records (tried : List (Entity × List Trial)) : List Record :=
  tried.flatMap fun (e, trials) => trials.filterMap fun t => t.mutant.map fun w => ⟨e, w⟩

end Mutation

/-- What to do with each file: the modifiers to use (all when none is named), and bounds on
entities and on mutants of an entity. -/
structure MutationJob where
  registry : Registry
  only : List String
  maxEntities : Option Nat
  maxMutants : Nat

namespace MutationJob

/-- The modifiers of a job among those of a file. -/
def select (job : MutationJob) (ms : List Modifier) : List Modifier :=
  if job.only.isEmpty then ms else ms.filter fun m => job.only.contains m.name

/-- The mutants of a file; none when it cannot be read or has no language. -/
def run (job : MutationJob) (parse : Parser) (fs : Files) (path : String) : List Record :=
  match job.registry.extract parse fs path job.maxEntities, job.registry.modifiersForFile path with
  | .ok entities, .ok ms => Mutation.records (Mutation.run job.maxMutants (job.select ms) entities)
  | _, _ => []

end MutationJob
end Mutagen
