import Mutagen.Modifier.Strategy

/-!
# Modifiers

A modifier is a strategy with settings and a generator of its own. Running it
moves the generator and changes nothing else.
-/
namespace Mutagen

/-- A number brought into the range from 0 to 1. -/
def clampLikelihood (x : Float) : Float :=
  if 0.0 ≤ x && x ≤ 1.0 then x else if x < 0.0 then 0.0 else if 1.0 < x then 1.0 else x

structure Modifier where
  strategy : Strategy
  language : Language
  likelihood : Float
  minComplexity : Nat
  maxComplexity : Nat
  attempts : Nat
  generator : Generator

/-- The changed text of an entity and the strategy that made it. -/
structure Mutant where
  code : Text
  strategy : Strategy
  deriving DecidableEq, Repr

namespace Modifier

/-- A strategy with its usual settings. -/
def ofStrategy (s : Strategy) (language : Language) (seed : UInt64) : Modifier where
  strategy := s
  language := language
  likelihood := clampLikelihood s.likelihood
  minComplexity := s.minComplexity
  maxComplexity := s.maxComplexity
  attempts := max s.attempts 1
  generator := .ofSeed seed

def name (m : Modifier) : String := m.strategy.name

def setLikelihood (m : Modifier) (x : Float) : Modifier :=
  { m with likelihood := clampLikelihood x }

def setComplexity (m : Modifier) (low high : Option Nat) : Modifier :=
  { m with minComplexity := low.getD m.minComplexity, maxComplexity := high.getD m.maxComplexity }

def setAttempts (m : Modifier) (n : Nat) : Modifier := { m with attempts := max n 1 }

def reseed (m : Modifier) (seed : UInt64) : Modifier := { m with generator := .ofSeed seed }

/-- Draws once with the likelihood of the modifier. -/
def flip (m : Modifier) : Bool × Modifier :=
  let (b, g) := (Draw.flip m.likelihood).run m.generator
  (b, { m with generator := g })

/-- Whether an entity has what the strategy needs, and a complexity within the bounds. -/
def canChange (m : Modifier) (e : Entity) : Bool :=
  (m.strategy.conditions.all fun p => e.hasTag p) && decide (m.minComplexity ≤ e.complexity) &&
    decide (e.complexity ≤ m.maxComplexity)

/-- Tries to change an entity. -/
def modify (m : Modifier) (e : Entity) : Option Mutant × Modifier :=
  let (code, g) := (m.strategy.run e m.likelihood m.attempts).run m.generator
  (code.map fun c => ⟨c, m.strategy⟩, { m with generator := g })

end Modifier
end Mutagen
