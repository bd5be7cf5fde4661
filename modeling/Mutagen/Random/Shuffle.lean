import Mutagen.Random.Generator

/-!
# Shuffling

The shuffle exchanges each position in turn with a drawn one at or before it.
Several indices are taken from one draw: a number below a product of consecutive
counts is divided by each of them, and the remainders are the indices.
-/
namespace Mutagen

/-- Exchanges two items. -/
def swapAt {α : Type} (l : List α) (i j : Nat) : List α :=
  match l[i]?, l[j]? with
  | some a, some b => (l.set i b).set j a
  | _, _ => l

/-- What is left of a draw: the undivided rest, and the number of indices still in it. -/
structure Chunk where
  rest : Nat
  left : Nat
  deriving DecidableEq, Repr

namespace Chunk

def empty : Chunk := ⟨0, 0⟩

/-- Multiplies `product` by the counts from `count` on while it stays below `2 ^ 32`. -/
def extend : Nat → Nat → Nat → Nat × Nat
  | 0, product, count => (product, count)
  | fuel + 1, product, count =>
    if product * count < UInt32.size then extend fuel (product * count) (count + 1)
    else (product, count)

/-- A draw for the counts from `k` on, as many as fit. -/
def draw (k : Nat) : Draw Chunk := do
  let (product, stop) := extend 32 k (k + 1)
  let rest ← Draw.below product
  pure ⟨rest, stop - k⟩

/-- An index below `k`; the last one of a draw is all that is left of it. -/
def take (k : Nat) (c : Chunk) : Nat × Chunk :=
  if c.left ≤ 1 then (c.rest, empty) else (c.rest % k, ⟨c.rest / k, c.left - 1⟩)

end Chunk

/-- Exchanges the positions from `i` on, `count` of them, with drawn ones. -/
def shuffleFrom {α : Type} : Nat → Nat → Chunk → List α → Draw (List α)
  | 0, _, _, l => pure l
  | count + 1, i, c, l => do
    let c ← if c.left = 0 then Chunk.draw (i + 1) else pure c
    let (j, c) := c.take (i + 1)
    shuffleFrom count (i + 1) c (swapAt l i j)

def shuffle {α : Type} (l : List α) : Draw (List α) := shuffleFrom (l.length - 1) 1 .empty l

/-- A random order of the numbers below `n` that is not the usual one: if it comes out so, the
first two are exchanged. -/
def shuffledOrder (n : Nat) : Draw (List Nat) := do
  let order ← shuffle (List.range n)
  pure (if order = List.range n then swapAt order 0 1 else order)

end Mutagen
