import Mutagen.Tree.Basic

/-!
# Trees as rows

A tree is written as the list of its nodes in document order, each with its
depth; the parent of a row is the nearest earlier row one level higher.
-/
namespace Mutagen

structure Row where
  depth : Nat
  label : Label
  deriving DecidableEq, Repr

/-- Puts a node above the trees that follow it and lie deeper. -/
def Row.addTo (r : Row) (forest : List (Nat × Node)) : List (Nat × Node) :=
  let below := forest.takeWhile fun t => decide (r.depth < t.1)
  (r.depth, .mk r.label (below.map (·.2))) :: forest.drop below.length

/-- The trees that rows describe, with the depths of their roots. -/
def Row.forest (rows : List Row) : List (Nat × Node) := rows.foldr Row.addTo []

/-- The tree that rows describe; nothing unless there is exactly one. -/
def Node.ofRows? (rows : List Row) : Option Node :=
  match Row.forest rows with
  | [(_, root)] => some root
  | _ => none

end Mutagen
