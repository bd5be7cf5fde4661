/-!
# Operator tables

The binary operators of a language fall into classes whose members can stand for
each other; some have a fixed opposite, and the four ordering comparisons have a
converse for exchanged operands.
-/
namespace Mutagen

inductive OperatorCategory where
  | arithmetic
  | bitwise
  | comparison
  | logical
  deriving DecidableEq, Repr

def OperatorCategory.name : OperatorCategory → String
  | arithmetic => "arithmetic"
  | bitwise => "bitwise"
  | comparison => "comparison"
  | logical => "logical"

structure OperatorTable where
  arithmetic : List String
  bitwise : List String
  comparison : List String
  /-- Families of logical operators, each a class of its own. -/
  logical : List (List String)
  /-- Pairs of opposites. -/
  flips : List (String × String)
  deriving DecidableEq, Repr

namespace OperatorTable

def category? (t : OperatorTable) (op : String) : Option OperatorCategory :=
  if t.arithmetic.contains op then some .arithmetic
  else if t.bitwise.contains op then some .bitwise
  else if t.comparison.contains op then some .comparison
  else if t.logical.any (·.contains op) then some .logical
  else none

/-- The operators that can stand for `op`, itself included. -/
def classOf? (t : OperatorTable) (op : String) : Option (List String) :=
  if t.arithmetic.contains op then some t.arithmetic
  else if t.bitwise.contains op then some t.bitwise
  else if t.comparison.contains op then some t.comparison
  else t.logical.find? (·.contains op)

/-- The opposite of an operator. -/
def flip? (t : OperatorTable) (op : String) : Option String :=
  t.flips.findSome? fun (a, b) =>
    if a == op then some b else if b == op then some a else none

end OperatorTable

/-- The comparison that holds of exchanged operands. -/
def converse? : String → Option String
  | "<" => some ">"
  | "<=" => some ">="
  | ">" => some "<"
  | ">=" => some "<="
  | _ => none

/-- Whether an operator compares by order. -/
def isOrdering (op : String) : Bool := (converse? op).isSome

namespace OperatorTable

/-- The opposites common to languages with braces. -/
def braceFlips : List (String × String) :=
  [("==", "!="), ("<", ">="), (">", "<="), ("&&", "||"), ("+", "-"), ("*", "/"), ("&", "|"),
    ("<<", ">>")]

/-- The operators of C, which several languages share. -/
def cLike : OperatorTable where
  arithmetic := ["+", "-", "*", "/", "%"]
  bitwise := ["&", "|", "^", "<<", ">>"]
  comparison := ["==", "!=", "<", "<=", ">", ">="]
  logical := [["&&", "||"]]
  flips := braceFlips

end OperatorTable
end Mutagen
