import Mutagen.Language.Operators
import Mutagen.Tree.Basic

/-!
# Grammar tables

A grammar table says which node kinds of a language play which structural role,
so that mutations are written once for all languages.
-/
namespace Mutagen

structure Grammar where
  ifKinds : List String
  /-- Field of an if that holds its first branch. -/
  consequenceField : String
  /-- Nodes around an else branch. -/
  elseKinds : List String
  /-- Continuations of an if by a further condition. -/
  elifKinds : List String
  /-- Branches that start with a keyword, so that only their named children are the body. -/
  inlineBranchKinds : List String
  loopKinds : List String
  assignmentKinds : List String
  wrapperKinds : List String
  binaryKinds : List String
  parenKinds : List String
  numberKinds : List String
  /-- Statements around an expression. -/
  statementWrapperKinds : List String
  blockKinds : List String
  /-- Nodes that only hold the statements of a block. -/
  statementListKinds : List String
  /-- The statements of a block that may end in a value; empty when all children are statements. -/
  statementKinds : List String
  commentKinds : List String
  methodKinds : List String
  baseListKinds : List String
  /-- Nodes between a class and its base lists. -/
  baseContainerKinds : List String
  /-- Nodes inside a base list that hold its entries. -/
  baseInnerListKinds : List String
  callKinds : List String
  /-- How a call of a method of the same object begins. -/
  selfPrefixes : List String
  /-- What stands for a call that has lost its method. -/
  nullLiteral : String
  /-- What keeps a block from being empty, where an empty block is a mistake. -/
  emptyBlockFiller : Option String
  operators : OperatorTable
  deriving DecidableEq, Repr

namespace Grammar

def isIf (g : Grammar) (kind : String) : Bool := g.ifKinds.contains kind
def isElif (g : Grammar) (kind : String) : Bool := g.elifKinds.contains kind
def isElse (g : Grammar) (kind : String) : Bool := g.elseKinds.contains kind
def isBinary (g : Grammar) (kind : String) : Bool := g.binaryKinds.contains kind
def isComment (g : Grammar) (kind : String) : Bool := g.commentKinds.contains kind
def hasWrappers (g : Grammar) : Bool := !g.wrapperKinds.isEmpty

/-- The base lists of a class that name at least one base. -/
def baseLists (g : Grammar) (s : Site) : List Site :=
  (s.children.flatMap fun c =>
    if g.baseListKinds.contains c.kind then [c]
    else if g.baseContainerKinds.contains c.kind then
      c.children.filter fun d => g.baseListKinds.contains d.kind
    else []).filter fun list => !list.namedChildren.isEmpty

/-- The node that holds the entries of a base list. -/
def baseEntries (g : Grammar) (list : Site) : Site :=
  (list.childOfKinds? g.baseInnerListKinds).getD list

end Grammar
end Mutagen
