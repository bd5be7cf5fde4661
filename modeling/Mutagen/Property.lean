import Mutagen.Text.Case

/-!
# Structural properties

A property is a fact about a piece of code that can be read off its syntax tree.
Sets of properties are kept as lists in declaration order.
-/
namespace Mutagen

inductive Property where
  | isFunction
  | isClass
  | hasIf
  | hasIfElse
  | hasLoop
  | hasSwitch
  | hasException
  | hasAssignment
  | hasFunctionCall
  | hasReturn
  | hasImport
  | hasListIndexing
  | hasListComprehension
  | hasLambda
  | hasDecorator
  | hasWrapper
  | hasParent
  | hasArithmetic
  | hasOffByOne
  | hasBinaryOp
  | hasBoolOp
  | hasUnaryOp
  | hasTernary
  deriving DecidableEq, Repr

namespace Property

/-- Every property, in declaration order. -/
def all : List Property :=
  [isFunction, isClass, hasIf, hasIfElse, hasLoop, hasSwitch, hasException, hasAssignment,
    hasFunctionCall, hasReturn, hasImport, hasListIndexing, hasListComprehension, hasLambda,
    hasDecorator, hasWrapper, hasParent, hasArithmetic, hasOffByOne, hasBinaryOp, hasBoolOp,
    hasUnaryOp, hasTernary]

@[simp] theorem mem_all (p : Property) : p ∈ all := by cases p <;> decide

def name : Property → String
  | isFunction => "IS_FUNCTION"
  | isClass => "IS_CLASS"
  | hasIf => "HAS_IF"
  | hasIfElse => "HAS_IF_ELSE"
  | hasLoop => "HAS_LOOP"
  | hasSwitch => "HAS_SWITCH"
  | hasException => "HAS_EXCEPTION"
  | hasAssignment => "HAS_ASSIGNMENT"
  | hasFunctionCall => "HAS_FUNCTION_CALL"
  | hasReturn => "HAS_RETURN"
  | hasImport => "HAS_IMPORT"
  | hasListIndexing => "HAS_LIST_INDEXING"
  | hasListComprehension => "HAS_LIST_COMPREHENSION"
  | hasLambda => "HAS_LAMBDA"
  | hasDecorator => "HAS_DECORATOR"
  | hasWrapper => "HAS_WRAPPER"
  | hasParent => "HAS_PARENT"
  | hasArithmetic => "HAS_ARITHMETIC"
  | hasOffByOne => "HAS_OFF_BY_ONE"
  | hasBinaryOp => "HAS_BINARY_OP"
  | hasBoolOp => "HAS_BOOL_OP"
  | hasUnaryOp => "HAS_UNARY_OP"
  | hasTernary => "HAS_TERNARY"

/-- The property of a name, in any spelling of its ASCII letters. -/
def ofName? (s : String) : Option Property := all.find? fun p => sameAscii p.name s

/-- The properties of `ps`, each once, in declaration order. -/
def normalize (ps : List Property) : List Property := all.filter fun p => ps.contains p

@[simp] theorem mem_normalize {p : Property} {ps : List Property} : p ∈ normalize ps ↔ p ∈ ps := by
  simp [normalize]

/-- The message for a name that no property has. -/
def unknownMessage (s : String) : String := "unknown code property: " ++ s

end Property
end Mutagen
