import Mutagen.Dialect.Basic

/-! PHP: functions, methods, classes, and closures assigned to a variable. -/
namespace Mutagen
namespace Dialect

def phpOperators : OperatorTable where
  arithmetic := ["+", "-", "*", "/", "%", "**"]
  bitwise := ["&", "|", "^", "<<", ">>"]
  comparison := ["==", "!=", "===", "!==", "<", "<=", ">", ">="]
  logical := [["&&", "||"], ["and", "or"]]
  flips := [("==", "!="), ("===", "!=="), ("<", ">="), (">", "<="), ("&&", "||"), ("and", "or"),
    ("+", "-"), ("*", "/"), ("&", "|"), ("<<", ">>")]

def phpGrammar : Grammar where
  ifKinds := ["if_statement"]
  consequenceField := "body"
  elseKinds := ["else_clause"]
  elifKinds := ["else_if_clause"]
  inlineBranchKinds := []
  loopKinds := ["for_statement", "foreach_statement", "while_statement", "do_statement"]
  assignmentKinds := ["assignment_expression", "augmented_assignment_expression"]
  wrapperKinds := ["try_statement"]
  binaryKinds := ["binary_expression"]
  parenKinds := ["parenthesized_expression"]
  numberKinds := ["integer", "float"]
  statementWrapperKinds := ["expression_statement"]
  blockKinds := ["compound_statement"]
  statementListKinds := []
  statementKinds := []
  commentKinds := ["comment"]
  methodKinds := ["method_declaration"]
  baseListKinds := ["base_clause", "class_interface_clause"]
  baseContainerKinds := []
  baseInnerListKinds := []
  callKinds := ["member_call_expression"]
  selfPrefixes := ["$this->"]
  nullLiteral := "null"
  emptyBlockFiller := none
  operators := phpOperators

def closureKinds : List String := ["anonymous_function", "anonymous_function_creation_expression"]

/-- The closure that a statement assigns. -/
def phpClosure? (s : Site) : Option Site := do
  if s.kind == "expression_statement" then
    let assignment ← s.childOfKinds? ["assignment_expression"]
    let value ← assignment.childByField? "right"
    if closureKinds.contains value.kind then pure value else none
  else none

def phpName (s : Site) (source : Text) : Text :=
  if s.kind == "expression_statement" then
    match s.childOfKinds? ["assignment_expression"] with
    | some assignment => assignment.fieldText "left" source
    | none => []
  else plainName s source

/-- An assigned closure ends in a semicolon. -/
def phpStub (s : Site) (kind : EntityKind) (signature : Text) : Text :=
  braceStub " " (if (phpClosure? s).isSome then ";" else "") kind signature

def php : Dialect where
  language := .php
  grammar := phpGrammar
  entityKinds := [("function_definition", .callable), ("method_declaration", .callable),
    ("class_declaration", .classLike)]
  boundFunction? := phpClosure?
  bodyKinds := []
  name := phpName
  collapsesSignature := true
  stub := phpStub
  branchKinds := ["if_statement"]
  hasElse := hasAlternative
  marks := [
    ⟨["for_statement", "foreach_statement", "while_statement", "do_statement"], [.hasLoop]⟩,
    ⟨["switch_statement", "match_expression"], [.hasSwitch]⟩,
    ⟨["try_statement"], [.hasException, .hasWrapper]⟩,
    ⟨["throw_expression", "throw_statement"], [.hasException]⟩,
    ⟨["assignment_expression", "augmented_assignment_expression"], [.hasAssignment]⟩,
    ⟨["function_call_expression", "member_call_expression", "scoped_call_expression",
      "object_creation_expression"], [.hasFunctionCall]⟩,
    ⟨["return_statement"], [.hasReturn]⟩,
    ⟨["namespace_use_declaration", "include_expression", "include_once_expression",
      "require_expression", "require_once_expression"], [.hasImport]⟩,
    ⟨["subscript_expression"], [.hasListIndexing]⟩,
    ⟨["anonymous_function", "anonymous_function_creation_expression", "arrow_function"],
      [.hasLambda]⟩,
    ⟨["attribute_list"], [.hasDecorator]⟩,
    ⟨["unary_op_expression", "update_expression"], [.hasUnaryOp]⟩,
    ⟨["conditional_expression"], [.hasTernary]⟩]
  nameMarks := []
  marksTokens := true
  decisionKinds := ["if_statement", "else_if_clause", "for_statement", "foreach_statement",
    "while_statement", "do_statement", "case_statement", "catch_clause",
    "conditional_expression", "match_conditional_expression"]
  decisionsUnder := []
  operatorsDecide := true
  decoration := .attached ["attribute_list"]

end Dialect
end Mutagen
