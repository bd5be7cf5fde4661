import Mutagen.Dialect.Basic

/-! Python: `def` functions and `class` definitions, with signatures kept as written. -/
namespace Mutagen
namespace Dialect

def pythonOperators : OperatorTable where
  arithmetic := ["+", "-", "*", "/", "//", "%", "**"]
  bitwise := ["&", "|", "^", "<<", ">>"]
  comparison := ["==", "!=", "<", "<=", ">", ">="]
  logical := [["and", "or"]]
  flips := [("==", "!="), ("<", ">="), (">", "<="), ("and", "or"), ("+", "-"), ("*", "/"),
    ("&", "|"), ("<<", ">>"), ("is", "is not"), ("in", "not in")]

def pythonGrammar : Grammar where
  ifKinds := ["if_statement"]
  consequenceField := "consequence"
  elseKinds := ["else_clause"]
  elifKinds := ["elif_clause"]
  inlineBranchKinds := []
  loopKinds := ["for_statement", "while_statement"]
  assignmentKinds := ["assignment", "augmented_assignment"]
  wrapperKinds := ["try_statement", "with_statement"]
  binaryKinds := ["binary_operator", "comparison_operator", "boolean_operator"]
  parenKinds := ["parenthesized_expression"]
  numberKinds := ["integer", "float"]
  statementWrapperKinds := ["expression_statement"]
  blockKinds := ["block"]
  statementListKinds := []
  statementKinds := []
  commentKinds := ["comment"]
  methodKinds := ["function_definition", "decorated_definition"]
  baseListKinds := ["argument_list"]
  baseContainerKinds := []
  baseInnerListKinds := []
  callKinds := ["call"]
  selfPrefixes := ["self."]
  nullLiteral := "None"
  emptyBlockFiller := some "pass"
  operators := pythonOperators

/-- An indented body of a reminder and `pass`. -/
def pythonStub (_ : Site) (kind : EntityKind) (signature : Text) : Text :=
  signature ++ (":\n    # " ++ kind.reminder ++ "\n    pass").toList

def python : Dialect where
  language := .python
  grammar := pythonGrammar
  entityKinds := [("function_definition", .callable), ("class_definition", .classLike)]
  boundFunction? := noBoundFunction
  bodyKinds := []
  name := plainName
  collapsesSignature := false
  stub := pythonStub
  branchKinds := ["if_statement"]
  hasElse := fun s => s.hasChildOfKind "else_clause"
  marks := [
    ⟨["for_statement", "while_statement"], [.hasLoop]⟩,
    ⟨["match_statement"], [.hasSwitch]⟩,
    ⟨["try_statement"], [.hasException, .hasWrapper]⟩,
    ⟨["raise_statement"], [.hasException]⟩,
    ⟨["with_statement"], [.hasWrapper]⟩,
    ⟨["assignment", "augmented_assignment"], [.hasAssignment]⟩,
    ⟨["call"], [.hasFunctionCall]⟩,
    ⟨["return_statement"], [.hasReturn]⟩,
    ⟨["import_statement", "import_from_statement"], [.hasImport]⟩,
    ⟨["subscript"], [.hasListIndexing]⟩,
    ⟨["list_comprehension", "dictionary_comprehension", "set_comprehension",
      "generator_expression"], [.hasListComprehension]⟩,
    ⟨["lambda"], [.hasLambda]⟩,
    ⟨["decorator"], [.hasDecorator]⟩,
    ⟨["unary_operator", "not_operator"], [.hasUnaryOp]⟩,
    ⟨["conditional_expression"], [.hasTernary]⟩]
  nameMarks := [⟨"call", "function", ["__import__", "importlib.import_module"], .hasImport⟩]
  marksTokens := true
  decisionKinds := ["if_statement", "elif_clause", "for_statement", "while_statement",
    "except_clause", "case_clause", "boolean_operator", "comparison_operator",
    "conditional_expression", "for_in_clause", "if_clause"]
  decisionsUnder := []
  operatorsDecide := false
  decoration := .around "decorated_definition"

end Dialect
end Mutagen
