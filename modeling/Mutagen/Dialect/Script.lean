import Mutagen.Dialect.Basic

/-!
# JavaScript and TypeScript

Besides declarations, a `const`, `let` or `var` with one declarator, or an
assignment, whose value is a function literal is a function named after its
target. TypeScript takes over the JavaScript dialect and adds to it.
-/
namespace Mutagen
namespace Dialect

def scriptOperators : OperatorTable where
  arithmetic := ["+", "-", "*", "/", "%", "**"]
  bitwise := ["&", "|", "^", "<<", ">>", ">>>"]
  comparison := ["==", "!=", "===", "!==", "<", "<=", ">", ">="]
  logical := [["&&", "||"]]
  flips := [("==", "!="), ("===", "!=="), ("<", ">="), (">", "<="), ("&&", "||"), ("+", "-"),
    ("*", "/"), ("&", "|"), ("<<", ">>")]

def javascriptGrammar : Grammar where
  ifKinds := ["if_statement"]
  consequenceField := "consequence"
  elseKinds := ["else_clause"]
  elifKinds := []
  inlineBranchKinds := []
  loopKinds := ["for_statement", "for_in_statement", "while_statement", "do_statement"]
  assignmentKinds := ["assignment_expression", "augmented_assignment_expression",
    "lexical_declaration", "variable_declaration"]
  wrapperKinds := ["try_statement"]
  binaryKinds := ["binary_expression"]
  parenKinds := ["parenthesized_expression"]
  numberKinds := ["number"]
  statementWrapperKinds := ["expression_statement"]
  blockKinds := ["statement_block"]
  statementListKinds := []
  statementKinds := []
  commentKinds := ["comment"]
  methodKinds := ["method_definition"]
  baseListKinds := ["class_heritage"]
  baseContainerKinds := []
  baseInnerListKinds := []
  callKinds := ["call_expression"]
  selfPrefixes := ["this."]
  nullLiteral := "null"
  emptyBlockFiller := none
  operators := scriptOperators

def typescriptGrammar : Grammar :=
  { javascriptGrammar with
    baseListKinds := ["extends_clause", "implements_clause"]
    baseContainerKinds := ["class_heritage"] }

def functionLiterals : List String :=
  ["arrow_function", "function_expression", "function", "generator_function"]

/-- The function literal that a declaration or an assignment gives a name to. -/
def scriptFunction? (s : Site) : Option Site := do
  let value ← match s.kind with
    | "lexical_declaration" | "variable_declaration" =>
      match s.namedChildren.filter (·.kind == "variable_declarator") with
      | [declarator] => declarator.childByField? "value"
      | _ => none
    | "expression_statement" =>
      (s.childOfKinds? ["assignment_expression"]).bind (·.childByField? "right")
    | _ => none
  if functionLiterals.contains value.kind then pure value else none

def scriptName (s : Site) (source : Text) : Text :=
  match s.kind with
  | "lexical_declaration" | "variable_declaration" =>
    match s.childOfKinds? ["variable_declarator"] with
    | some declarator => declarator.fieldText "name" source
    | none => []
  | "expression_statement" =>
    match s.childOfKinds? ["assignment_expression"] with
    | some assignment => assignment.fieldText "left" source
    | none => []
  | _ => plainName s source

/-- An arrow function keeps its arrow. -/
def scriptStub (s : Site) (kind : EntityKind) (signature : Text) : Text :=
  let arrow := (scriptFunction? s).any (·.kind == "arrow_function")
  braceStub (if arrow then " => " else " ") "" kind signature

def javascript : Dialect where
  language := .javascript
  grammar := javascriptGrammar
  entityKinds := [("function_declaration", .callable),
    ("generator_function_declaration", .callable), ("method_definition", .callable),
    ("class_declaration", .classLike)]
  boundFunction? := scriptFunction?
  bodyKinds := []
  name := scriptName
  collapsesSignature := true
  stub := scriptStub
  branchKinds := ["if_statement"]
  hasElse := hasAlternative
  marks := [
    ⟨["for_statement", "for_in_statement", "while_statement", "do_statement"], [.hasLoop]⟩,
    ⟨["switch_statement"], [.hasSwitch]⟩,
    ⟨["try_statement"], [.hasException, .hasWrapper]⟩,
    ⟨["throw_statement"], [.hasException]⟩,
    ⟨["assignment_expression", "augmented_assignment_expression", "variable_declarator"],
      [.hasAssignment]⟩,
    ⟨["call_expression", "new_expression"], [.hasFunctionCall]⟩,
    ⟨["return_statement"], [.hasReturn]⟩,
    ⟨["import_statement"], [.hasImport]⟩,
    ⟨["subscript_expression"], [.hasListIndexing]⟩,
    ⟨["arrow_function", "function_expression", "function"], [.hasLambda]⟩,
    ⟨["decorator"], [.hasDecorator]⟩,
    ⟨["unary_expression", "update_expression"], [.hasUnaryOp]⟩,
    ⟨["ternary_expression"], [.hasTernary]⟩]
  nameMarks := [⟨"call_expression", "function", ["require", "import"], .hasImport⟩]
  marksTokens := true
  decisionKinds := ["if_statement", "for_statement", "for_in_statement", "while_statement",
    "do_statement", "switch_case", "catch_clause", "ternary_expression"]
  decisionsUnder := []
  operatorsDecide := true
  decoration := .attached ["decorator"]

def typescript : Dialect :=
  { javascript with
    language := .typescript
    grammar := typescriptGrammar
    entityKinds := javascript.entityKinds ++ [("abstract_class_declaration", .classLike)]
    marks := javascript.marks ++ [
      ⟨["non_null_expression"], [.hasUnaryOp]⟩,
      ⟨["import_alias", "import_require_clause"], [.hasImport]⟩] }

def tsx : Dialect := { typescript with language := .tsx }

end Dialect
end Mutagen
