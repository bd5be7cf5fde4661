import Mutagen.Dialect.Basic

/-!
# C and C++

The name of a function lies at the end of a chain of declarators. C++ takes over
the C dialect and adds classes, loops over ranges and exceptions to it.
-/
namespace Mutagen

mutual

/-- The node of one of `leaves` at the end of a chain of declarators. -/
def Node.declared? (leaves : List String) : Node → Option Node
  | .mk l cs => if leaves.contains l.kind then some (.mk l cs) else Node.declaredIn? leaves cs

/-- The same among children, through the first one that is a declarator. -/
def Node.declaredIn? (leaves : List String) : List Node → Option Node
  | [] => none
  | c :: cs =>
    if c.label.field == some "declarator" then c.declared? leaves else Node.declaredIn? leaves cs

end

namespace Dialect

def cGrammar : Grammar where
  ifKinds := ["if_statement"]
  consequenceField := "consequence"
  elseKinds := ["else_clause"]
  elifKinds := []
  inlineBranchKinds := []
  loopKinds := ["for_statement", "while_statement", "do_statement"]
  assignmentKinds := ["assignment_expression", "declaration"]
  wrapperKinds := []
  binaryKinds := ["binary_expression"]
  parenKinds := ["parenthesized_expression"]
  numberKinds := ["number_literal"]
  statementWrapperKinds := ["expression_statement"]
  blockKinds := ["compound_statement"]
  statementListKinds := []
  statementKinds := []
  commentKinds := ["comment"]
  methodKinds := []
  baseListKinds := []
  baseContainerKinds := []
  baseInnerListKinds := []
  callKinds := ["call_expression"]
  selfPrefixes := []
  nullLiteral := "NULL"
  emptyBlockFiller := none
  operators := .cLike

def cppGrammar : Grammar :=
  { cGrammar with
    loopKinds := ["for_statement", "for_range_loop", "while_statement", "do_statement"]
    wrapperKinds := ["try_statement"]
    methodKinds := ["function_definition"]
    baseListKinds := ["base_class_clause"]
    selfPrefixes := ["this->"]
    nullLiteral := "nullptr" }

def declaratorLeaves : List String :=
  ["identifier", "field_identifier", "qualified_identifier", "destructor_name", "operator_name",
    "template_function"]

def declaratorName (s : Site) (source : Text) : Text :=
  match Node.declaredIn? declaratorLeaves s.node.children with
  | some leaf => leaf.label.span.text source
  | none => []

def cppName (s : Site) (source : Text) : Text :=
  match s.kind with
  | "class_specifier" | "struct_specifier" => plainName s source
  | _ => declaratorName s source

/-- A class ends in a semicolon. -/
def cppStub (_ : Site) (kind : EntityKind) (signature : Text) : Text :=
  braceStub " " (if kind = .classLike then ";" else "") kind signature

def c : Dialect where
  language := .c
  grammar := cGrammar
  entityKinds := [("function_definition", .callable)]
  boundFunction? := noBoundFunction
  bodyKinds := []
  name := declaratorName
  collapsesSignature := true
  stub := plainStub
  branchKinds := ["if_statement"]
  hasElse := hasAlternative
  marks := [
    ⟨["for_statement", "while_statement", "do_statement"], [.hasLoop]⟩,
    ⟨["switch_statement"], [.hasSwitch]⟩,
    ⟨["assignment_expression", "init_declarator"], [.hasAssignment]⟩,
    ⟨["call_expression"], [.hasFunctionCall]⟩,
    ⟨["return_statement"], [.hasReturn]⟩,
    ⟨["preproc_include"], [.hasImport]⟩,
    ⟨["subscript_expression"], [.hasListIndexing]⟩,
    ⟨["unary_expression", "update_expression", "pointer_expression"], [.hasUnaryOp]⟩,
    ⟨["conditional_expression"], [.hasTernary]⟩]
  nameMarks := []
  marksTokens := true
  decisionKinds := ["if_statement", "for_statement", "while_statement", "do_statement",
    "case_statement", "conditional_expression"]
  decisionsUnder := []
  operatorsDecide := true
  decoration := .nowhere

def cpp : Dialect :=
  { c with
    language := .cpp
    grammar := cppGrammar
    entityKinds := c.entityKinds ++
      [("class_specifier", .classLike), ("struct_specifier", .classLike)]
    name := cppName
    stub := cppStub
    marks := c.marks ++ [
      ⟨["for_range_loop"], [.hasLoop]⟩,
      ⟨["try_statement"], [.hasException, .hasWrapper]⟩,
      ⟨["throw_statement"], [.hasException]⟩,
      ⟨["lambda_expression"], [.hasLambda]⟩,
      ⟨["new_expression"], [.hasFunctionCall]⟩,
      ⟨["using_declaration"], [.hasImport]⟩,
      ⟨["attribute_declaration"], [.hasDecorator]⟩]
    decisionKinds := c.decisionKinds ++ ["for_range_loop", "catch_clause"] }

end Dialect
end Mutagen
