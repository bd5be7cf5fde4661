import Mutagen.Dialect.Basic

/-! C#: methods, constructors, operators and local functions, also with `=>` bodies, and classes,
structs and records. -/
namespace Mutagen
namespace Dialect

def csharpGrammar : Grammar where
  ifKinds := ["if_statement"]
  consequenceField := "consequence"
  elseKinds := []
  elifKinds := []
  inlineBranchKinds := []
  loopKinds := ["for_statement", "foreach_statement", "while_statement", "do_statement"]
  assignmentKinds := ["assignment_expression", "local_declaration_statement"]
  wrapperKinds := ["try_statement", "using_statement", "lock_statement"]
  binaryKinds := ["binary_expression"]
  parenKinds := ["parenthesized_expression"]
  numberKinds := ["integer_literal", "real_literal"]
  statementWrapperKinds := ["expression_statement"]
  blockKinds := ["block"]
  statementListKinds := []
  statementKinds := []
  commentKinds := ["comment"]
  methodKinds := ["method_declaration"]
  baseListKinds := ["base_list"]
  baseContainerKinds := []
  baseInnerListKinds := []
  callKinds := ["invocation_expression"]
  selfPrefixes := ["this."]
  nullLiteral := "null"
  emptyBlockFiller := none
  operators := .cLike

def csharp : Dialect where
  language := .csharp
  grammar := csharpGrammar
  entityKinds := [("method_declaration", .callable), ("constructor_declaration", .callable),
    ("destructor_declaration", .callable), ("operator_declaration", .callable),
    ("local_function_statement", .callable), ("class_declaration", .classLike),
    ("struct_declaration", .classLike), ("record_declaration", .classLike)]
  boundFunction? := noBoundFunction
  bodyKinds := ["arrow_expression_clause"]
  name := plainName
  collapsesSignature := true
  stub := plainStub
  branchKinds := ["if_statement"]
  hasElse := hasAlternative
  marks := [
    ⟨["for_statement", "foreach_statement", "while_statement", "do_statement"], [.hasLoop]⟩,
    ⟨["switch_statement", "switch_expression"], [.hasSwitch]⟩,
    ⟨["try_statement"], [.hasException, .hasWrapper]⟩,
    ⟨["throw_statement", "throw_expression"], [.hasException]⟩,
    ⟨["using_statement", "lock_statement"], [.hasWrapper]⟩,
    ⟨["assignment_expression", "variable_declarator"], [.hasAssignment]⟩,
    ⟨["invocation_expression", "object_creation_expression"], [.hasFunctionCall]⟩,
    ⟨["return_statement"], [.hasReturn]⟩,
    ⟨["using_directive"], [.hasImport]⟩,
    ⟨["element_access_expression"], [.hasListIndexing]⟩,
    ⟨["query_expression"], [.hasListComprehension]⟩,
    ⟨["lambda_expression", "anonymous_method_expression"], [.hasLambda]⟩,
    ⟨["attribute_list"], [.hasDecorator]⟩,
    ⟨["prefix_unary_expression", "postfix_unary_expression"], [.hasUnaryOp]⟩,
    ⟨["conditional_expression"], [.hasTernary]⟩]
  nameMarks := []
  marksTokens := true
  decisionKinds := ["if_statement", "for_statement", "foreach_statement", "while_statement",
    "do_statement", "switch_section", "switch_expression_arm", "catch_clause",
    "conditional_expression"]
  decisionsUnder := []
  operatorsDecide := true
  decoration := .attached ["attribute_list"]

end Dialect
end Mutagen
