import Mutagen.Dialect.Basic

/-! Java: methods and constructors, and classes, enums and records. -/
namespace Mutagen
namespace Dialect

def javaGrammar : Grammar where
  ifKinds := ["if_statement"]
  consequenceField := "consequence"
  elseKinds := []
  elifKinds := []
  inlineBranchKinds := []
  loopKinds := ["for_statement", "enhanced_for_statement", "while_statement", "do_statement"]
  assignmentKinds := ["assignment_expression", "local_variable_declaration"]
  wrapperKinds := ["try_statement", "try_with_resources_statement", "synchronized_statement"]
  binaryKinds := ["binary_expression"]
  parenKinds := ["parenthesized_expression"]
  numberKinds := ["decimal_integer_literal", "decimal_floating_point_literal"]
  statementWrapperKinds := ["expression_statement"]
  blockKinds := ["block", "constructor_body"]
  statementListKinds := []
  statementKinds := []
  commentKinds := ["line_comment", "block_comment"]
  methodKinds := ["method_declaration"]
  baseListKinds := ["superclass", "super_interfaces"]
  baseContainerKinds := []
  baseInnerListKinds := ["type_list"]
  callKinds := ["method_invocation"]
  selfPrefixes := ["this."]
  nullLiteral := "null"
  emptyBlockFiller := none
  operators := { OperatorTable.cLike with bitwise := ["&", "|", "^", "<<", ">>", ">>>"] }

def java : Dialect where
  language := .java
  grammar := javaGrammar
  entityKinds := [("method_declaration", .callable), ("constructor_declaration", .callable),
    ("class_declaration", .classLike), ("enum_declaration", .classLike),
    ("record_declaration", .classLike)]
  boundFunction? := noBoundFunction
  bodyKinds := []
  name := plainName
  collapsesSignature := true
  stub := plainStub
  branchKinds := ["if_statement"]
  hasElse := hasAlternative
  marks := [
    ⟨["for_statement", "enhanced_for_statement", "while_statement", "do_statement"], [.hasLoop]⟩,
    ⟨["switch_expression", "switch_statement"], [.hasSwitch]⟩,
    ⟨["try_statement", "try_with_resources_statement"], [.hasException, .hasWrapper]⟩,
    ⟨["throw_statement"], [.hasException]⟩,
    ⟨["synchronized_statement"], [.hasWrapper]⟩,
    ⟨["assignment_expression", "variable_declarator"], [.hasAssignment]⟩,
    ⟨["method_invocation", "object_creation_expression"], [.hasFunctionCall]⟩,
    ⟨["return_statement"], [.hasReturn]⟩,
    ⟨["import_declaration"], [.hasImport]⟩,
    ⟨["array_access"], [.hasListIndexing]⟩,
    ⟨["lambda_expression", "method_reference"], [.hasLambda]⟩,
    ⟨["annotation", "marker_annotation"], [.hasDecorator]⟩,
    ⟨["unary_expression", "update_expression"], [.hasUnaryOp]⟩,
    ⟨["ternary_expression"], [.hasTernary]⟩]
  nameMarks := []
  marksTokens := true
  decisionKinds := ["if_statement", "for_statement", "enhanced_for_statement", "while_statement",
    "do_statement", "switch_block_statement_group", "switch_rule", "catch_clause",
    "ternary_expression"]
  decisionsUnder := []
  operatorsDecide := true
  decoration := .within "modifiers" ["annotation", "marker_annotation"]

end Dialect
end Mutagen
