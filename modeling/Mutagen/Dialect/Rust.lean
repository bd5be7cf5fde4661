import Mutagen.Dialect.Basic

/-!
# Rust

Every `fn` with a body is a function; inside an `impl` or a trait it is named
`Type::method`. There are no classes.
-/
namespace Mutagen
namespace Dialect

def rustGrammar : Grammar where
  ifKinds := ["if_expression"]
  consequenceField := "consequence"
  elseKinds := ["else_clause"]
  elifKinds := []
  inlineBranchKinds := []
  loopKinds := ["for_expression", "while_expression", "loop_expression"]
  assignmentKinds := ["assignment_expression", "compound_assignment_expr", "let_declaration"]
  wrapperKinds := []
  binaryKinds := ["binary_expression"]
  parenKinds := ["parenthesized_expression"]
  numberKinds := ["integer_literal", "float_literal"]
  statementWrapperKinds := ["expression_statement"]
  blockKinds := ["block"]
  statementListKinds := []
  statementKinds := ["expression_statement", "let_declaration", "empty_statement",
    "attribute_item", "use_declaration", "const_item", "static_item", "function_item",
    "struct_item", "enum_item", "union_item", "impl_item", "trait_item", "type_item", "mod_item",
    "macro_definition", "extern_crate_declaration", "foreign_mod_item"]
  commentKinds := ["line_comment", "block_comment"]
  methodKinds := []
  baseListKinds := []
  baseContainerKinds := []
  baseInnerListKinds := []
  callKinds := ["call_expression"]
  selfPrefixes := ["self."]
  nullLiteral := "None"
  emptyBlockFiller := none
  operators := .cLike

/-- The type that the block around a function is about, without its arguments. -/
def implTarget? (s : Site) (source : Text) : Option Text := do
  let block ← s.ancestorOfKinds? ["impl_item", "trait_item"]
  if block.kind == "trait_item" then
    let name ← block.childByField? "name"
    pure (name.text source)
  else
    let target ← block.childByField? "type"
    if target.kind == "generic_type" then
      pure (((target.childByField? "type").getD target).text source)
    else pure (target.text source)

def rustName (s : Site) (source : Text) : Text :=
  match implTarget? s source with
  | some target => target ++ "::".toList ++ plainName s source
  | none => plainName s source

def rust : Dialect where
  language := .rust
  grammar := rustGrammar
  entityKinds := [("function_item", .callable)]
  boundFunction? := noBoundFunction
  bodyKinds := []
  name := rustName
  collapsesSignature := true
  stub := plainStub
  branchKinds := ["if_expression"]
  hasElse := hasAlternative
  marks := [
    ⟨["for_expression", "while_expression", "loop_expression"], [.hasLoop]⟩,
    ⟨["match_expression"], [.hasSwitch]⟩,
    ⟨["try_expression"], [.hasException]⟩,
    ⟨["macro_invocation"], [.hasFunctionCall]⟩,
    ⟨["assignment_expression", "compound_assignment_expr", "let_declaration"], [.hasAssignment]⟩,
    ⟨["call_expression"], [.hasFunctionCall]⟩,
    ⟨["return_expression"], [.hasReturn]⟩,
    ⟨["use_declaration", "extern_crate_declaration"], [.hasImport]⟩,
    ⟨["index_expression"], [.hasListIndexing]⟩,
    ⟨["closure_expression"], [.hasLambda]⟩,
    ⟨["attribute_item"], [.hasDecorator]⟩,
    ⟨["unary_expression"], [.hasUnaryOp]⟩,
    ⟨["range_expression"], [.hasOffByOne]⟩]
  nameMarks := [⟨"macro_invocation", "macro", ["panic", "unreachable", "todo", "unimplemented"],
    .hasException⟩]
  marksTokens := true
  decisionKinds := ["if_expression", "for_expression", "while_expression", "loop_expression",
    "match_arm", "try_expression"]
  decisionsUnder := []
  operatorsDecide := true
  decoration := .attached ["attribute_item"]

end Dialect
end Mutagen
