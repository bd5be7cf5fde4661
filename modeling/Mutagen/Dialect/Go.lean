import Mutagen.Dialect.Basic

/-!
# Go

Functions and methods; a method is named `Receiver.Method`, its receiver without
pointer signs and type arguments.
-/
namespace Mutagen
namespace Dialect

def goGrammar : Grammar where
  ifKinds := ["if_statement"]
  consequenceField := "consequence"
  elseKinds := []
  elifKinds := []
  inlineBranchKinds := []
  loopKinds := ["for_statement"]
  assignmentKinds := ["assignment_statement", "short_var_declaration", "var_declaration"]
  wrapperKinds := []
  binaryKinds := ["binary_expression"]
  parenKinds := ["parenthesized_expression"]
  numberKinds := ["int_literal", "float_literal"]
  statementWrapperKinds := ["expression_statement"]
  blockKinds := ["block", "statement_list"]
  statementListKinds := ["statement_list"]
  statementKinds := []
  commentKinds := ["comment"]
  methodKinds := []
  baseListKinds := []
  baseContainerKinds := []
  baseInnerListKinds := []
  callKinds := ["call_expression"]
  selfPrefixes := []
  nullLiteral := "nil"
  emptyBlockFiller := none
  operators := { OperatorTable.cLike with bitwise := ["&", "|", "^", "<<", ">>", "&^"] }

/-- The name of the type of a receiver. -/
def receiverType? (s : Site) (source : Text) : Option Text := do
  let receiver ← s.childByField? "receiver"
  let parameter ← receiver.childOfKinds? ["parameter_declaration"]
  let type ← parameter.childByField? "type"
  let text := Text.trim ((type.text source).dropWhile (· == '*'))
  let base := Text.trim (text.takeWhile (· != '['))
  if base.isEmpty then none else pure base

def goName (s : Site) (source : Text) : Text :=
  match if s.kind == "method_declaration" then receiverType? s source else none with
  | some receiver => receiver ++ '.' :: plainName s source
  | none => plainName s source

def go : Dialect where
  language := .go
  grammar := goGrammar
  entityKinds := [("function_declaration", .callable), ("method_declaration", .callable)]
  boundFunction? := noBoundFunction
  bodyKinds := []
  name := goName
  collapsesSignature := true
  stub := plainStub
  branchKinds := ["if_statement"]
  hasElse := hasAlternative
  marks := [
    ⟨["for_statement"], [.hasLoop]⟩,
    ⟨["expression_switch_statement", "type_switch_statement", "select_statement"], [.hasSwitch]⟩,
    ⟨["assignment_statement", "short_var_declaration", "var_declaration", "inc_statement",
      "dec_statement"], [.hasAssignment]⟩,
    ⟨["call_expression"], [.hasFunctionCall]⟩,
    ⟨["return_statement"], [.hasReturn]⟩,
    ⟨["import_declaration"], [.hasImport]⟩,
    ⟨["index_expression", "slice_expression"], [.hasListIndexing]⟩,
    ⟨["func_literal"], [.hasLambda]⟩,
    ⟨["unary_expression"], [.hasUnaryOp]⟩]
  nameMarks := [⟨"call_expression", "function", ["panic", "recover"], .hasException⟩]
  marksTokens := true
  decisionKinds := ["if_statement", "for_statement", "expression_case", "type_case",
    "communication_case"]
  decisionsUnder := []
  operatorsDecide := true
  decoration := .nowhere

end Dialect
end Mutagen
