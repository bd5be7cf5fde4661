import Mutagen.Dialect.Basic

/-!
# Ruby

`def` methods, also on an object, and classes. Keyword tokens share the kinds of
their constructs, so only named nodes contribute properties.
-/
namespace Mutagen
namespace Dialect

def rubyOperators : OperatorTable where
  arithmetic := ["+", "-", "*", "/", "%", "**"]
  bitwise := ["&", "|", "^", "<<", ">>"]
  comparison := ["==", "!=", "<", "<=", ">", ">="]
  logical := [["&&", "||"], ["and", "or"]]
  flips := [("==", "!="), ("<", ">="), (">", "<="), ("&&", "||"), ("and", "or"), ("+", "-"),
    ("*", "/"), ("&", "|"), ("<<", ">>")]

def rubyGrammar : Grammar where
  ifKinds := ["if"]
  consequenceField := "consequence"
  elseKinds := ["else"]
  elifKinds := ["elsif"]
  inlineBranchKinds := ["then", "else"]
  loopKinds := ["while", "until", "for"]
  assignmentKinds := ["assignment", "operator_assignment"]
  wrapperKinds := ["begin"]
  binaryKinds := ["binary"]
  parenKinds := ["parenthesized_statements"]
  numberKinds := ["integer", "float"]
  statementWrapperKinds := []
  blockKinds := ["body_statement", "then", "else", "do_block", "block_body", "begin"]
  statementListKinds := []
  statementKinds := []
  commentKinds := ["comment"]
  methodKinds := ["method", "singleton_method"]
  baseListKinds := ["superclass"]
  baseContainerKinds := []
  baseInnerListKinds := []
  callKinds := ["call"]
  selfPrefixes := ["self."]
  nullLiteral := "nil"
  emptyBlockFiller := none
  operators := rubyOperators

/-- A method on an object carries the object's name. -/
def rubyName (s : Site) (source : Text) : Text :=
  if s.kind == "singleton_method" then s.fieldText "object" source ++ '.' :: plainName s source
  else plainName s source

/-- A body that closes with `end`. -/
def rubyStub (_ : Site) (kind : EntityKind) (signature : Text) : Text :=
  signature ++ ("\n  # " ++ kind.reminder ++ "\nend").toList

def ruby : Dialect where
  language := .ruby
  grammar := rubyGrammar
  entityKinds := [("method", .callable), ("singleton_method", .callable), ("class", .classLike)]
  boundFunction? := noBoundFunction
  bodyKinds := ["body_statement"]
  name := rubyName
  collapsesSignature := false
  stub := rubyStub
  branchKinds := ["if", "unless"]
  hasElse := hasAlternative
  marks := [
    ⟨["if_modifier", "unless_modifier"], [.hasIf]⟩,
    ⟨["while", "until", "for", "while_modifier", "until_modifier"], [.hasLoop]⟩,
    ⟨["case", "case_match"], [.hasSwitch]⟩,
    ⟨["begin"], [.hasException, .hasWrapper]⟩,
    ⟨["rescue", "ensure"], [.hasException]⟩,
    ⟨["assignment", "operator_assignment"], [.hasAssignment]⟩,
    ⟨["call"], [.hasFunctionCall]⟩,
    ⟨["return"], [.hasReturn]⟩,
    ⟨["element_reference"], [.hasListIndexing]⟩,
    ⟨["lambda", "block", "do_block"], [.hasLambda]⟩,
    ⟨["unary", "not"], [.hasUnaryOp]⟩,
    ⟨["conditional"], [.hasTernary]⟩]
  nameMarks := [
    ⟨"call", "method", ["each", "each_with_index", "times", "upto", "downto", "loop"], .hasLoop⟩,
    ⟨"call", "method", ["raise"], .hasException⟩,
    ⟨"call", "method", ["require", "require_relative"], .hasImport⟩]
  marksTokens := false
  decisionKinds := ["if", "elsif", "unless", "while", "until", "for", "when", "rescue",
    "conditional", "if_modifier", "unless_modifier", "while_modifier", "until_modifier"]
  decisionsUnder := [("else", "unless")]
  operatorsDecide := true
  decoration := .nowhere

end Dialect
end Mutagen
