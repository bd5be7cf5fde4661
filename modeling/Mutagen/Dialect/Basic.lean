import Mutagen.Language.Basic
import Mutagen.Language.Grammar
import Mutagen.Property
import Mutagen.Text.Lines
import Mutagen.Tree.Operand

/-!
# Dialects

A dialect holds what extraction has to know about a language: which nodes are
functions and classes, how they are named, where their bodies are, which
properties a node contributes, and what counts as a decision.
-/
namespace Mutagen

inductive EntityKind where
  | callable
  | classLike
  deriving DecidableEq, Repr

namespace EntityKind

def property : EntityKind → Property
  | callable => .isFunction
  | classLike => .isClass

def name : EntityKind → String
  | callable => "function"
  | classLike => "class"

/-- The reminder in the body of a stub. -/
def reminder : EntityKind → String
  | callable => "TODO: Implement this function"
  | classLike => "TODO: Implement this class"

end EntityKind

/-- Nodes of `kinds` contribute `properties`. -/
structure Mark where
  kinds : List String
  properties : List Property
  deriving DecidableEq, Repr

/-- Nodes of `kind` contribute `property` when the text of their `field` is one of `names`. -/
structure NameMark where
  kind : String
  field : String
  names : List String
  property : Property
  deriving DecidableEq, Repr

/-- Where the decorators of an entity are found. -/
inductive Decoration where
  | nowhere
  /-- Around it, in a node of a kind. -/
  | around (kind : String)
  /-- Among its children or the siblings before it. -/
  | attached (kinds : List String)
  /-- In the child of a kind, among its children. -/
  | within (child : String) (kinds : List String)
  deriving DecidableEq, Repr

structure Dialect where
  language : Language
  grammar : Grammar
  /-- Kinds of nodes that define functions and classes. -/
  entityKinds : List (String × EntityKind)
  /-- The function literal that a statement gives a name to. -/
  boundFunction? : Site → Option Site
  /-- Kinds of children that are a body when no field holds one. -/
  bodyKinds : List String
  name : Site → Text → Text
  /-- Whether blanks between parentheses of a signature are collapsed. -/
  collapsesSignature : Bool
  /-- The stub of an entity with a given signature. -/
  stub : Site → EntityKind → Text → Text
  /-- Kinds of conditionals that may have an else. -/
  branchKinds : List String
  hasElse : Site → Bool
  marks : List Mark
  nameMarks : List NameMark
  /-- Whether tokens contribute properties as well as named nodes. -/
  marksTokens : Bool
  decisionKinds : List String
  /-- Kinds that are decisions under a parent of another kind. -/
  decisionsUnder : List (String × String)
  /-- Whether logical operators and comparisons are decisions. -/
  operatorsDecide : Bool
  decoration : Decoration

/-- Removes blanks and the signs that open a body from the end of a reversed text. -/
def dropOpeners : Text → Text
  | [] => []
  | '>' :: '=' :: t => dropOpeners t
  | c :: t => if isBlank c || c == '\x7b' || c == ':' then dropOpeners t else c :: t

/-- Collapses blanks at positive depth of parentheses to one space, and to none after `(` and
before `)`. `pending` says that blanks were passed, `opened` that the output ends in `(`. -/
def collapseFrom (depth : Nat) (pending opened : Bool) : Text → Text
  | [] => []
  | c :: t =>
    if 0 < depth && isBlank c then collapseFrom depth true opened t
    else
      let gap := if pending && c != ')' && !opened then [' '] else []
      let depth' := if c == '(' then depth + 1 else if c == ')' then depth - 1 else depth
      gap ++ c :: collapseFrom depth' false (c == '(') t

/-- Collapses blanks between parentheses. -/
def collapseParameters (t : Text) : Text := collapseFrom 0 false false t

/-- Body between braces with a reminder, after a signature and `joiner`. -/
def braceStub (joiner terminator : String) (kind : EntityKind) (signature : Text) : Text :=
  signature ++ (joiner ++ "\x7b\n    // " ++ kind.reminder ++ "\n\x7d" ++ terminator).toList

/-- Whether a child, or a sibling before the site that only extras separate from it, has one of
`kinds`. -/
def Site.hasAttached (s : Site) (kinds : List String) : Bool :=
  s.children.any (fun c => kinds.contains c.kind) ||
    (s.namedBefore.find? fun b => kinds.contains b.kind || !b.extra).any fun b =>
      kinds.contains b.kind

def Decoration.on (s : Site) : Decoration → Bool
  | nowhere => false
  | around kind => s.parent?.any (·.kind == kind)
  | attached kinds => s.hasAttached kinds
  | within child kinds =>
    (s.childOfKinds? [child]).any fun m => kinds.any fun k => m.hasChildOfKind k

namespace Grammar

/-- Properties that the operator of a binary expression implies. -/
def binaryProperties (g : Grammar) (s : Site) (source : Text) : List Property :=
  match s.binaryParts? with
  | none => [.hasBinaryOp]
  | some parts =>
    let op := String.ofList (parts.operator.text source)
    .hasBinaryOp :: match g.operators.category? op with
      | some .arithmetic => [.hasArithmetic]
      | some .logical => [.hasBoolOp]
      | some .comparison => if isOrdering op then [.hasOffByOne] else []
      | _ => []

/-- Whether a binary expression takes a decision: by a logical operator, a comparison or `??`. -/
def isBranchingBinary (g : Grammar) (s : Site) (source : Text) : Bool :=
  g.isBinary s.kind && s.binaryParts?.any fun parts =>
    let op := String.ofList (parts.operator.text source)
    op == "??" || g.operators.category? op == some .logical ||
      g.operators.category? op == some .comparison

/-- Whether an alternative of an if is an else and not a further if. -/
def isPlainElse (g : Grammar) (alt : Site) : Bool :=
  if g.isIf alt.kind || g.isElif alt.kind then false
  else if !g.isElse alt.kind then true
  else !(alt.namedChildren.find? fun c => !g.isComment c.kind).any fun body => g.isIf body.kind

/-- Number of plain else branches of an if or of its continuation. -/
def elseBranches (g : Grammar) (s : Site) : Nat :=
  if s.named && (g.isIf s.kind || g.isElif s.kind) then
    (s.childrenByField "alternative").countP g.isPlainElse
  else 0

end Grammar

namespace Dialect

/-- The kind of entity that a node defines, if it has a body. -/
def entityKind? (d : Dialect) (s : Site) : Option EntityKind :=
  match d.entityKinds.lookup s.kind with
  | some kind => some kind
  | none => (d.boundFunction? s).map fun _ => .callable

def body? (d : Dialect) (s : Site) : Option Site :=
  match d.boundFunction? s with
  | some f => f.childByField? "body"
  | none => (s.childByField? "body").or (s.childOfKinds? d.bodyKinds)

/-- The text before the body, without the signs that open it. -/
def signature (d : Dialect) (s : Site) (source : Text) : Text :=
  let start := s.span.start
  let stop := max (match d.body? s with
    | some b => b.span.start
    | none => s.span.stop) start
  let raw := Text.dedent (source.slice start stop) (source.lineIndent start)
  let kept := (dropOpeners raw.reverse).reverse
  if d.collapsesSignature then collapseParameters kept else kept

/-- The properties that one node contributes to the entity around it. -/
def properties (d : Dialect) (s : Site) (source : Text) : List Property :=
  if s.named || d.marksTokens then
    (if d.branchKinds.contains s.kind then
      .hasIf :: (if d.hasElse s then [.hasIfElse] else []) else []) ++
    (if d.grammar.isBinary s.kind then d.grammar.binaryProperties s source else []) ++
    (d.marks.flatMap fun m => if m.kinds.contains s.kind then m.properties else []) ++
    d.nameMarks.flatMap fun m =>
      if m.kind == s.kind && m.names.contains (String.ofList (s.fieldText m.field source)) then
        [m.property] else []
  else []

/-- Whether a node counts as a decision. -/
def isDecision (d : Dialect) (s : Site) (source : Text) : Bool :=
  d.decisionKinds.contains s.kind ||
    (d.decisionsUnder.any fun (kind, above) => kind == s.kind && s.parent?.any (·.kind == above)) ||
    (d.operatorsDecide && d.grammar.isBranchingBinary s source)

/-- Whether a class names a base. -/
def hasParent (d : Dialect) (s : Site) : Bool := !(d.grammar.baseLists s).isEmpty

/-- The name under the field of that name. -/
def plainName (s : Site) (source : Text) : Text := s.fieldText "name" source

def noBoundFunction (_ : Site) : Option Site := none

/-- An else is the child under the field `alternative`. -/
def hasAlternative (s : Site) : Bool := (s.childByField? "alternative").isSome

/-- Stub between braces after a space. -/
def plainStub (_ : Site) (kind : EntityKind) (signature : Text) : Text :=
  braceStub " " "" kind signature

end Dialect
end Mutagen
