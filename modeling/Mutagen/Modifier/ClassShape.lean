import Mutagen.Modifier.ControlFlow
import Mutagen.Modifier.Removal

/-! Mutations of classes: a removed base, removed methods and reordered methods. -/
namespace Mutagen

/-- An entry of a base list: from its first to its last node, the comma before it, and whether
it names a base. -/
structure BaseEntry where
  start : Nat
  stop : Nat
  comma : Option Nat
  isBase : Bool
  deriving DecidableEq, Repr

namespace BaseEntry

/-- Kinds of entries that are not bases. -/
def otherKinds : List String := ["keyword_argument", "comment"]

/-- The entries among nodes, after the comma at `comma`, where `current` has begun. -/
def collect (comma : Option Nat) (current : Option BaseEntry) : List Site → List BaseEntry
  | [] => current.toList
  | s :: rest =>
    if s.kind == "," then current.toList ++ collect (some s.span.start) none rest
    else if !s.named || s.extra then collect comma current rest
    else
      let entry := current.getD ⟨s.span.start, s.span.stop, comma, true⟩
      collect comma (some { entry with
        stop := s.span.stop
        isBase := entry.isBase && !otherKinds.contains s.kind }) rest

/-- The span of an entry with one comma beside it. -/
def span (entry : BaseEntry) (next : Option BaseEntry) : Span :=
  match next, entry.comma with
  | some n, _ => ⟨entry.start, n.start⟩
  | none, some comma => ⟨comma, entry.stop⟩
  | none, none => ⟨entry.start, entry.stop⟩

/-- The spans of the bases among entries. -/
def spans : List BaseEntry → List Span
  | [] => []
  | entry :: rest => (if entry.isBase then [entry.span rest.head?] else []) ++ spans rest

end BaseEntry

mutual

/-- The node that holds the declared name of a method. -/
def Node.memberName? : Node → Option Node
  | .mk l cs =>
    match cs.find? (·.label.field == some "name") with
    | some name => some name
    | none =>
      if l.kind == "identifier" || l.kind == "field_identifier" then some (.mk l cs)
      else if cs.any (·.label.field == some "definition") then Node.memberNameIn? "definition" cs
      else Node.memberNameIn? "declarator" cs

/-- The same through the first child under a field. -/
def Node.memberNameIn? (field : String) : List Node → Option Node
  | [] => none
  | c :: cs => if c.label.field == some field then c.memberName? else Node.memberNameIn? field cs

end

namespace Target

/-- The entries of a base list. -/
def baseEntries (t : Target) (list : Site) : List BaseEntry :=
  BaseEntry.collect none none (t.grammar.baseEntries list).children

/-- The spans to delete for the bases of one list. A base that is alone takes the whole clause
and the blanks before it. -/
def baseSpans (t : Target) (list : Site) : List Span :=
  match t.baseEntries list with
  | [only] =>
    if only.isBase then
      let before := (t.source.slice? 0 list.span.start).getD []
      [⟨Text.size (before.reverse.dropWhile isIndent), list.span.stop⟩]
    else []
  | entries => BaseEntry.spans entries

/-- The spans to delete, one for each base of the class. -/
def baseRemovals (t : Target) : List Span := (t.grammar.baseLists t.site).flatMap t.baseSpans

/-- Removes one base. -/
def removeBase (t : Target) (p : Float) : Attempt EditList := do
  let candidates := t.baseRemovals
  if candidates.isEmpty then failure
  else if ← Attempt.flip p then
    let pick ← Attempt.ofOption (← OptionT.lift (Draw.choose? candidates))
    match EditList.empty.push (.delete pick) with
    | .ok edits => pure edits
    | .error _ => failure
  else failure

/-- The methods of the class. -/
def methods? (t : Target) : Option (List Site) := do
  let body ← t.body?
  pure (body.namedChildren.filter fun c => t.grammar.methodKinds.contains c.kind)

/-- The declared name of a method. -/
def memberName? (t : Target) (method : Site) : Option Text :=
  method.node.memberName?.map fun n => n.label.span.text t.source

/-- Whether a text calls one of the named methods of the same object. -/
def callsOneOf (t : Target) (names : List Text) (call : Text) : Bool :=
  t.grammar.selfPrefixes.any fun lead => names.any fun name =>
    match (Text.dropLead? lead.toList call).bind (Text.dropLead? name) with
    | some rest => rest.isEmpty || (Text.trimStart rest).head? == some '('
    | none => false

/-- Replaces calls of the named methods by the null literal. -/
def neutralizeCalls (t : Target) (names : List Text) (edits : EditList) : EditList :=
  (t.site.descendantsOfKinds t.grammar.callKinds).foldl (fun edits call =>
    if t.callsOneOf names (t.text call) then
      edits.offer ⟨call.span, t.grammar.nullLiteral.toList⟩
    else edits) edits

/-- The edits that remove methods and neutralize the calls of them. -/
def methodRemoval (t : Target) (removed : List Site) : EditList :=
  t.neutralizeCalls (removed.filterMap t.memberName?) (t.removalEdits removed)

/-- Draws which methods to remove. -/
def drawMethods (p : Float) (methods : List Site) : Draw (List Site) :=
  methods.filterM fun _ => Draw.flip p

/-- Removes methods until the entity changes. -/
def removeMethods (t : Target) (e : Entity) (p : Float) (attempts : Nat) : Attempt Text := do
  let methods ← Attempt.ofOption t.methods?
  if methods.isEmpty then failure
  else Attempt.retry attempts do
    let removed ← OptionT.lift (drawMethods p methods)
    pure (if removed.isEmpty then none else e.mutated? (t.methodRemoval removed))

end Target
end Mutagen
