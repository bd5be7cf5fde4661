import Mutagen.Modifier.Attempt
import Mutagen.Random.Shuffle

/-! Mutations of control flow: exchanged branches and reordered statements. -/
namespace Mutagen
namespace Grammar

/-- The span of a branch; of one that starts with a keyword, that of its statements. -/
def branchSpan? (g : Grammar) (s : Site) : Option Span :=
  if g.inlineBranchKinds.contains s.kind then
    match s.namedChildren.head?, s.namedChildren.getLast? with
    | some first, some last => some ⟨first.span.start, last.span.stop⟩
    | _, _ => none
  else some s.span

/-- The body of an else branch. -/
def elseBody? (g : Grammar) (alternative : Site) : Option Site :=
  if g.isElse alternative.kind && !g.inlineBranchKinds.contains alternative.kind then
    (alternative.childByField? "body").or
      (alternative.namedChildren.find? fun c => !g.isComment c.kind)
  else some alternative

/-- The two branches of an if with one plain else. -/
def invertible? (g : Grammar) (s : Site) : Option (Span × Span) := do
  let [alternative] := s.childrenByField "alternative" | none
  if g.isElif alternative.kind || g.isIf alternative.kind then none
  else
    let body ← g.elseBody? alternative
    if g.isIf body.kind then none
    else
      let consequence ← s.childByField? g.consequenceField
      let thenSpan ← g.branchSpan? consequence
      let elseSpan ← g.branchSpan? body
      if thenSpan.overlaps elseSpan then none else pure (thenSpan, elseSpan)

/-- Kinds that end the statements of a body. -/
def clauseKinds : List String := ["rescue", "else", "ensure"]

/-- The named children that are not comments. -/
def membersOf (g : Grammar) (s : Site) : List Site :=
  s.namedChildren.filter fun c => !g.isComment c.kind

/-- The statements of a block. A value at its end is none of them. -/
def statementsOf (g : Grammar) (block : Site) : List Site :=
  let members := match g.membersOf block with
    | [only] => if g.statementListKinds.contains only.kind then g.membersOf only else [only]
    | members => members
  let statements := members.takeWhile fun c => !clauseKinds.contains c.kind
  if !g.statementKinds.isEmpty &&
      statements.getLast?.any (fun last => !g.statementKinds.contains last.kind) then
    statements.dropLast
  else statements

end Grammar

namespace Target

/-- Exchanges the branches of one if, unless an earlier exchange touches them. -/
def invertStep (t : Target) (p : Float) (edits : EditList) (s : Site) : Attempt EditList :=
  match t.grammar.invertible? s with
  | none => pure edits
  | some (thenSpan, elseSpan) =>
    if edits.overlaps thenSpan || edits.overlaps elseSpan then pure edits
    else do
      if ← Attempt.flip p then
        match edits.push ⟨thenSpan, elseSpan.text t.source⟩ with
        | .error _ => pure edits
        | .ok one =>
          match one.push ⟨elseSpan, thenSpan.text t.source⟩ with
          | .error _ => failure
          | .ok both => pure both
      else pure edits

/-- Exchanges the branches of ifs. -/
def invertBranches (t : Target) (p : Float) : Attempt EditList :=
  (t.site.descendantsOfKinds t.grammar.ifKinds).foldlM (t.invertStep p) .empty

/-- The statements of the body, when it is a block. -/
def bodyStatements? (t : Target) : Option (List Site) := do
  let body ← t.body?
  if t.grammar.blockKinds.contains body.kind then pure (t.grammar.statementsOf body) else none

/-- Reorders slots until the entity changes. -/
def shuffleSlots (t : Target) (e : Entity) (slots : List Site) (p : Float) (attempts : Nat) :
    Attempt Text :=
  if slots.length < 2 then failure
  else do
    if ← Attempt.flip p then
      Attempt.retry attempts do
        let order ← OptionT.lift (shuffledOrder slots.length)
        let edits ← Attempt.ofOption (t.permuted? slots order)
        pure (e.mutated? edits)
    else failure

end Target
end Mutagen
