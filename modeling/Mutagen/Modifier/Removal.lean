import Mutagen.Modifier.Attempt

/-! Mutations that remove whole statements. -/
namespace Mutagen
namespace Target

/-- The statement that carries a node, when it stands in a block inside the entity. -/
def statementOf? (t : Target) (s : Site) : Option Site := do
  let wraps (a : Site) := t.grammar.statementWrapperKinds.contains a.kind
  let statement := (s.ancestors.takeWhile wraps).getLast?.getD s
  let block ← statement.parent?
  if t.grammar.blockKinds.contains block.kind && t.site.span.contains statement.span &&
      statement.span != t.site.span then
    pure statement
  else none

/-- Chooses one candidate's statement, unless it touches an earlier choice. -/
def chooseStep (t : Target) (p : Float) (chosen : List Site) (s : Site) : Draw (List Site) :=
  if s.same t.site then pure chosen
  else match t.statementOf? s with
    | none => pure chosen
    | some statement =>
      if chosen.any (·.span.overlaps statement.span) then pure chosen
      else do
        if ← Draw.flip p then pure (chosen ++ [statement]) else pure chosen

/-- Chooses statements around nodes of `kinds`. -/
def chooseStatements (t : Target) (kinds : List String) (p : Float) : Draw (List Site) :=
  (t.site.descendantsOfKinds kinds).foldlM (t.chooseStep p) []

end Target

/-- A statement and the span to delete for it. -/
structure Removal where
  statement : Site
  span : Span

namespace Removal

/-- Whether a statement stands directly in a block. -/
def inBlock (block : Site) (r : Removal) : Bool := r.statement.parent?.any (·.same block)

end Removal

namespace Target

/-- The removals of statements from the first to the last. -/
def removals (t : Target) (statements : List Site) : List Removal :=
  (statements.map fun s => ⟨s, t.source.wholeLines s.span⟩).mergeSort
    fun a b => decide (a.span.start ≤ b.span.start)

/-- Whether a block loses all its statements. -/
def emptied (t : Target) (all : List Removal) (block : Site) : Bool :=
  decide ((block.namedChildren.countP fun c => !t.grammar.isComment c.kind) ≤
    all.countP (Removal.inBlock block))

/-- What takes the place of a removed statement: nothing, or the filler when it is the last one
of a block that would be empty. -/
def replacement (t : Target) (all : List Removal) (r : Removal) (later : List Removal) : Text :=
  match t.grammar.emptyBlockFiller, r.statement.parent? with
  | some filler, some block =>
    if t.emptied all block && !later.any (Removal.inBlock block) then
      if r.span.start = t.source.lineStart r.span.start then
        t.source.lineIndent r.statement.span.start ++ filler.toList ++
          (if (r.span.text t.source).getLast? == some '\n' then ['\n'] else [])
      else filler.toList
    else []
  | _, _ => []

/-- The edits for removals of which those before are done. -/
def removeFrom (t : Target) (all : List Removal) : EditList → List Removal → EditList
  | edits, [] => edits
  | edits, r :: later => t.removeFrom all (edits.offer ⟨r.span, t.replacement all r later⟩) later

/-- The edits that remove statements, with their lines where these hold nothing else. -/
def removalEdits (t : Target) (statements : List Site) : EditList :=
  t.removeFrom (t.removals statements) .empty (t.removals statements)

/-- Removes statements around nodes of `kinds`. -/
def removeMatching (t : Target) (kinds : List String) (p : Float) : Draw EditList := do
  let chosen ← t.chooseStatements kinds p
  pure (t.removalEdits chosen)

end Target
end Mutagen
