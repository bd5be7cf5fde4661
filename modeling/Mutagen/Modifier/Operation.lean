import Mutagen.Modifier.Attempt
import Mutagen.Modifier.Literal

/-! Mutations of binary expressions: other operators, exchanged operands, dropped terms and
shifted constants. -/
namespace Mutagen
namespace Target

/-- The binary expressions in document order, with their parts. -/
def binaries (t : Target) : List (Site × BinaryParts) :=
  (t.site.descendantsOfKinds t.grammar.binaryKinds).filterMap fun s =>
    s.binaryParts?.map fun parts => (s, parts)

/-- The operator as it stands in the source. -/
def operatorOf (t : Target) (parts : BinaryParts) : String :=
  String.ofList (t.text parts.operator)

/-- The operators that can replace `op`. -/
def alternatives (t : Target) (op : String) : List String :=
  ((t.grammar.operators.classOf? op).getD []).filter (· != op)

/-- Replaces one operator by another of its class. -/
def changeStep (t : Target) (p : Float) (edits : EditList) (b : Site × BinaryParts) :
    Draw EditList := do
  let choices := t.alternatives (t.operatorOf b.2)
  if choices.isEmpty then pure edits
  else if ← Draw.flip p then
    let pick := (← Draw.choose? choices).getD ""
    pure (edits.offer ⟨b.2.operator.span, pick.toList⟩)
  else pure edits

/-- Replaces operators by others of their class. -/
def changeOperators (t : Target) (p : Float) : Draw EditList :=
  t.binaries.foldlM (t.changeStep p) .empty

/-- Replaces one operator by its opposite. -/
def flipStep (t : Target) (p : Float) (edits : EditList) (b : Site × BinaryParts) :
    Draw EditList :=
  match t.grammar.operators.flip? (t.operatorOf b.2) with
  | none => pure edits
  | some opposite => do
    if ← Draw.flip p then pure (edits.offer ⟨b.2.operator.span, opposite.toList⟩)
    else pure edits

/-- Replaces operators by their opposites. -/
def flipOperators (t : Target) (p : Float) : Draw EditList :=
  t.binaries.foldlM (t.flipStep p) .empty

/-- Exchanges the operands of an expression and turns its comparison around. -/
def swapEdits (t : Target) (parts : BinaryParts) : List Edit :=
  [⟨parts.left.span, t.text parts.right⟩, ⟨parts.right.span, t.text parts.left⟩] ++
    match converse? (t.operatorOf parts) with
    | some op => [⟨parts.operator.span, op.toList⟩]
    | none => []

/-- Exchanges the operands of one expression, unless an earlier exchange touches it. -/
def swapStep (t : Target) (p : Float) (edits : EditList) (b : Site × BinaryParts) :
    Attempt EditList :=
  let parts := b.2
  if edits.overlaps parts.left.span || edits.overlaps parts.right.span ||
      edits.overlaps parts.operator.span then pure edits
  else do
    if ← Attempt.flip p then
      (t.swapEdits parts).foldlM (fun l e =>
        match l.push e with
        | .ok l' => pure l'
        | .error _ => failure) edits
    else pure edits

/-- Exchanges operands. -/
def swapOperands (t : Target) (p : Float) : Attempt EditList :=
  t.binaries.foldlM (t.swapStep p) .empty

/-- The operand that is left of a chain when one of its terms is dropped. -/
def keptOperand? (t : Target) (parts : BinaryParts) : Option Site :=
  let left := parts.left.unwrapParens t.grammar.parenKinds
  let right := parts.right.unwrapParens t.grammar.parenKinds
  if t.grammar.isBinary left.kind then left.binaryParts?.map (·.left)
  else if t.grammar.isBinary right.kind then right.binaryParts?.map (·.right)
  else none

/-- Replaces one chain by an operand inside it. -/
def breakStep (t : Target) (p : Float) (edits : EditList) (b : Site × BinaryParts) :
    Draw EditList :=
  if edits.overlaps b.1.span then pure edits
  else match t.keptOperand? b.2 with
    | none => pure edits
    | some kept => do
      if ← Draw.flip p then pure (edits.offer ⟨b.1.span, t.text kept⟩) else pure edits

/-- Replaces chains by operands inside them. -/
def breakChains (t : Target) (p : Float) : Draw EditList :=
  t.binaries.foldlM (t.breakStep p) .empty

/-- Shifts one operand, when it is a number. -/
def constantStep (t : Target) (p : Float) (edits : EditList) (operand : Site) : Draw EditList := do
  let literal := operand.unwrapParens t.grammar.parenKinds
  if !t.grammar.numberKinds.contains literal.kind || edits.overlaps literal.span then pure edits
  else if ← Draw.flip p then
    match ← Literal.perturb (t.text literal) with
    | some changed => pure (edits.offer ⟨literal.span, changed⟩)
    | none => pure edits
  else pure edits

/-- Shifts numbers that are operands. -/
def changeConstants (t : Target) (p : Float) : Draw EditList :=
  (t.binaries.flatMap fun b => [b.2.left, b.2.right]).foldlM (t.constantStep p) .empty

end Target
end Mutagen
