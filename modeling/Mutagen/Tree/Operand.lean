import Mutagen.Tree.Basic

/-!
# Binary expressions

The operands and the operator of a binary expression, and the expression inside
any number of parentheses.
-/
namespace Mutagen

structure BinaryParts where
  left : Site
  operator : Site
  right : Site

namespace Site

/-- The operator of a binary expression: its own field, or the only one of a comparison. -/
def operator? (s : Site) : Option Site :=
  match s.childByField? "operator" with
  | some op => some op
  | none =>
    match s.childrenByField "operators" with
    | [op] => some op
    | _ => none

/-- Operands and operator. The operands stand under their fields, or are the two named children
besides the operator; a chain with several operators has no parts. -/
def binaryParts? (s : Site) : Option BinaryParts := do
  let op ← s.operator?
  match s.childByField? "left", s.childByField? "right" with
  | some left, some right => pure ⟨left, op, right⟩
  | _, _ =>
    match s.namedChildren.filter (fun c => !c.same op && !c.extra) with
    | [left, right] => pure ⟨left, op, right⟩
    | _ => none

end Site

mutual

/-- The expression inside any number of parentheses. -/
def Node.unwrapParens (parens : List String) (above : List (Node × Nat)) : Node → Site
  | .mk l cs =>
    if parens.contains l.kind then
      (Node.unwrapSole? parens (.mk l cs) above 0 cs).getD ⟨.mk l cs, above⟩
    else ⟨.mk l cs, above⟩

/-- The unwrapped only named node among the children of `parent` from index `i` on. -/
def Node.unwrapSole? (parens : List String) (parent : Node) (above : List (Node × Nat))
    (i : Nat) : List Node → Option Site
  | [] => none
  | c :: cs =>
    if c.label.named then
      if cs.any (·.label.named) then none
      else some (c.unwrapParens parens ((parent, i) :: above))
    else Node.unwrapSole? parens parent above (i + 1) cs

end

/-- The expression inside any number of parentheses. -/
def Site.unwrapParens (parens : List String) (s : Site) : Site :=
  s.node.unwrapParens parens s.above

end Mutagen
