import Mutagen.Tree.Basic

/-!
# Document order

`Site.preorder` lists a subtree in document order. `Site.walk` visits it in the
same order with a visitor that keeps a state and may skip the children of a node
or stop.
-/
namespace Mutagen

/-- What a visitor asks for after a node. -/
inductive Walk where
  | proceed
  | skipChildren
  | stop
  deriving DecidableEq, Repr

mutual

/-- A node and its descendants in document order, seen below `above`. -/
def Node.preorder (above : List (Node × Nat)) : Node → List Site
  | .mk l cs => ⟨.mk l cs, above⟩ :: Node.preorderAll (.mk l cs) above 0 cs

/-- The subtrees of the children of `parent` from index `i` on, in document order. -/
def Node.preorderAll (parent : Node) (above : List (Node × Nat)) (i : Nat) : List Node → List Site
  | [] => []
  | c :: cs => c.preorder ((parent, i) :: above) ++ Node.preorderAll parent above (i + 1) cs

end

variable {σ : Type}

mutual

/-- Visits a node and its descendants; the answer is false when the visitor stopped. -/
def Node.walk (visit : Site → σ → Walk × σ) (above : List (Node × Nat)) : Node → σ → Bool × σ
  | .mk l cs, st =>
    match visit ⟨.mk l cs, above⟩ st with
    | (.stop, st') => (false, st')
    | (.skipChildren, st') => (true, st')
    | (.proceed, st') => Node.walkAll visit (.mk l cs) above 0 cs st'

/-- Visits the children of `parent` from index `i` on, until the visitor stops. -/
def Node.walkAll (visit : Site → σ → Walk × σ) (parent : Node) (above : List (Node × Nat))
    (i : Nat) : List Node → σ → Bool × σ
  | [], st => (true, st)
  | c :: cs, st =>
    match c.walk visit ((parent, i) :: above) st with
    | (false, st') => (false, st')
    | (true, st') => Node.walkAll visit parent above (i + 1) cs st'

end

namespace Site

/-- The site and its descendants in document order. -/
def preorder (s : Site) : List Site := s.node.preorder s.above

/-- Visits the site and its descendants in document order. -/
def walk (s : Site) (visit : Site → σ → Walk × σ) (st : σ) : Bool × σ :=
  s.node.walk visit s.above st

/-- The named sites of one of `kinds` in the subtree, itself included, in document order. -/
def descendantsOfKinds (s : Site) (kinds : List String) : List Site :=
  (s.walk (fun t found =>
    (.proceed, if t.named && kinds.contains t.kind then t :: found else found)) []).2.reverse

end Site
end Mutagen
