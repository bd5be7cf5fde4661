import Mutagen.Tree.Basic

/-!
# Handles

A handle remembers a node of a parsed file by its kind and span only. It is
resolved by going down to the smallest node around the span and up again to the
first one that matches.
-/
namespace Mutagen

mutual

/-- The smallest node around a range, below `above`. -/
def Node.covering (range : Span) (above : List (Node × Nat)) : Node → Site
  | .mk l cs => Node.coveringIn range (.mk l cs) above 0 cs

/-- The same through the first child of `parent`, from index `i` on, that reaches far enough
to the right. -/
def Node.coveringIn (range : Span) (parent : Node) (above : List (Node × Nat)) (i : Nat) :
    List Node → Site
  | [] => ⟨parent, above⟩
  | c :: cs =>
    let s := c.label.span
    if s.stop < range.stop || (if s.start = s.stop then s.stop < range.start
        else s.stop ≤ range.start) then
      Node.coveringIn range parent above (i + 1) cs
    else if range.start < s.start then ⟨parent, above⟩
    else c.covering range ((parent, i) :: above)

end

structure Handle where
  root : Node
  source : Text
  span : Span
  kind : String

namespace Handle

def ofSite (root : Node) (source : Text) (s : Site) : Handle := ⟨root, source, s.span, s.kind⟩

/-- The node of the handle. -/
def resolve? (h : Handle) : Option Site :=
  if h.span.start ≤ h.span.stop then
    let s := h.root.covering h.span []
    (s :: s.ancestors).find? fun t => t.kind == h.kind && t.span == h.span
  else none

/-- The text under the handle. -/
def text (h : Handle) : Text := h.span.text h.source

end Handle
end Mutagen
