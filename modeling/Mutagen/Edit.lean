import Mutagen.Span

/-!
# Edit lists

An edit replaces a span of a text. An edit list holds edits that do not clash,
in the order they were accepted, and applies them back to front, so that offsets
always refer to the text as it was.
-/
namespace Mutagen

structure Edit where
  span : Span
  replacement : Text
  deriving DecidableEq, Repr

namespace Edit

def delete (span : Span) : Edit := ⟨span, []⟩

end Edit

inductive EditError where
  | overlap (rejected existing : Span)
  | outOfBounds (span : Span) (length : Nat)
  deriving DecidableEq, Repr

def EditError.message : EditError → String
  | .overlap rejected existing =>
    "edit " ++ rejected.describe ++ " overlaps existing edit " ++ existing.describe
  | .outOfBounds span length =>
    "edit " ++ span.describe ++ " is out of bounds for text of length " ++ toString length

structure EditList where
  toList : List Edit
  deriving DecidableEq, Repr

namespace EditList

def empty : EditList := ⟨[]⟩

def length (l : EditList) : Nat := l.toList.length

def isEmpty (l : EditList) : Bool := l.toList.isEmpty

/-- Whether `span` clashes with an edit of the list. -/
def overlaps (l : EditList) (span : Span) : Bool := l.toList.any (·.span.overlaps span)

/-- Adds an edit, unless its span is inverted or clashes with one in the list. -/
def push (l : EditList) (e : Edit) : Except EditError EditList :=
  if e.span.stop < e.span.start then .error (.outOfBounds e.span 0)
  else match l.toList.find? (·.span.overlaps e.span) with
    | some existing => .error (.overlap e.span existing.span)
    | none => .ok ⟨l.toList ++ [e]⟩

/-- Adds an edit if `push` takes it, and otherwise keeps the list. -/
def offer (l : EditList) (e : Edit) : EditList :=
  match l.push e with
  | .ok l' => l'
  | .error _ => l

/-- An edit in the coordinates of a text that starts at `offset` and has `length` bytes,
cut at its end. -/
def shift (offset length : Nat) (e : Edit) : Except EditError Edit :=
  if e.span.start < offset then .error (.outOfBounds e.span length)
  else
    let stop := min (e.span.stop - offset) length
    .ok ⟨⟨min (e.span.start - offset) stop, stop⟩, e.replacement⟩

/-- The list in the coordinates of a text that starts at `offset` and has `length` bytes. -/
def rebase (l : EditList) (offset length : Nat) : Except EditError EditList :=
  l.toList.foldlM (fun acc e => do acc.push (← shift offset length e)) empty

/-- The edits from the last span to the first. -/
def descending (l : EditList) : List Edit :=
  l.toList.mergeSort fun a b => (b.span.order a.span).isLE

/-- Whether an edit covers a run of characters of `t`. -/
def fits (t : Text) (e : Edit) : Bool :=
  decide (e.span.stop ≤ t.size) && t.isBoundary e.span.start && t.isBoundary e.span.stop

/-- Applies every edit, the last span first. -/
def apply (l : EditList) (t : Text) : Except EditError Text :=
  l.descending.foldlM (fun acc e =>
    if fits t e then .ok (acc.splice e.span.start e.span.stop e.replacement)
    else .error (.outOfBounds e.span t.size)) t

end EditList
end Mutagen
