import Mutagen.Edit
import Mutagen.Entity.Basic
import Mutagen.Random.Generator

/-!
# Attempts

An attempt draws from a generator and may give up; what was drawn before stays
drawn. The edits of a successful attempt are made in the coordinates of the file
and turn into a mutant of the entity.
-/
namespace Mutagen

abbrev Attempt := OptionT Draw

namespace Attempt

variable {α : Type}

def ofOption : Option α → Attempt α
  | some a => pure a
  | none => failure

/-- True with probability `p`. -/
def flip (p : Float) : Attempt Bool := OptionT.lift (Draw.flip p)

/-- Repeats a step that may be without result, at most `n` times. -/
def retry : Nat → Attempt (Option α) → Attempt α
  | 0, _ => failure
  | n + 1, step => do
    match ← step with
    | some a => pure a
    | none => retry n step

end Attempt

namespace Entity

/-- The entity with edits of its file made in it; nothing when there are none, when they do not
fit, or when they change nothing. -/
def mutated? (e : Entity) (edits : EditList) : Option Text :=
  if edits.isEmpty then none
  else match edits.rebase e.span.start e.span.len >>= fun l => l.apply e.raw with
    | .error _ => none
    | .ok raw =>
      let code := Text.dedent raw e.indent
      if code = e.code then none else some code

end Entity

namespace Target

/-- The slots with the texts of the slots that an order puts there. -/
def permuted? (t : Target) (slots : List Site) (order : List Nat) : Option EditList :=
  (slots.zip order).foldlM (fun edits (slot, i) =>
    match edits.push ⟨slot.span, (slots[i]?.map t.text).getD []⟩ with
    | .ok edits' => some edits'
    | .error _ => none) .empty

end Target
end Mutagen
