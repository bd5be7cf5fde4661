import Mutagen.Text.Basic
import Mutagen.Text.CaseTable

/-!
# Letter case

Full lowercase mapping of a text: a capital sigma at the end of a word becomes
the final form, a dotted capital I becomes two characters, and all other
characters follow the table. ASCII mapping touches the letters A to Z only.
-/
namespace Mutagen

/-- Whether a code point lies in one of the ranges. -/
def inRanges (ranges : List (Nat × Nat)) (n : Nat) : Bool :=
  ranges.any fun r => decide (r.1 ≤ n) && decide (n ≤ r.2)

/-- Lowercase form of one character on its own. -/
def lowerChar (c : Char) : Text :=
  let n := c.toNat
  if n == 0x130 then ['i', Char.ofNat 0x307]
  else match CaseTable.lower.find? fun (first, last, step, _) =>
      decide (first ≤ n) && decide (n ≤ last) && (n - first) % step == 0 with
    | some (_, _, _, distance) => [Char.ofNat (n + distance).toNat]
    | none => [c]

/-- Whether the first character that is not case-ignorable is cased. -/
def meetsCased (t : Text) : Bool :=
  match t.dropWhile fun c => inRanges CaseTable.ignorable c.toNat with
  | [] => false
  | c :: _ => inRanges CaseTable.cased c.toNat

namespace Text

/-- Lowercases a text whose preceding characters, the last first, are `before`. -/
def lowerAfter : Text → Text → Text
  | _, [] => []
  | before, c :: t =>
    (if c = 'Σ' then (if meetsCased before && !meetsCased t then ['ς'] else ['σ'])
      else lowerChar c) ++ lowerAfter (c :: before) t

def lower (t : Text) : Text := lowerAfter [] t

end Text

/-- Full lowercase mapping. -/
def lowercase (s : String) : String := String.ofList (Text.lower s.toList)

/-- Equality up to the case of the letters A to Z. -/
def sameAscii (s t : String) : Bool := s.toList.map Char.toLower == t.toList.map Char.toLower

end Mutagen
