import Mutagen.Number.Decimal
import Mutagen.Random.Generator
import Mutagen.Text.Basic

/-!
# Numeric literals

A decimal literal is shifted by a small amount and keeps its suffix. Literals
with a base, an exponent, a digit separator or a leading zero are left alone.
-/
namespace Mutagen
namespace Literal

/-- Whether a literal starts with the mark of a base other than ten. -/
def hasBase (literal : Text) : Bool :=
  match literal with
  | '0' :: c :: _ => c == 'x' || c == 'X' || c == 'b' || c == 'B' || c == 'o' || c == 'O'
  | _ => false

/-- The number that digits write. -/
def value (digits : Text) : Nat := digits.foldl (fun n c => 10 * n + (c.toNat - 48)) 0

/-- The least whole number that is too large to be shifted. -/
def limit : Nat := Nat.pow 2 127

/-- What 128 bits, one of them for the sign, hold of a sum: from the limit on it comes back at the
other end. -/
def wrap (sum : Int) : Int := sum.bmod (2 * limit)

/-- Adds a shift, or its opposite where the result would be negative. -/
def shiftWhole (v : Nat) (shift : Int) : Int :=
  if wrap (v + shift) < 0 then wrap (v + shift.natAbs) else wrap (v + shift)

def wholeShifts : List Int := [1, -1, 2, -2]

def shiftReal (v shift : Float) : Float := if v + shift < 0.0 then v + shift.abs else v + shift

def realShifts : List Float := [0.1, -0.1, 1.0, -1.0]

/-- The number that digits around one point write. -/
def real? (whole fraction : Text) : Option Float :=
  if fraction.contains '.' then none
  else some (Decimal.toFloat false ⟨value (whole ++ fraction), -(fraction.length : Int)⟩)

/-- A literal shifted by a small amount; nothing is drawn when it is left alone. -/
def perturb (literal : Text) : Draw (Option Text) := do
  let digits := literal.takeWhile fun c => c.isDigit || c == '.'
  let suffix := literal.drop digits.length
  if hasBase literal || literal.contains '_' || digits.isEmpty || digits.getLast? == some '.' ||
      suffix.head? == some 'e' || suffix.head? == some 'E' then
    pure none
  else
    let whole := digits.takeWhile (· != '.')
    match digits.drop whole.length with
    | '.' :: fraction =>
      match real? whole fraction with
      | none => pure none
      | some v => do
        let shift := (← Draw.choose? realShifts).getD 0.0
        pure (some (Decimal.fixed (max fraction.length 1) (shiftReal v shift) ++ suffix))
    | _ =>
      if 1 < digits.length && digits.head? == some '0' || decide (limit ≤ value digits) then
        pure none
      else do
        let shift := (← Draw.choose? wholeShifts).getD 0
        pure (some ((toString (shiftWhole (value digits) shift)).toList ++ suffix))

end Literal
end Mutagen
