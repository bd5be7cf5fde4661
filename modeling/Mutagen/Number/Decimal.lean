import Mutagen.Number.Binary64

/-!
# Decimal text of binary numbers

Numbers are written either with the fewest digits that read back as the same
number, or with a fixed number of places. What a reader sees besides the digits
(when an exponent is used, whether a fraction is always shown) is chosen by the
place that writes them.
-/
namespace Mutagen

/-- Digits times a power of ten. -/
structure Decimal where
  digits : Nat
  exponent : Int
  deriving DecidableEq, Repr

namespace Decimal

def digitCount (n : Nat) : Nat := (Nat.toDigits 10 n).length

/-- The number `p` with `10 ^ (p - 1) ≤ num / den < 10 ^ p`, for a positive fraction. -/
def magnitude (num den : Nat) : Int :=
  if den ≤ num then digitCount (num / den)
  else
    let rec go : Nat → Nat → Int → Int
      | 0, _, p => p
      | fuel + 1, n, p => if den ≤ n * 10 then p else go fuel (n * 10) (p - 1)
    go 400 num 0

/-- A fraction divided by a power of ten. -/
def scale (num den : Nat) (e : Int) : Nat × Nat :=
  if 0 ≤ e then (num, den * Nat.pow 10 e.toNat) else (num * Nat.pow 10 (-e).toNat, den)

/-- Moves trailing zeros of the digits into the exponent. -/
def stripZeros : Nat → Decimal → Decimal
  | 0, d => d
  | fuel + 1, d =>
    if d.digits ≠ 0 ∧ d.digits % 10 = 0 then stripZeros fuel ⟨d.digits / 10, d.exponent + 1⟩ else d

/-- The fewest digits that read back as `mantissa * 2 ^ exponent`, and of those the nearest.
The reals that read back lie between the midpoints to the neighbours, which count when the
mantissa is even. -/
def shortest (mantissa : Nat) (exponent : Int) : Decimal :=
  if mantissa = 0 then ⟨0, 0⟩
  else
    let below := if mantissa = Binary64.hiddenBit ∧ -1074 < exponent then 1 else 2
    let (num, den) := Binary64.ratio (4 * mantissa) (exponent - 2)
    let (low, _) := Binary64.ratio (4 * mantissa - below) (exponent - 2)
    let (high, _) := Binary64.ratio (4 * mantissa + 2) (exponent - 2)
    let point := magnitude num den
    let inside (digits : Nat) (e : Int) : Bool :=
      let (l, d) := scale low den e
      let (h, _) := scale high den e
      if mantissa % 2 = 0 then decide (l ≤ digits * d) && decide (digits * d ≤ h)
      else decide (l < digits * d) && decide (digits * d < h)
    let rec go : Nat → Nat → Decimal
      | 0, count => ⟨roundDiv (scale num den (point - count)).1 (scale num den (point - count)).2,
          point - count⟩
      | fuel + 1, count =>
        let e := point - count
        let (n, d) := scale num den e
        let lower := n / d
        match inside lower e && lower != 0, inside (lower + 1) e with
        | true, true =>
          ⟨if roundDiv n d = lower then lower else lower + 1, e⟩
        | true, false => ⟨lower, e⟩
        | false, true => ⟨lower + 1, e⟩
        | false, false => go fuel (count + 1)
    stripZeros 20 (go 17 1)

/-- The number nearest to a decimal. -/
def toFloat (negative : Bool) (d : Decimal) : Float :=
  let size : Int := digitCount d.digits
  if d.digits = 0 ∨ d.exponent + size < -400 then Binary64.nearest negative 0 1
  else if 400 < d.exponent + size then Binary64.nearest negative (Nat.pow 10 400) 1
  else
    let (num, den) := scale d.digits 1 (-d.exponent)
    Binary64.nearest negative num den

def digitText (n : Nat) : List Char := Nat.toDigits 10 n

/-- Digits with the point set `places` from the right. -/
def withPoint (digits places : Nat) : List Char :=
  let whole := digitText (digits / Nat.pow 10 places)
  if places = 0 then whole
  else
    let fraction := digitText (digits % Nat.pow 10 places)
    whole ++ '.' :: (List.replicate (places - fraction.length) '0' ++ fraction)

/-- Positional notation, without a point when the number is whole. -/
def positional (d : Decimal) : List Char :=
  if 0 ≤ d.exponent then digitText (d.digits * Nat.pow 10 d.exponent.toNat)
  else withPoint d.digits (-d.exponent).toNat

/-- Sign and digits of a number with a fixed number of places, halfway cases to even. -/
def fixed (places : Nat) (x : Float) : List Char :=
  match Binary64.ofFloat x with
  | .nan => "NaN".toList
  | .infinite negative => (if negative then "-inf" else "inf").toList
  | .finite negative m q =>
    let (num, den) := Binary64.ratio m q
    (if negative then ['-'] else []) ++ withPoint (roundDiv (num * Nat.pow 10 places) den) places

/-- Sign and fewest digits of a number, never with an exponent. -/
def plain (x : Float) : List Char :=
  match Binary64.ofFloat x with
  | .nan => "NaN".toList
  | .infinite negative => (if negative then "-inf" else "inf").toList
  | .finite negative m q => (if negative then ['-'] else []) ++ positional (shortest m q)

end Decimal
end Mutagen
