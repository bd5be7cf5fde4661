import Mutagen.Number.Decimal
import Mutagen.Toml.Lexical

/-!
# Numbers, truth values, dates and times

A scalar without quotes is a run of letters, digits and signs; its form decides
what it is.
-/
namespace Mutagen
namespace Toml

def isScalar (c : Char) : Bool :=
  c.isAlphanum || c == '_' || c == '+' || c == '-' || c == '.' || c == ':'

/-- Digits of a kind with single underscores between them, the underscores taken out. -/
def digits? (isDigit : Char → Bool) (t : Text) : Option Text :=
  let rec go : Bool → Text → Option Text
    | afterDigit, [] => if afterDigit then some [] else none
    | afterDigit, c :: t =>
      if isDigit c then (go true t).map (c :: ·)
      else if c == '_' && afterDigit then go false t
      else none
  go false t

def ofDigits (base : Nat) (t : Text) : Nat :=
  t.foldl (fun n c => base * n + (hexValue? c).getD 0) 0

/-- A whole number within the range of a signed word. -/
def word? (n : Int) : Option Toml :=
  if -(limit : Int) ≤ n ∧ n < limit then some (integer n) else none

/-- Decimal digits without a leading zero. -/
def decimal? (t : Text) : Option Text := do
  let ds ← digits? Char.isDigit t
  if 1 < ds.length ∧ ds.head? = some '0' then none else pure ds

/-- The sign of a number and what follows it. -/
def sign : Text → Bool × Text
  | '-' :: t => (true, t)
  | '+' :: t => (false, t)
  | t => (false, t)

def integer? (t : Text) : Option Toml :=
  match t with
  | '0' :: 'x' :: t => do word? (ofDigits 16 (← digits? (fun c => (hexValue? c).isSome) t))
  | '0' :: 'o' :: t => do word? (ofDigits 8 (← digits? (fun c => '0' ≤ c ∧ c ≤ '7') t))
  | '0' :: 'b' :: t => do word? (ofDigits 2 (← digits? (fun c => c == '0' || c == '1') t))
  | t => do
    let (negative, t) := sign t
    let n : Int := ofDigits 10 (← decimal? t)
    word? (if negative then -n else n)

/-- The digits of a fraction with what follows them; `none` when there is no point. -/
def fraction? : Text → Option (Option Text × Text)
  | '.' :: t => do
    let part := t.takeWhile fun c => c.isDigit || c == '_'
    pure (some (← digits? Char.isDigit part), t.drop part.length)
  | t => some (none, t)

/-- The exponent that a text consists of; `none` when the text is empty. -/
def exponent? : Text → Option (Option Int)
  | [] => some none
  | c :: t =>
    if c == 'e' || c == 'E' then do
      let (down, t) := sign t
      let n : Int := ofDigits 10 (← digits? Char.isDigit t)
      pure (some (if down then -n else n))
    else none

/-- A number with a fraction or an exponent. One that is too large is a mistake, unless it is
negative. -/
def float? (t : Text) : Option Toml := do
  let (negative, t) := sign t
  if t == "inf".toList then pure (float (if negative then -1.0 / 0.0 else 1.0 / 0.0))
  else if t == "nan".toList then pure (float (if negative then -(0.0 / 0.0) else 0.0 / 0.0))
  else
    let wholePart := t.takeWhile fun c => c.isDigit || c == '_'
    let whole ← decimal? wholePart
    let (fraction, t) ← fraction? (t.drop wholePart.length)
    let power ← exponent? t
    if fraction.isNone && power.isNone then none
    else
      let fraction := fraction.getD []
      let x := Decimal.toFloat negative
        ⟨ofDigits 10 (whole ++ fraction), power.getD 0 - fraction.length⟩
      if x == 1.0 / 0.0 then none else pure (float x)

/-- A number of exactly `n` digits. -/
def fixedNat? (n : Nat) (t : Text) : Option (Nat × Text) :=
  let ds := t.take n
  if ds.length = n ∧ ds.all Char.isDigit then some (ofDigits 10 ds, t.drop n) else none

def isLeapYear (y : Nat) : Bool := (y % 4 == 0 && y % 100 != 0) || y % 400 == 0

def daysIn (year month : Nat) : Nat :=
  if month = 2 then (if isLeapYear year then 29 else 28)
  else if month = 4 ∨ month = 6 ∨ month = 9 ∨ month = 11 then 30
  else 31

/-- A date. -/
def date? : Reader Text := fun t => do
  let (year, rest) ← fixedNat? 4 t
  let '-' :: rest := rest | none
  let (month, rest) ← fixedNat? 2 rest
  let '-' :: rest := rest | none
  let (day, rest) ← fixedNat? 2 rest
  if 1 ≤ month ∧ month ≤ 12 ∧ 1 ≤ day ∧ day ≤ daysIn year month then pure (t.take 10, rest)
  else none

/-- The fraction of a second, up to billionths and without zeros at its end. -/
def secondFraction (digits : Text) : Text :=
  match ((digits.take 9).reverse.dropWhile (· == '0')).reverse with
  | [] => []
  | kept => '.' :: kept

/-- A time of day, in its normal text. -/
def time? : Reader Text := fun t => do
  let (hour, rest) ← fixedNat? 2 t
  let ':' :: rest := rest | none
  let (minute, rest) ← fixedNat? 2 rest
  let ':' :: rest := rest | none
  let (second, rest) ← fixedNat? 2 rest
  if 24 ≤ hour ∨ 60 ≤ minute ∨ 61 ≤ second then none
  else match rest with
    | '.' :: rest =>
      let fraction := rest.takeWhile Char.isDigit
      if fraction.isEmpty then none
      else pure (t.take 8 ++ secondFraction fraction, rest.drop fraction.length)
    | rest => pure (t.take 8, rest)

/-- An offset from universal time, in its normal text; it may be missing. No offset is negative
that is zero. -/
def offset? : Reader Text
  | [] => some ([], [])
  | c :: t =>
    if c == 'Z' || c == 'z' then some (['Z'], t)
    else if c == '+' || c == '-' then do
      let (hour, rest) ← fixedNat? 2 t
      let ':' :: rest := rest | none
      let (minute, rest) ← fixedNat? 2 rest
      if hour < 24 ∧ minute < 60 then
        pure ((if hour = 0 ∧ minute = 0 then '+' else c) :: t.take 5, rest)
      else none
    else none

/-- The normal text of a date, a time of day, or both. -/
def moment? (t : Text) : Option Text :=
  match date? t with
  | some (date, []) => some date
  | some (date, c :: rest) =>
    if c == 'T' || c == 't' || c == ' ' then do
      let (time, rest) ← time? rest
      let (offset, []) ← offset? rest | none
      pure (date ++ 'T' :: (time ++ offset))
    else none
  | none => do
    let (time, []) ← time? t | none
    pure time

/-- The text of a scalar; a date and a time may have one blank between them. -/
def scalarText (t : Text) : Text :=
  let first := t.takeWhile isScalar
  match date? first, t.drop first.length with
  | some (_, []), ' ' :: c :: rest =>
    if c.isDigit then first ++ ' ' :: (c :: rest).takeWhile isScalar else first
  | _, _ => first

def scalar? (t : Text) : Option Toml :=
  if t == "true".toList then some (boolean true)
  else if t == "false".toList then some (boolean false)
  else ((moment? t).map moment).or ((integer? t).or (float? t))

end Toml
end Mutagen
