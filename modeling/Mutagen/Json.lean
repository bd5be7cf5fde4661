import Mutagen.Number.Decimal

/-!
# JSON documents

Reports are written as JSON: compact, or with two spaces per level. Members keep
their order, and characters beyond ASCII stand as they are.
-/
namespace Mutagen

inductive Json where
  | null
  | bool (b : Bool)
  | int (n : Int)
  | float (x : Float)
  | text (t : List Char)
  | array (items : List Json)
  | object (members : List (String × Json))

namespace Json

def string (s : String) : Json := text s.toList

def nat (n : Nat) : Json := int n

def strings (l : List String) : Json := array (l.map string)

def ofOption {α : Type} (f : α → Json) : Option α → Json
  | some a => f a
  | none => null

def hexDigit (n : Nat) : Char := if n < 10 then Char.ofNat (48 + n) else Char.ofNat (87 + n)

/-- A character inside quotes: quotes, backslashes and control characters are escaped. -/
def escape (c : Char) : List Char :=
  if c = '"' then "\\\"".toList
  else if c = '\\' then "\\\\".toList
  else if c = '\n' then "\\n".toList
  else if c = '\r' then "\\r".toList
  else if c = '\t' then "\\t".toList
  else if c.toNat = 8 then "\\b".toList
  else if c.toNat = 12 then "\\f".toList
  else if c.toNat < 32 then
    "\\u00".toList ++ [hexDigit (c.toNat / 16), hexDigit (c.toNat % 16)]
  else [c]

def quote (t : List Char) : List Char := '"' :: (t.flatMap escape ++ ['"'])

/-- A finite number with the fewest digits: with a fraction up to sixteen places before the
point and four zeros behind it, and with an exponent beyond. -/
def number (x : Float) : List Char :=
  match Binary64.ofFloat x with
  | .nan | .infinite _ => "null".toList
  | .finite negative m q =>
    let d := Decimal.shortest m q
    let digits := Decimal.digitText d.digits
    let point := digits.length + d.exponent
    (if negative then ['-'] else []) ++
      if m = 0 then "0.0".toList
      else if 0 ≤ d.exponent && decide (point ≤ 16) then Decimal.positional d ++ ".0".toList
      else if decide (-5 < point) && decide (point ≤ 16) then Decimal.positional d
      else
        (match digits with
          | [c] => [c]
          | c :: cs => c :: '.' :: cs
          | [] => []) ++ 'e' :: (toString (point - 1)).toList

/-- Line break and indentation of a level, absent when compact. -/
def newline (pretty : Bool) (level : Nat) : List Char :=
  if pretty then '\n' :: List.replicate (2 * level) ' ' else []

mutual

def render (pretty : Bool) (level : Nat) : Json → List Char
  | null => "null".toList
  | bool b => (if b then "true" else "false").toList
  | int n => (toString n).toList
  | float x => number x
  | text t => quote t
  | array [] => "[]".toList
  | array (j :: js) =>
    '[' :: (newline pretty (level + 1) ++ render pretty (level + 1) j ++
      renderItems pretty (level + 1) js ++ newline pretty level ++ [']'])
  | object [] => "\x7b\x7d".toList
  | object ((k, j) :: ms) =>
    '\x7b' :: (newline pretty (level + 1) ++ quote k.toList ++
      (if pretty then ": " else ":").toList ++
      render pretty (level + 1) j ++ renderMembers pretty (level + 1) ms ++
      newline pretty level ++ ['\x7d'])

def renderItems (pretty : Bool) (level : Nat) : List Json → List Char
  | [] => []
  | j :: js => ',' :: (newline pretty level ++ render pretty level j ++ renderItems pretty level js)

def renderMembers (pretty : Bool) (level : Nat) : List (String × Json) → List Char
  | [] => []
  | (k, j) :: ms =>
    ',' :: (newline pretty level ++ quote k.toList ++ (if pretty then ": " else ":").toList ++
      render pretty level j ++ renderMembers pretty level ms)

end

def compact (j : Json) : String := String.ofList (render false 0 j)

def pretty (j : Json) : String := String.ofList (render true 0 j)

end Json
end Mutagen
