import Mutagen.Number.Decimal
import Mutagen.Toml.Lexical

/-!
# Writing documents

A document is written table by table, each under a header and after a blank
line. Arrays of two and more items take a line per item.
-/
namespace Mutagen
namespace Toml

/-- The forms of a string: on one line or on several, with escapes or without. -/
structure StringForm where
  multiline : Bool
  verbatim : Bool
  deriving DecidableEq, Repr

/-- The longest run of a character after a run of `run`, where the longest so far is `longest`. -/
def runsAfter (q : Char) (run longest : Nat) : Text → Nat
  | [] => max run longest
  | c :: t => if c == q then runsAfter q (run + 1) longest t else runsAfter q 0 (max run longest) t

/-- The length of the longest run of a character. -/
def longestRun (q : Char) (t : Text) : Nat := runsAfter q 0 0 t

namespace StringForm

/-- The first form that a text fits into: in double quotes without an escape, in single quotes,
and both on several lines with quotes at most in pairs. Any text fits into double quotes when
escapes are used. -/
def of (t : Text) : StringForm :=
  let codes := t.any fun c => isControl c && c != '\n'
  let newline := t.contains '\n'
  if codes then ⟨newline, false⟩
  else if !newline && !t.contains '\\' && !t.contains '"' then ⟨false, false⟩
  else if !newline && !t.contains '\'' then ⟨false, true⟩
  else if !t.contains '\\' && decide (longestRun '"' t < 3) then ⟨true, false⟩
  else if longestRun '\'' t < 3 then ⟨true, true⟩
  else ⟨newline, false⟩

/-- The form of a key, which is on one line. -/
def ofKey (t : Text) : StringForm :=
  ⟨false, (t.contains '\\' || t.contains '"') && !t.any isControl && !t.contains '\''⟩

/-- What stands around a text. -/
def delimiter (f : StringForm) : Text :=
  List.replicate (if f.multiline then 3 else 1) (if f.verbatim then '\'' else '"')

end StringForm

def hexUpper (n : Nat) : Char := if n < 10 then Char.ofNat (48 + n) else Char.ofNat (55 + n)

def escapeChar (multiline : Bool) (c : Char) : Text :=
  if c = '\\' then "\\\\".toList
  else if c = '\n' then (if multiline then ['\n'] else "\\n".toList)
  else if c = '\r' then "\\r".toList
  else if c = '\t' then "\\t".toList
  else if c.toNat = 8 then "\\b".toList
  else if c.toNat = 12 then "\\f".toList
  else if isControl c then "\\u00".toList ++ [hexUpper (c.toNat / 16), hexUpper (c.toNat % 16)]
  else [c]

/-- A text with escapes. On several lines two double quotes may stand for themselves in a row;
`run` of them come before the text. -/
def escapeText (multiline : Bool) (run : Nat) : Text → Text
  | [] => []
  | c :: t =>
    if c = '"' then
      if multiline && decide (run < 2) then '"' :: escapeText multiline (run + 1) t
      else '\\' :: '"' :: escapeText multiline 0 t
    else escapeChar multiline c ++ escapeText multiline 0 t

/-- A text over several lines starts on a line of its own. -/
def writeString (form : StringForm) (t : Text) : Text :=
  form.delimiter ++ (if form.multiline && t.contains '\n' then ['\n'] else []) ++
    (if form.verbatim then t else escapeText form.multiline 0 t) ++ form.delimiter

/-- A key, in quotes when it needs them. -/
def writeKey (k : String) : Text :=
  let t := k.toList
  if t != [] && t.all isBareKey then t else writeString (.ofKey t) t

/-- The fewest digits, always with a fraction. -/
def writeFloat (x : Float) : Text :=
  match Binary64.ofFloat x with
  | .nan => "nan".toList
  | .infinite negative => (if negative then "-inf" else "inf").toList
  | .finite _ _ _ =>
    let t := Decimal.plain x
    if t.contains '.' then t else t ++ ".0".toList

mutual

/-- A value on the right of a key. -/
def writeValue : Toml → Text
  | string t => writeString (.of t) t
  | integer n => (toString n).toList
  | float x => writeFloat x
  | boolean b => (if b then "true" else "false").toList
  | moment t => t
  | array [] => "[]".toList
  | array [v] => '[' :: (writeValue v ++ [']'])
  | array (v :: vs) => "[\n".toList ++ writeItems (v :: vs) ++ [']']
  | table entries => "\x7b ".toList ++ writePairs entries ++ " \x7d".toList

/-- Items of an array, a line each. -/
def writeItems : List Toml → Text
  | [] => []
  | v :: vs => "    ".toList ++ writeValue v ++ ",\n".toList ++ writeItems vs

/-- Pairs of a table in braces. -/
def writePairs : List (String × Toml) → Text
  | [] => []
  | [(k, v)] => writeKey k ++ " = ".toList ++ writeValue v
  | (k, v) :: e :: rest =>
    writeKey k ++ " = ".toList ++ writeValue v ++ ", ".toList ++ writePairs (e :: rest)

end

def isTable : Toml → Bool
  | table _ => true
  | _ => false

/-- The pairs of a table that are not tables, a line each. -/
def writeLines (entries : List (String × Toml)) : Text :=
  (entries.filter fun e => !isTable e.2).flatMap fun (k, v) =>
    writeKey k ++ " = ".toList ++ writeValue v ++ ['\n']

def writeHeader (path : List Text) : Text :=
  '[' :: ((".".toList).intercalate path ++ "]\n".toList)

mutual

/-- The table at a path and the tables below it, each as a block of lines. A table that holds
nothing but tables has no header of its own. -/
def blocks (path : List Text) : Toml → List Text
  | table entries =>
    (if entries.isEmpty || entries.any (fun e => !isTable e.2) then
      [writeHeader path ++ writeLines entries] else []) ++ blocksBelow path entries
  | _ => []

def blocksBelow (path : List Text) : List (String × Toml) → List Text
  | [] => []
  | (k, v) :: rest => blocks (path ++ [writeKey k]) v ++ blocksBelow path rest

end

/-- Writes a document. -/
def write : Toml → Text
  | table entries =>
    let head := writeLines entries
    (['\n'] : Text).intercalate ((if head.isEmpty then [] else [head]) ++ blocksBelow [] entries)
  | v => writeValue v

end Toml
end Mutagen
