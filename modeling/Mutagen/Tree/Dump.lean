import Mutagen.Language.Basic
import Mutagen.Path
import Mutagen.Tree.Rows

/-!
# Tree dumps

A dump holds the tree of a source text as a parser printed it. Its first line
names the language; every other line is a row of the tree: depth, kind, flags,
start, end and field, with tabs between them. Backslash, tab and line break are
written `\\`, `\t` and `\n`. The flags are a sum: 1 for named, 2 for extra, 4 for
a mistake, 8 for a missing token.
-/
namespace Mutagen
namespace Dump

/-- Takes the escapes out of a text; nothing when one of them is unknown. -/
def unescape? : Text → Option Text
  | [] => some []
  | '\\' :: '\\' :: t => (unescape? t).map ('\\' :: ·)
  | '\\' :: 't' :: t => (unescape? t).map ('\t' :: ·)
  | '\\' :: 'n' :: t => (unescape? t).map ('\n' :: ·)
  | '\\' :: _ => none
  | c :: t => (unescape? t).map (c :: ·)

def nat? (t : Text) : Option Nat :=
  if t.isEmpty || !t.all Char.isDigit then none
  else some (t.foldl (fun n c => 10 * n + (c.toNat - 48)) 0)

def row? (line : Text) : Option Row :=
  match Path.splitOn '\t' line with
  | [depth, kind, flags, start, stop, field] => do
    let f ← nat? flags
    let field ← unescape? field
    pure ⟨← nat? depth, {
      kind := String.ofList (← unescape? kind)
      named := f % 2 == 1
      extra := f / 2 % 2 == 1
      error := f / 4 % 2 == 1
      missing := f / 8 % 2 == 1
      span := ⟨← nat? start, ← nat? stop⟩
      field := if field.isEmpty then none else some (String.ofList field) }⟩
  | _ => none

/-- The language and the tree of a dump. -/
def read? (t : Text) : Option (Language × Node) :=
  match (Path.splitOn '\n' t).filter (· != []) with
  | name :: lines => do
    let l ← Language.ofName? (String.ofList name)
    let rows ← lines.mapM row?
    pure (l, ← Node.ofRows? rows)
  | [] => none

end Dump
end Mutagen
