import Mutagen.Text.Blank
import Mutagen.Span

/-!
# Lines and indentation

A line runs up to and including its newline; the last one may lack it. The
functions here find the line around an offset, its indentation, and the span to
delete so that a statement alone on its lines takes them with it.
-/
namespace Mutagen
namespace Text

/-- The lines, each with its newline. -/
def lines : Text → List Text
  | [] => []
  | c :: t =>
    if c = '\n' then ['\n'] :: lines t
    else match lines t with
      | [] => [[c]]
      | l :: ls => (c :: l) :: ls

@[simp] theorem flatten_lines (t : Text) : (lines t).flatten = t := by
  fun_induction lines t with
  | case1 => rfl
  | case2 t ih => simp [ih]
  | case3 c t _ h ih =>
    rw [h] at ih
    simp [← ih]
  | case4 c t _ l ls h ih =>
    rw [h] at ih
    simpa using ih

/-- The first line with its newline, all of the text when there is none. -/
def firstLine : Text → Text
  | [] => []
  | c :: t => if c = '\n' then ['\n'] else c :: firstLine t

/-- Number of newlines. -/
def newlines (t : Text) : Nat := t.count '\n'

/-- Number of newlines before a position, the row that holds it. -/
def row (t : Text) (offset : Nat) : Nat :=
  match splitAt? offset t with
  | some (before, _) => newlines before
  | none => newlines t

/-- Offset of the start of the line around `offset`; 0 when it is no position. -/
def lineStart (t : Text) (offset : Nat) : Nat :=
  match splitAt? offset t with
  | some (before, _) => size (before.reverse.dropWhile (· != '\n'))
  | none => 0

/-- Offset just past the line around `offset`; the end when it is no position. -/
def lineStop (t : Text) (offset : Nat) : Nat :=
  match splitAt? offset t with
  | some (before, rest) => size before + size (firstLine rest)
  | none => size t

/-- Leading spaces and tabs of the line around `offset`. -/
def lineIndent (t : Text) (offset : Nat) : Text :=
  match behind? (lineStart t offset) t with
  | some line => line.takeWhile isIndent
  | none => []

/-- Widens a span to whole lines when nothing but blanks, and at most one `;` behind it,
shares them. -/
def wholeLines (t : Text) (span : Span) : Span :=
  let start := lineStart t span.start
  let stop := lineStop t span.stop
  let before := slice t start span.start
  let after := trim (slice t span.stop stop)
  if before.all isIndent && (after == [] || after == [';']) then ⟨start, stop⟩ else span

/-- Drops at most `n` leading spaces and tabs. -/
def dropIndent : Nat → Text → Text
  | 0, t => t
  | _ + 1, [] => []
  | n + 1, c :: t => if isIndent c then dropIndent n t else c :: t

/-- A line without the indentation `indent`, or without as much of its own. -/
def stripIndent (indent line : Text) : Text :=
  match dropLead? indent line with
  | some rest => rest
  | none => dropIndent (size indent) line

/-- The text with `indent` taken off every line after the first. -/
def dedent (t indent : Text) : Text :=
  match lines t with
  | [] => []
  | first :: rest => first ++ (rest.map (stripIndent indent)).flatten

/-- The unit of indentation: the narrowest run of leading spaces, 1 under tabs, 4 without any.
Blank lines and continued block comments do not count. -/
def indentUnit (t : Text) : Nat :=
  let telling := (lines t).filter fun l =>
    match trimStart l with
    | [] => false
    | c :: _ => c != '*'
  let (tabbed, spaced) := telling.partition fun l => l.head? == some '\t'
  match ((spaced.map fun l => (l.takeWhile (· == ' ')).length).filter (0 < ·)).min? with
  | some width => width
  | none => if tabbed.isEmpty then 4 else 1

end Text
end Mutagen
