import Mutagen.Proofs.Entity.Extraction
import Mutagen.Proofs.Text.Dedent
import Mutagen.Proofs.Tree.Nesting

/-!
# Rows of an entity

The rows of an entity are counted in the file, from the ends of its span, and its text is dedented
by the indentation of the line that it starts on. Both agree: there are as many newlines in the text
as rows behind the first one, and each line of the text is a line of the file.
-/
namespace Mutagen

namespace Text

theorem newlines_append (a b : Text) : newlines (a ++ b) = newlines a + newlines b :=
  List.count_append

theorem row_size_append (a b : Text) : row (a ++ b) (size a) = newlines a := by
  rw [row, splitAt?_size_append]

/-- The rows of the ends of a span are as far apart as there are newlines in it. -/
theorem row_of_fits {source : Text} {s : Span} (h : s.Fits source) :
    source.row s.stop = source.row s.start + newlines (s.text source) ∧
      source.row s.stop ≤ newlines source := by
  obtain ⟨before, behind, hsource, hstart, hstop⟩ := slice?_eq_some_iff.1 h.slice?
  generalize s.text source = raw at *
  have hrowStart : source.row s.start = newlines before := by
    rw [hsource, ← hstart, List.append_assoc, row_size_append]
  have hrowStop : source.row s.stop = newlines (before ++ raw) := by
    rw [hsource, ← hstop, ← size_append, row_size_append]
  rw [hrowStart, hrowStop, hsource, newlines_append (before ++ raw), newlines_append]
  omega

end Text

namespace Dialect

/-- The rows of an extracted entity are rows of its file, in order, and its text has as many
newlines as it has rows behind the first one. Line by line the text is the one under the span, the
first line without a change and the others without some of the spaces and tabs that they begin
with: all of them, or as many as the indentation has. -/
theorem rows_and_lines_of_extract (l : Language) (file : SourceFile) (limit : Option Nat)
    {e : Entity} (he : e ∈ l.dialect.extract file limit) (hfit : e.span.Fits file.source) :
    1 ≤ e.lineStart ∧ e.lineStart ≤ e.lineEnd ∧ e.lineEnd ≤ 1 + file.source.newlines ∧
      e.code.newlines = e.lineEnd - e.lineStart ∧
      ∀ k, (e.code.splitOn '\n')[k]? = (e.raw.splitOn '\n')[k]?.map fun line =>
        if k = 0 then line
        else line.drop (min e.indent.length (line.takeWhile isIndent).length) := by
  obtain ⟨s, kind, -, -, hbuild⟩ := l.dialect.mem_extract file he
  have hindent : ∀ c ∈ e.indent, isIndent c = true := by
    rw [hbuild]
    exact fun c hc => Text.isIndent_of_mem_lineIndent hc
  have hstart : e.lineStart = file.source.row e.span.start + 1 := by rw [hbuild]; rfl
  have hend : e.lineEnd = file.source.row e.span.stop + 1 := by rw [hbuild]; rfl
  have hraw : e.raw = e.span.text file.source := by rw [hbuild]; rfl
  have hcode : e.code = Text.dedent e.raw e.indent := by rw [hbuild]; rfl
  obtain ⟨hrows, hlast⟩ := Text.row_of_fits hfit
  have hnewlines := Text.newlines_dedent hindent e.raw
  rw [← hraw] at hrows
  rw [← hcode] at hnewlines
  refine ⟨by omega, by omega, by omega, by omega, fun k => ?_⟩
  obtain ⟨first, rest, hlines, hdedented⟩ := Text.splitOn_dedent hindent e.raw
  rw [hcode, hlines, hdedented, funext (Text.dropIndent_eq_drop e.indent.length)]
  cases k with
  | zero => rfl
  | succ k => simp

/-- A function behind a tab and a space, with an empty line, a line that begins with two spaces and
two kinds of newlines. -/
def raggedText : Text := "//\n\t fn f() \x7b\r\n\n  a;\n\t \tb;\n\t \x7d\n".toList

/-- The tree of this function, without its statements. -/
def raggedTree : Node :=
  .ofSpan "source_file" true none 0 31 [
    .ofSpan "function_item" true none 5 30 [
      .ofSpan "identifier" true (some "name") 8 9 [],
      .ofSpan "parameters" true (some "parameters") 9 11 [],
      .ofSpan "block" true (some "body") 12 30 []]]

/-- The text of this function has the four newlines of its rows, and no line of it loses more than a
tab and a space. -/
theorem rows_and_lines_of_extract_ragged :
    ∃ e ∈ rust.extract ⟨"f.rs", raggedText, raggedTree⟩ none,
      e.lineStart = 2 ∧ e.lineEnd = 6 ∧ e.code.newlines = 4 ∧
        (e.code.splitOn '\n')[2]? = some "a;".toList ∧
        (e.code.splitOn '\n')[3]? = some "\tb;".toList := by
  have hfound : ∃ e ∈ rust.extract ⟨"f.rs", raggedText, raggedTree⟩ none,
      e.lineStart = 2 ∧ e.lineEnd = 6 ∧ e.span = ⟨5, 30⟩ ∧ e.indent = "\t ".toList ∧
        (e.raw.splitOn '\n')[2]? = some "  a;".toList ∧
        (e.raw.splitOn '\n')[3]? = some "\t \tb;".toList := by
    decide +kernel
  obtain ⟨e, he, hstart, hend, hspan, hindent, hshort, hlong⟩ := hfound
  have hfit : e.span.Fits raggedText := by
    rw [hspan]
    exact ⟨by decide, by decide, by decide⟩
  obtain ⟨-, -, -, hnewlines, hlines⟩ :=
    rows_and_lines_of_extract .rust ⟨"f.rs", raggedText, raggedTree⟩ none he hfit
  rw [hstart, hend] at hnewlines
  refine ⟨e, he, hstart, hend, hnewlines, ?_, ?_⟩
  · rw [hlines, hshort, hindent]
    rfl
  · rw [hlines, hlong, hindent]
    rfl

end Dialect
end Mutagen
