import Mutagen.Proofs.Text.Lines
import Mutagen.Proofs.Text.Solid

/-!
# Dedented lines

Dedenting works line by line: behind each newline it drops leading spaces and tabs, as many as the
indentation has or all that there are, and it touches neither the first line nor a newline.
-/
namespace Mutagen
namespace Text

/-- A text is a last line, or a line with its newline before another text. -/
theorem induction_lines {P : Text → Prop} (last : ∀ line, '\n' ∉ line → P line)
    (step : ∀ line rest, '\n' ∉ line → P rest → P (line ++ '\n' :: rest)) (t : Text) : P t := by
  by_cases h : '\n' ∈ t
  · obtain ⟨line, rest, ht, hline⟩ := List.eq_append_cons_of_mem h
    rw [ht]
    exact step line rest hline (induction_lines last step rest)
  · exact last t h
termination_by t.length
decreasing_by
  rw [ht, List.length_append, List.length_cons]
  omega

section Split

variable {line : Text} (hline : '\n' ∉ line)

include hline

theorem splitOn_append_newline (rest : Text) :
    (line ++ '\n' :: rest).splitOn '\n' = line :: rest.splitOn '\n' := by
  have hsplit : (line ++ '\n' :: rest).splitOn '\n' = line.splitOn '\n' ++ rest.splitOn '\n' :=
    List.splitOnP_append_cons line rest rfl
  rw [hsplit, List.splitOn_eq_singleton hline, List.singleton_append]

theorem lines_append_newline : lines (line ++ ['\n']) = [line ++ ['\n']] := by
  induction line with
  | nil => rfl
  | cons c line ih =>
    rw [List.mem_cons, not_or] at hline
    rw [List.cons_append, lines, if_neg (Ne.symm hline.1), ih hline.2]

theorem lines_of_notMem (hne : line ≠ []) : lines line = [line] := by
  induction line with
  | nil => exact absurd rfl hne
  | cons c line ih =>
    rw [List.mem_cons, not_or] at hline
    rw [lines, if_neg (Ne.symm hline.1)]
    cases line with
    | nil => rfl
    | cons d line => rw [ih hline.2 (List.cons_ne_nil d line)]

theorem dedent_of_notMem (indent : Text) : dedent line indent = line := by
  by_cases hne : line = []
  · rw [hne]
    rfl
  · rw [dedent, lines_of_notMem hline hne]
    exact List.append_nil line

theorem dedent_append_newline (rest indent : Text) :
    dedent (line ++ '\n' :: rest) indent = line ++ '\n' :: dedentLines rest indent := by
  have hfirst : dedent (line ++ ['\n']) indent = line ++ ['\n'] := by
    rw [dedent, lines_append_newline hline]
    exact List.append_nil _
  rw [List.append_cons, dedent_append (closed_append_newline line) (by simp), hfirst,
    List.append_assoc, List.singleton_append]

end Split

/-- A text has one line more than newlines. -/
theorem length_splitOn (t : Text) : (t.splitOn '\n').length = t.newlines + 1 := by
  induction t using induction_lines with
  | last line hline =>
    rw [List.splitOn_eq_singleton hline, newlines, List.count_eq_zero.2 hline]
    rfl
  | step line rest hline ih =>
    rw [splitOn_append_newline hline, List.length_cons, ih, newlines, newlines, List.count_append,
      List.count_eq_zero.2 hline, List.count_cons_self, Nat.zero_add]

/-! ## Dropped indentation -/

@[simp] theorem dropIndent_nil (n : Nat) : dropIndent n [] = [] := by cases n <;> rfl

/-- As much of the leading indentation is dropped as there is, and `n` characters at most. -/
theorem dropIndent_eq_drop (n : Nat) (line : Text) :
    dropIndent n line = line.drop (min n (line.takeWhile isIndent).length) := by
  induction n generalizing line with
  | zero => simp [dropIndent]
  | succ n ih =>
    cases line with
    | nil => simp
    | cons c line =>
      rw [dropIndent]
      split
      · rename_i hc
        rw [List.takeWhile_cons_of_pos hc, List.length_cons, Nat.add_min_add_right,
          List.drop_succ_cons, ih]
      · rename_i hc
        simp [hc]

theorem dropIndent_append_newline (n : Nat) (line rest : Text) :
    dropIndent n (line ++ '\n' :: rest) = dropIndent n line ++ '\n' :: rest := by
  induction n generalizing line with
  | zero => rfl
  | succ n ih =>
    cases line with
    | nil => rfl
    | cons c line =>
      rw [List.cons_append, dropIndent, dropIndent, ih]
      split <;> rfl

theorem notMem_dropIndent {c : Char} {line : Text} (h : c ∉ line) (n : Nat) :
    c ∉ dropIndent n line := by
  rw [dropIndent_eq_drop]
  exact fun hmem => h (List.mem_of_mem_drop hmem)

theorem utf8Size_of_isIndent {c : Char} (hc : isIndent c = true) : c.utf8Size = 1 := by
  simp only [isIndent, Bool.or_eq_true, beq_iff_eq] at hc
  rcases hc with rfl | rfl <;> rfl

section Indent

variable {indent : Text} (hindent : ∀ c ∈ indent, isIndent c = true)

include hindent

theorem size_of_isIndent : size indent = indent.length := by
  induction indent with
  | nil => rfl
  | cons c indent ih =>
    rw [size_cons, utf8Size_of_isIndent (hindent c List.mem_cons_self),
      ih fun d hd => hindent d (List.mem_cons_of_mem c hd), List.length_cons, Nat.add_comm]

theorem dropIndent_length_append (rest : Text) :
    dropIndent indent.length (indent ++ rest) = rest := by
  induction indent with
  | nil => rfl
  | cons c indent ih =>
    rw [List.cons_append, List.length_cons, dropIndent, if_pos (hindent c List.mem_cons_self)]
    exact ih fun d hd => hindent d (List.mem_cons_of_mem c hd)

/-- A line that begins with all of the indentation is no case of its own. -/
theorem stripIndent_eq_dropIndent (line : Text) :
    stripIndent indent line = dropIndent indent.length line := by
  unfold stripIndent
  split
  · rename_i rest hrest
    rw [eq_append_of_dropLead? hrest, dropIndent_length_append hindent]
  · rw [size_of_isIndent hindent]

theorem dedentLines_of_notMem {line : Text} (hline : '\n' ∉ line) :
    dedentLines line indent = dropIndent indent.length line := by
  by_cases hne : line = []
  · rw [hne, dropIndent_nil]
    rfl
  · rw [dedentLines, lines_of_notMem hline hne, List.map_singleton, List.flatten_singleton,
      stripIndent_eq_dropIndent hindent]

theorem dedentLines_append_newline {line : Text} (hline : '\n' ∉ line) (rest : Text) :
    dedentLines (line ++ '\n' :: rest) indent =
      dropIndent indent.length line ++ '\n' :: dedentLines rest indent := by
  rw [List.append_cons, dedentLines_append (closed_append_newline line), dedentLines,
    lines_append_newline hline, List.map_singleton, List.flatten_singleton,
    stripIndent_eq_dropIndent hindent, dropIndent_append_newline, List.append_assoc,
    List.singleton_append]

/-- Where no line is the first one, the lines lose their indentation one by one. -/
theorem splitOn_dedentLines (t : Text) :
    (dedentLines t indent).splitOn '\n' = (t.splitOn '\n').map (dropIndent indent.length) := by
  induction t using induction_lines with
  | last line hline =>
    rw [dedentLines_of_notMem hindent hline, List.splitOn_eq_singleton hline,
      List.splitOn_eq_singleton (notMem_dropIndent hline _), List.map_singleton]
  | step line rest hline ih =>
    rw [dedentLines_append_newline hindent hline,
      splitOn_append_newline (notMem_dropIndent hline _), splitOn_append_newline hline, ih,
      List.map_cons]

/-- The first line of a text stays when it is dedented, and the others lose their indentation. -/
theorem splitOn_dedent (t : Text) :
    ∃ first rest, t.splitOn '\n' = first :: rest ∧
      (dedent t indent).splitOn '\n' = first :: rest.map (dropIndent indent.length) := by
  induction t using induction_lines with
  | last line hline =>
    rw [dedent_of_notMem hline, List.splitOn_eq_singleton hline]
    exact ⟨line, [], rfl, rfl⟩
  | step line rest hline _ =>
    rw [dedent_append_newline hline, splitOn_append_newline hline, splitOn_append_newline hline,
      splitOn_dedentLines hindent]
    exact ⟨line, _, rfl, rfl⟩

theorem newlines_dedent (t : Text) : newlines (dedent t indent) = newlines t := by
  obtain ⟨first, rest, hraw, hcode⟩ := splitOn_dedent hindent t
  have hlength := length_splitOn (dedent t indent)
  rw [hcode, List.length_cons, List.length_map, ← List.length_cons (a := first), ← hraw,
    length_splitOn] at hlength
  omega

end Indent

end Text
end Mutagen
