import Mutagen.Proofs.Text.Cut
import Mutagen.Text.Lines

/-!
# Lines of joined texts

Line structure is local: behind a newline, the lines of a text go on as if the text
began there. Taking indentation off is local in the same way, apart from the first
line of a text, which keeps its own.
-/
namespace Mutagen
namespace Text

/-- The text is empty or its last line has its newline. -/
def Closed (t : Text) : Prop := ∀ c ∈ t.getLast?, c = '\n'

theorem closed_nil : Closed [] := by
  intro c hc
  cases hc

theorem closed_append_newline (t : Text) : Closed (t ++ ['\n']) := by
  intro c hc
  simpa using hc.symm

theorem Closed.tail {c : Char} {t : Text} (h : Closed (c :: t)) : Closed t := by
  cases t with
  | nil => exact closed_nil
  | cons d t =>
    intro x hx
    exact h x (by simpa [List.getLast?_cons_cons] using hx)

/-- Only the end of a text matters to whether it is closed. -/
theorem Closed.append_left {t : Text} (h : Closed t) (hne : t ≠ []) (a : Text) :
    Closed (a ++ t) := by
  intro c hc
  apply h
  rw [List.getLast?_append] at hc
  cases ht : t.getLast? with
  | none => exact absurd (List.getLast?_eq_none_iff.1 ht) hne
  | some d => simpa [ht] using hc

theorem lines_eq_nil_iff {t : Text} : lines t = [] ↔ t = [] := by
  constructor
  · intro h
    rw [← flatten_lines t, h]
    rfl
  · rintro rfl
    rfl

/-- A text behind a newline has its lines to itself. -/
theorem lines_append {a : Text} (h : Closed a) (b : Text) :
    lines (a ++ b) = lines a ++ lines b := by
  induction a with
  | nil => rfl
  | cons c a ih =>
    have ih' := ih h.tail
    by_cases hc : c = '\n'
    · simp only [List.cons_append, lines, if_pos hc, ih']
    · have hne : a ≠ [] := by
        rintro rfl
        exact hc (h c rfl)
      simp only [List.cons_append, lines, if_neg hc, ih']
      cases hl : lines a with
      | nil => exact absurd (lines_eq_nil_iff.1 hl) hne
      | cons l ls => rfl

/-- The text with `indent` taken off every line, the first one included. -/
def dedentLines (t indent : Text) : Text := ((lines t).map (stripIndent indent)).flatten

theorem dedentLines_append {a : Text} (h : Closed a) (b indent : Text) :
    dedentLines (a ++ b) indent = dedentLines a indent ++ dedentLines b indent := by
  simp [dedentLines, lines_append h]

/-- Behind a closed text that is not empty no line is the first one. -/
theorem dedent_append {a : Text} (h : Closed a) (hne : a ≠ []) (b indent : Text) :
    dedent (a ++ b) indent = dedent a indent ++ dedentLines b indent := by
  unfold dedent
  rw [lines_append h]
  cases hl : lines a with
  | nil => exact absurd (lines_eq_nil_iff.1 hl) hne
  | cons first rest => simp [dedentLines]

/-- The lines before and behind a part of whole lines are dedented alike, whatever stands in it. -/
theorem dedent_around {head mid tail : Text} (hhead : Closed head)
    (hmid : tail = [] ∨ Closed mid ∧ mid ≠ []) (indent : Text) :
    ∃ x, dedent (head ++ mid ++ tail) indent =
      dedent head indent ++ x ++ dedentLines tail indent := by
  by_cases hne : head = []
  · subst hne
    rcases hmid with rfl | ⟨hclosed, hmidne⟩
    · exact ⟨dedent mid indent, by simp [dedent, dedentLines, lines]⟩
    · refine ⟨dedent mid indent, ?_⟩
      rw [List.nil_append, dedent_append hclosed hmidne]
      rfl
  · refine ⟨dedentLines mid indent, ?_⟩
    rw [List.append_assoc, dedent_append hhead hne, List.append_assoc]
    rcases hmid with rfl | ⟨hclosed, -⟩
    · simp [dedentLines, lines]
    · rw [dedentLines_append hclosed]

/-- The first line of a text, and whether more follows. -/
theorem firstLine_append (t : Text) :
    ∃ rest, t = firstLine t ++ rest ∧
      (rest = [] ∨ ∃ m, firstLine t = m ++ ['\n'] ∧ '\n' ∉ m) := by
  induction t with
  | nil => exact ⟨[], rfl, .inl rfl⟩
  | cons c t ih =>
    rw [firstLine]
    split
    · rename_i hc
      subst hc
      exact ⟨t, rfl, .inr ⟨[], rfl, List.not_mem_nil⟩⟩
    · rename_i hc
      obtain ⟨rest, ht, hrest⟩ := ih
      refine ⟨rest, by rw [List.cons_append, ← ht], ?_⟩
      rcases hrest with rfl | ⟨m, hm, hnot⟩
      · exact .inl rfl
      · refine .inr ⟨c :: m, by rw [hm]; rfl, ?_⟩
        rw [List.mem_cons, not_or]
        exact ⟨fun heq => hc heq.symm, hnot⟩

@[simp] theorem size_reverse (t : Text) : size t.reverse = size t := by
  induction t with
  | nil => rfl
  | cons c t ih => simp [ih, Nat.add_comm]

/-- A line starts at the start of the text or behind a newline, and has none before the offset. -/
theorem exists_lineStart {t : Text} {n : Nat} (h : t.isBoundary n = true) :
    ∃ a m b, t = a ++ m ++ b ∧ size a + size m = n ∧ t.lineStart n = size a ∧ Closed a ∧
      '\n' ∉ m := by
  obtain ⟨before, b, rfl, rfl⟩ := isBoundary_iff.1 h
  refine ⟨(before.reverse.dropWhile (· != '\n')).reverse,
    (before.reverse.takeWhile (· != '\n')).reverse, b, ?_, ?_, ?_, ?_, ?_⟩
  · rw [← List.reverse_append, List.takeWhile_append_dropWhile, List.reverse_reverse]
  · rw [← size_append, ← List.reverse_append, List.takeWhile_append_dropWhile,
      List.reverse_reverse]
  · simp only [lineStart, splitAt?_size_append, size_reverse]
  · intro c hc
    have hhead := List.head?_dropWhile_not (fun c => c != '\n') before.reverse
    rw [List.getLast?_reverse] at hc
    rw [hc] at hhead
    simpa using hhead
  · intro hmem
    have hall := List.all_takeWhile (p := fun c => c != '\n') (l := before.reverse)
    rw [List.all_eq_true] at hall
    simpa using hall '\n' (List.mem_reverse.1 hmem)

/-- A line stops behind the first newline from the offset on, or at the end of the text. -/
theorem exists_lineStop {t : Text} {n : Nat} (h : t.isBoundary n = true) :
    ∃ a m b, t = a ++ m ++ b ∧ size a = n ∧ t.lineStop n = size a + size m ∧
      (b = [] ∨ ∃ line, m = line ++ ['\n'] ∧ '\n' ∉ line) := by
  obtain ⟨a, behind, rfl, rfl⟩ := isBoundary_iff.1 h
  obtain ⟨b, hbehind, hend⟩ := firstLine_append behind
  refine ⟨a, firstLine behind, b, ?_, rfl, ?_, hend⟩
  · rw [List.append_assoc, ← hbehind]
  · simp only [lineStop, splitAt?_size_append]

end Text
end Mutagen
