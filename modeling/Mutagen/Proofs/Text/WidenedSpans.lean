import Mutagen.Proofs.Text.WholeLines

/-!
# Widened spans

A span is widened to whole lines exactly when nothing but blanks shares these lines with it,
one `;` behind it apart. What is widened this way begins where a line begins and ends where
a line ends, so that deleting it leaves all other lines as they are.
-/
namespace Mutagen
namespace Text

/-! ## Blanks -/

/-- Blanks with at most one `;` among them. -/
def Trailing (x : Text) : Prop := (∀ c ∈ x, isBlank c = true ∨ c = ';') ∧ x.count ';' ≤ 1

theorem trimStart_append {a : Text} (h : ∀ c ∈ a, isBlank c = true) (b : Text) :
    trimStart (a ++ b) = trimStart b :=
  List.dropWhile_append_of_pos h

theorem trim_eq_nil {x : Text} (h : ∀ c ∈ x, isBlank c = true) : trim x = [] := by
  have hstart := trimStart_append h []
  rw [List.append_nil] at hstart
  rw [trim, hstart]
  rfl

/-- Trimming takes the blanks around a character away. -/
theorem trim_append_cons {a b : Text} {c : Char} (ha : ∀ d ∈ a, isBlank d = true)
    (hc : isBlank c = false) (hb : ∀ d ∈ b, isBlank d = true) : trim (a ++ c :: b) = [c] := by
  have hstart : trimStart (a ++ c :: b) = c :: b := by
    rw [trimStart_append ha, trimStart, List.dropWhile_cons_of_neg (by simp [hc])]
  have hend : (b.reverse ++ [c]).dropWhile isBlank = [c] := by
    rw [List.dropWhile_append_of_pos (by simpa using hb),
      List.dropWhile_cons_of_neg (by simp [hc])]
  rw [trim, hstart, trimEnd, List.reverse_cons, hend, List.reverse_singleton]

theorem trim_eq_iff (x : Text) : trim x = [] ∨ trim x = [';'] ↔ Trailing x := by
  have hcount : x.count ';' = (x.filter fun c => !isBlank c).count ';' :=
    (List.count_filter (by decide)).symm
  constructor
  · intro h
    have hsolid : x.filter (fun c => !isBlank c) = [] ∨ x.filter (fun c => !isBlank c) = [';'] := by
      rw [← filter_trim]
      rcases h with h | h <;> rw [h] <;> decide
    constructor
    · intro c hc
      cases hblank : isBlank c with
      | true => exact .inl rfl
      | false =>
        have hmem : c ∈ x.filter fun c => !isBlank c := List.mem_filter.2 ⟨hc, by simp [hblank]⟩
        rcases hsolid with hnil | hone
        · rw [hnil] at hmem
          cases hmem
        · rw [hone] at hmem
          exact .inr (List.mem_singleton.1 hmem)
    · rw [hcount]
      rcases hsolid with hnil | hone
      · rw [hnil]
        decide
      · rw [hone]
        decide
  · rintro ⟨hall, hle⟩
    by_cases hmem : ';' ∈ x
    · obtain ⟨a, b, rfl, ha⟩ := List.eq_append_cons_of_mem hmem
      have hb : ';' ∉ b := by
        rw [List.count_append, List.count_eq_zero.2 ha, List.count_cons_self] at hle
        exact List.count_eq_zero.1 (by omega)
      refine .inr (trim_append_cons ?_ (by decide) ?_)
      · intro c hc
        exact (hall c (by simp [hc])).resolve_right fun heq => ha (heq ▸ hc)
      · intro c hc
        exact (hall c (by simp [hc])).resolve_right fun heq => hb (heq ▸ hc)
    · refine .inl (trim_eq_nil fun c hc => ?_)
      exact (hall c hc).resolve_right fun heq => hmem (heq ▸ hc)

/-! ## The lines of a span -/

variable {t : Text} {s : Span}

namespace Around

variable {lead before after rest : Text} (h : t.Around s lead before after rest)

include h

/-- The lines that the span stands on. -/
theorem slice?_lines : t.slice? (size lead) (size (lead ++ before ++ s.text t ++ after)) =
    some (before ++ s.text t ++ after) :=
  slice?_eq_some_iff.2 ⟨lead, rest, by simpa using h.text_eq, rfl, by simp⟩

theorem contains_lines :
    size lead ≤ s.start ∧ s.stop ≤ size (lead ++ before ++ s.text t ++ after) := by
  rw [← h.start_eq, ← h.stop_eq, size_append, size_append _ after]
  omega

/-- The text of whole lines goes on with a line of its own. -/
theorem closed_lines (hne : rest ≠ []) : Closed (before ++ s.text t ++ after) := by
  intro c hc
  have hlast := h.ends.resolve_left hne
  rw [List.getLast?_append, Option.mem_def.1 hlast, Option.some_or] at hc
  exact (Option.some.inj hc).symm

theorem lines_eq :
    lines t = lines lead ++ lines (before ++ s.text t ++ after) ++ lines rest := by
  have hlines := h.closed_lines
  have htext := h.text_eq
  generalize s.text t = mid at hlines htext ⊢
  have hsplit : t = lead ++ (before ++ mid ++ after ++ rest) := by simpa using htext
  rw [hsplit, lines_append h.closed, List.append_assoc (lines lead)]
  by_cases hne : rest = []
  · rw [hne]
    simp [lines]
  · rw [lines_append (hlines hne)]

/-- Without its lines nothing but the lines around is left. -/
theorem splice_eq :
    t.splice (size lead) (size (lead ++ before ++ s.text t ++ after)) [] = lead ++ rest := by
  have htext := h.text_eq
  generalize s.text t = mid at htext ⊢
  have hsplit : t = lead ++ (before ++ mid ++ after) ++ rest := by simpa using htext
  have hstop : size (lead ++ before ++ mid ++ after) =
      size lead + size (before ++ mid ++ after) := by
    simp only [List.append_assoc, size_append]
  rw [hsplit, hstop, splice_append, List.append_nil]

end Around

theorem trailing_nil : Trailing [] := ⟨nofun, Nat.zero_le 1⟩

/-- A span that takes all of its lines has nothing around it there. -/
theorem Around.eq_nil {lead before after rest : Text} (h : t.Around s lead before after rest)
    (hs : s = ⟨size lead, size (lead ++ before ++ s.text t ++ after)⟩) :
    before = [] ∧ after = [] := by
  have hstart : size (lead ++ before) = size lead := by
    rw [h.start_eq]
    exact congrArg Span.start hs
  have hstop : size (lead ++ before ++ s.text t ++ after) = size (lead ++ before ++ s.text t) := by
    rw [h.stop_eq]
    exact (congrArg Span.stop hs).symm
  rw [size_append] at hstart
  rw [size_append _ after] at hstop
  exact ⟨eq_nil_of_size (by omega), eq_nil_of_size (by omega)⟩

/-- Widening goes over blanks only. A span stands between the start of its first line and the rest
of its last one. It is widened to all of these lines exactly when they have nothing but spaces and
tabs before it and nothing but blanks behind it, one `;` at most among them, and it stays as it is
otherwise. To delete a widened span is to delete these lines, and every other line stays. -/
theorem wholeLines_over_blanks (t : Text) (s : Span) (h : s.Fits t) :
    ∃ lead before after rest, t.Around s lead before after rest ∧
      (t.wholeLines s).contains s = true ∧
      ∃ wide : Span, wide = ⟨size lead, size (lead ++ before ++ s.text t ++ after)⟩ ∧
        (t.wholeLines s = s ∨ t.wholeLines s = wide) ∧
        (t.wholeLines s = wide ↔ (∀ c ∈ before, isIndent c = true) ∧ Trailing after) ∧
        wide.text t = before ++ s.text t ++ after ∧
        t.splice wide.start wide.stop [] = lead ++ rest ∧
        lines t = lines lead ++ lines (wide.text t) ++ lines rest ∧
        lines (lead ++ rest) = lines lead ++ lines rest := by
  obtain ⟨lead, before, after, rest, haround, hstart, hstop⟩ := exists_around h
  have hwhole := haround.wholeLines_eq hstart hstop
  have hcond : (before.all isIndent && (trim after == [] || trim after == [';'])) = true ↔
      (∀ c ∈ before, isIndent c = true) ∧ Trailing after := by
    rw [← trim_eq_iff, Bool.and_eq_true, List.all_eq_true, Bool.or_eq_true, beq_iff_eq, beq_iff_eq]
  have hin := haround.contains_lines
  have htext := text_eq_of_slice? (s := ⟨_, _⟩) haround.slice?_lines
  refine ⟨lead, before, after, rest, haround, ?_, _, rfl, ?_, ?_, htext, haround.splice_eq, ?_,
    lines_append haround.closed rest⟩
  · rw [hwhole]
    split
    · exact Bool.and_eq_true_iff.2 ⟨decide_eq_true hin.1, decide_eq_true hin.2⟩
    · simp [Span.contains]
  · rw [hwhole]
    split
    · exact .inr rfl
    · exact .inl rfl
  · rw [← hcond]
    constructor
    · intro hwide
      by_contra hshared
      rw [hwhole, if_neg hshared] at hwide
      obtain ⟨rfl, rfl⟩ := haround.eq_nil hwide
      exact hshared (hcond.2 ⟨nofun, trailing_nil⟩)
    · intro hblank
      rw [hwhole, if_pos hblank]
  · rw [htext]
    exact haround.lines_eq

/-- An indented statement with a `;` and a blank that is no ASCII character behind it. -/
theorem wholeLines_over_blanks_marked :
    let t : Text := "é;\n \tb ;\u00a0\nc".toList
    let s : Span := ⟨6, 7⟩
    s.Fits t ∧ t.wholeLines s = ⟨4, 12⟩ ∧
      ∃ lead before after rest, t.Around s lead before after rest ∧
        (∀ c ∈ before, isIndent c = true) ∧ Trailing after ∧
        lines (t.splice 4 12 []) = lines lead ++ lines rest := by
  intro t s
  have hfits : s.Fits t := ⟨by decide, by decide, by decide⟩
  have hwidened : t.wholeLines s = ⟨4, 12⟩ := by decide
  obtain ⟨lead, before, after, rest, haround, -, wide, -, hor, hiff, -, hsplice, -, hlines⟩ :=
    wholeLines_over_blanks t s hfits
  have hwide : wide = ⟨4, 12⟩ := by
    rcases hor with hsame | hwide
    · rw [hwidened] at hsame
      exact absurd hsame (by decide)
    · rw [← hwide, hwidened]
  rw [hwide] at hiff hsplice
  obtain ⟨hbefore, hafter⟩ := hiff.1 hwidened
  refine ⟨hfits, hwidened, lead, before, after, rest, haround, hbefore, hafter, ?_⟩
  exact (congrArg lines hsplice).trans hlines

end Text
end Mutagen
