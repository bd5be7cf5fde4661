import Mutagen.Proofs.Text.Lines
import Mutagen.Proofs.Text.Solid

/-!
# Whole lines

A span that is widened to whole lines gains indentation before it, and blanks and at most
one `;` behind it. So it never reaches a text that begins and ends with other characters.
When two such texts are both widened, the newline that ends the lines of the first one is
in front of the lines of the second one.
-/
namespace Mutagen
namespace Text

/-- A character that stands partly in a slice is a character of the slice. -/
theorem mem_of_slice? {t m : Text} {i j k : Nat} {c : Char} (h : t.slice? i j = some m)
    (hc : t.slice? k (k + c.utf8Size) = some [c]) (hi : i < k + c.utf8Size) (hj : k < j) :
    c ∈ m := by
  obtain ⟨a, b, rfl, rfl, rfl⟩ := slice?_eq_some_iff.1 h
  obtain ⟨p, q, hcut, rfl, -⟩ := slice?_eq_some_iff.1 hc
  rw [List.append_assoc, List.append_assoc] at hcut
  -- no cut of the text is inside the character
  have hle : a.size ≤ p.size := by
    by_contra hlt
    obtain ⟨x, rfl, hx⟩ := append_eq_append_of_le hcut.symm (by omega)
    cases x with
    | nil => simp at hlt
    | cons d x =>
      cases hx
      simp only [size_append, size_cons] at hi
      omega
  obtain ⟨x, rfl, hx⟩ := append_eq_append_of_le hcut hle
  rw [size_append] at hj
  obtain ⟨y, rfl, hy⟩ := append_eq_append_of_le hx.symm (by omega)
  cases y with
  | nil => simp at hj
  | cons d y =>
    cases hy
    simp

theorem slice?_self {t : Text} {n : Nat} (h : t.isBoundary n = true) : t.slice? n n = some [] := by
  obtain ⟨a, b, ht, ha⟩ := isBoundary_iff.1 h
  exact slice?_eq_some_iff.2 ⟨a, b, by simp [ht], ha, by simpa using ha⟩

/-- Trimming takes nothing but blanks away. -/
theorem filter_trim (t : Text) :
    (trim t).filter (fun c => !isBlank c) = t.filter fun c => !isBlank c := by
  have hstart : ∀ x : Text, (x.dropWhile isBlank).filter (fun c => !isBlank c) =
      x.filter fun c => !isBlank c := by
    intro x
    induction x with
    | nil => rfl
    | cons c x ih =>
      rw [List.dropWhile_cons]
      split
      · rename_i hc
        rw [ih, List.filter_cons_of_neg (by simp [hc])]
      · rfl
  rw [trim, trimEnd, List.filter_reverse, hstart, List.filter_reverse, List.reverse_reverse,
    trimStart, hstart]

/-- The text begins and ends with characters that are not blank, and begins with no `;`. -/
structure Firm (t : Text) : Prop where
  first : ∃ c ∈ t.head?, isBlank c = false ∧ c ≠ ';'
  last : ∃ c ∈ t.getLast?, isBlank c = false

theorem firm_iff {t : Text} : t.Firm ↔
    t.head?.any (fun c => !isBlank c && c != ';') = true ∧
      t.getLast?.any (fun c => !isBlank c) = true := by
  simp only [Option.any_eq_true, Bool.and_eq_true, Bool.not_eq_true', bne_iff_ne]
  exact ⟨fun h => ⟨h.first, h.last⟩, fun h => ⟨h.1, h.2⟩⟩

-- through Booleans, so that the two characters are looked at and not all characters gone through
instance (t : Text) : Decidable t.Firm := decidable_of_iff _ firm_iff.symm

end Text

namespace Span

variable {t : Text} {s x : Span}

/-- A span that covers some text is a run of characters. -/
theorem slice?_of_text_ne_nil (h : s.text t ≠ []) : t.slice? s.start s.stop = some (s.text t) := by
  cases hslice : t.slice? s.start s.stop with
  | some m => rw [Text.text_eq_of_slice? hslice]
  | none =>
    rw [Span.text, Text.slice, hslice] at h
    exact absurd rfl h

theorem fits_of_text_ne_nil (h : s.text t ≠ []) : s.Fits t := by
  have hslice := slice?_of_text_ne_nil h
  obtain ⟨hstart, hstop⟩ := Text.isBoundary_of_slice? hslice
  obtain ⟨a, b, -, ha, hb⟩ := Text.slice?_eq_some_iff.1 hslice
  exact ⟨by omega, hstart, hstop⟩

/-- The character that a span begins with. -/
theorem first_of_head? {c : Char} (h : c ∈ (s.text t).head?) :
    t.slice? s.start (s.start + c.utf8Size) = some [c] ∧ s.start + c.utf8Size ≤ s.stop := by
  obtain ⟨rest, hrest⟩ : ∃ rest, s.text t = c :: rest := List.head?_eq_some_iff.1 h
  have hslice := slice?_of_text_ne_nil (s := s) (t := t) (by simp [hrest])
  obtain ⟨a, b, hcut, ha, hb⟩ := Text.slice?_eq_some_iff.1 hslice
  rw [hrest] at hcut hb
  refine ⟨Text.slice?_eq_some_iff.2 ⟨a, rest ++ b, by simp [hcut], ha, by simp [ha]⟩, ?_⟩
  rw [Text.size_cons] at hb
  omega

/-- The character that a span ends with. -/
theorem last_of_getLast? {c : Char} (h : c ∈ (s.text t).getLast?) :
    ∃ k, t.slice? k (k + c.utf8Size) = some [c] ∧ s.start ≤ k ∧ k + c.utf8Size = s.stop := by
  obtain ⟨rest, hrest⟩ : ∃ rest, s.text t = rest ++ [c] := List.getLast?_eq_some_iff.1 h
  have hslice := slice?_of_text_ne_nil (s := s) (t := t) (by simp [hrest])
  obtain ⟨a, b, hcut, ha, hb⟩ := Text.slice?_eq_some_iff.1 hslice
  rw [hrest] at hcut hb
  simp only [Text.size_append, Text.size_cons, Text.size_nil] at hb
  exact ⟨(a ++ rest).size,
    Text.slice?_eq_some_iff.2 ⟨a ++ rest, b, by simp [hcut], rfl, by simp⟩,
    by rw [Text.size_append]; omega, by rw [Text.size_append]; omega⟩

end Span

namespace Text

section Firm

variable {t : Text} {s : Span} (h : (s.text t).Firm)

include h

theorem Firm.fits : s.Fits t := by
  obtain ⟨c, hc, -⟩ := h.first
  refine Span.fits_of_text_ne_nil fun hnil => ?_
  rw [hnil] at hc
  cases hc

theorem Firm.start_lt_stop : s.start < s.stop := by
  obtain ⟨c, hc, -⟩ := h.first
  have hsize := c.utf8Size_pos
  have hle := (Span.first_of_head? hc).2
  omega

end Firm

/-- The start of a line starts its own line. -/
theorem lineStart_lineStart {t : Text} {n : Nat} (h : t.isBoundary n = true) :
    t.lineStart (t.lineStart n) = t.lineStart n := by
  obtain ⟨a, m, b, rfl, -, hline, hclosed, -⟩ := exists_lineStart h
  have hkept : a.reverse.dropWhile (· != '\n') = a.reverse := by
    cases hrev : a.reverse with
    | nil => rfl
    | cons c rest =>
      have hc : c = '\n' := hclosed c (by rw [← List.head?_reverse, hrev]; rfl)
      rw [List.dropWhile_cons, hc]
      rfl
  rw [hline, List.append_assoc]
  simp only [lineStart, splitAt?_size_append, hkept, size_reverse]

/-- A line that starts with a character that is not blank is not indented. -/
theorem lineIndent_eq_nil {t : Text} {n : Nat} {c : Char} (hline : t.lineStart n = n)
    (hc : t.slice? n (n + c.utf8Size) = some [c]) (hblank : isBlank c = false) :
    t.lineIndent n = [] := by
  obtain ⟨a, b, rfl, rfl, -⟩ := slice?_eq_some_iff.1 hc
  have hindent : isIndent c = false := by
    cases hi : isIndent c with
    | false => rfl
    | true =>
      rw [isBlank_of_isIndent hi] at hblank
      cases hblank
  rw [lineIndent, hline, List.append_assoc, behind?_size_append]
  simp [hindent]

/-! ## Around a span -/

theorem newline_notMem_dropLast_firstLine (t : Text) : '\n' ∉ (firstLine t).dropLast := by
  induction t with
  | nil => simp [firstLine]
  | cons c t ih =>
    rw [firstLine]
    split
    · simp
    · rename_i hc
      cases hrest : firstLine t with
      | nil => simp
      | cons d rest =>
        rw [hrest] at ih
        rw [List.dropLast_cons_cons, List.mem_cons, not_or]
        exact ⟨fun heq => hc heq.symm, ih⟩

/-- What stands around a span: the lines before the one that it starts on, and what this line has
before the span; what the line that it ends on has behind the span, and the lines behind this
one. -/
structure Around (t : Text) (s : Span) (lead before after rest : Text) : Prop where
  text_eq : t = lead ++ before ++ s.text t ++ after ++ rest
  start_eq : size (lead ++ before) = s.start
  stop_eq : size (lead ++ before ++ s.text t) = s.stop
  closed : Closed lead
  first : '\n' ∉ before
  last : '\n' ∉ after.dropLast
  ends : rest = [] ∨ '\n' ∈ after.getLast?

variable {t : Text} {s x : Span}

theorem exists_around (h : s.Fits t) : ∃ lead before after rest,
    t.Around s lead before after rest ∧ t.lineStart s.start = size lead ∧
      t.lineStop s.stop = size (lead ++ before ++ s.text t ++ after) := by
  obtain ⟨a, b, ht, hstart, hstop⟩ := slice?_eq_some_iff.1 h.slice?
  generalize htext : s.text t = mid at *
  obtain ⟨lead, before, c, ht', hsize, hline, hclosed, hfirst⟩ := exists_lineStart h.start
  obtain ⟨rest, hb, hends⟩ := firstLine_append b
  have hcut : lead ++ before = a := by
    rw [ht, List.append_assoc] at ht'
    exact (append_inj_of_size ht'.symm (by rw [size_append]; omega)).1
  subst hcut
  refine ⟨lead, before, firstLine b, rest, ⟨?_, hstart, ?_, hclosed, hfirst, ?_, ?_⟩, hline, ?_⟩
  · rw [htext, List.append_assoc, ← hb]
    exact ht
  · rw [htext, size_append]
    exact hstop
  · exact newline_notMem_dropLast_firstLine b
  · rcases hends with hnil | ⟨m, hm, -⟩
    · exact .inl hnil
    · exact .inr (by simp [hm])
  · rw [ht, ← hstop, ← size_append, lineStop, splitAt?_size_append, size_append _ (firstLine b)]

namespace Around

variable {lead before after rest : Text} (h : t.Around s lead before after rest)

include h

theorem slice?_before : t.slice? (size lead) s.start = some before :=
  slice?_eq_some_iff.2 ⟨lead, s.text t ++ after ++ rest, by simpa using h.text_eq, rfl,
    by rw [← size_append, h.start_eq]⟩

theorem slice?_after :
    t.slice? s.stop (size (lead ++ before ++ s.text t ++ after)) = some after :=
  slice?_eq_some_iff.2 ⟨lead ++ before ++ s.text t, rest, by simpa using h.text_eq, h.stop_eq,
    (size_append _ _).symm⟩

/-- Which span the lines are: the span is widened to them under a condition on what it shares them
with. -/
theorem wholeLines_eq (hstart : t.lineStart s.start = size lead)
    (hstop : t.lineStop s.stop = size (lead ++ before ++ s.text t ++ after)) :
    t.wholeLines s = if before.all isIndent && (trim after == [] || trim after == [';']) then
      ⟨size lead, size (lead ++ before ++ s.text t ++ after)⟩ else s := by
  unfold wholeLines
  dsimp only
  rw [hstart, hstop, slice, slice, h.slice?_before, h.slice?_after]
  rfl

end Around

/-! ## Margins -/

/-- What a span gains on both sides when it is widened to whole lines. -/
structure Margins (t : Text) (s : Span) (before after : Text) : Prop where
  leads : t.slice? (t.wholeLines s).start s.start = some before
  trails : t.slice? s.stop (t.wholeLines s).stop = some after
  indent : ∀ c ∈ before, isIndent c = true
  trimmed : (after.filter fun c => !isBlank c).Sublist [';']

theorem wholeLines_eq_or (t : Text) (s : Span) :
    t.wholeLines s = s ∨ t.wholeLines s = ⟨t.lineStart s.start, t.lineStop s.stop⟩ := by
  unfold wholeLines
  dsimp only
  split
  · exact .inr rfl
  · exact .inl rfl

theorem exists_margins (h : s.Fits t) : ∃ before after, t.Margins s before after := by
  obtain ⟨lead, before, after, rest, haround, hstart, hstop⟩ := exists_around h
  have hwhole := haround.wholeLines_eq hstart hstop
  split at hwhole
  · rename_i hblank
    obtain ⟨hindent, htrim⟩ := Bool.and_eq_true_iff.1 hblank
    refine ⟨before, after, ?_, ?_, List.all_eq_true.1 hindent, ?_⟩
    · rw [hwhole]
      exact haround.slice?_before
    · rw [hwhole]
      exact haround.slice?_after
    · rw [← filter_trim]
      refine List.filter_sublist.trans ?_
      simp only [Bool.or_eq_true, beq_iff_eq] at htrim
      rcases htrim with htrim | htrim
      · simp [htrim]
      · simp [htrim]
  · refine ⟨[], [], ?_, ?_, nofun, List.nil_sublist _⟩
    · rw [hwhole]
      exact slice?_self h.start
    · rw [hwhole]
      exact slice?_self h.stop

/-- A span stays inside itself widened, and the widened span is a run of characters. -/
theorem Margins.contains {before after : Text} (h : t.Margins s before after) :
    (t.wholeLines s).start ≤ s.start ∧ s.stop ≤ (t.wholeLines s).stop := by
  obtain ⟨a, b, -, ha, hb⟩ := slice?_eq_some_iff.1 h.leads
  obtain ⟨a', b', -, ha', hb'⟩ := slice?_eq_some_iff.1 h.trails
  omega

/-- A widened span has the text of the span between its margins. -/
theorem Margins.text_eq {before after : Text} (h : t.Margins s before after) (hs : s.Fits t) :
    (t.wholeLines s).text t = before ++ s.text t ++ after :=
  text_eq_of_slice? (slice?_trans (slice?_trans h.leads hs.slice?) h.trails)

theorem fits_wholeLines (hs : s.Fits t) : (t.wholeLines s).Fits t := by
  obtain ⟨before, after, h⟩ := exists_margins hs
  have hin := h.contains
  have hord := hs.ordered
  exact ⟨by omega, (isBoundary_of_slice? h.leads).1, (isBoundary_of_slice? h.trails).2⟩

/-- A widened span does not reach back to a text that ends with a character that is not blank. -/
theorem stop_le_start_wholeLines (hs : s.Fits t)
    (hlast : ∃ c ∈ (x.text t).getLast?, isBlank c = false) (hle : x.stop ≤ s.start) :
    x.stop ≤ (t.wholeLines s).start := by
  obtain ⟨before, after, h⟩ := exists_margins hs
  obtain ⟨c, hc, hblank⟩ := hlast
  obtain ⟨k, hk, -, hstop⟩ := Span.last_of_getLast? hc
  have hsize := c.utf8Size_pos
  by_contra hlt
  have hmem := mem_of_slice? h.leads hk (by omega) (by omega)
  rw [isBlank_of_isIndent (h.indent c hmem)] at hblank
  cases hblank

/-- A widened span does not reach a text that begins with no blank and no `;`. -/
theorem stop_wholeLines_le_start (hs : s.Fits t)
    (hfirst : ∃ c ∈ (x.text t).head?, isBlank c = false ∧ c ≠ ';') (hle : s.stop ≤ x.start) :
    (t.wholeLines s).stop ≤ x.start := by
  obtain ⟨before, after, h⟩ := exists_margins hs
  obtain ⟨c, hc, hblank, hne⟩ := hfirst
  have hstart := (Span.first_of_head? hc).1
  have hsize := c.utf8Size_pos
  by_contra hlt
  have hmem := mem_of_slice? h.trails hstart (by omega) (by omega)
  have hkept : c ∈ after.filter fun c => !isBlank c := List.mem_filter.2 ⟨hmem, by simp [hblank]⟩
  exact hne (List.mem_singleton.1 (h.trimmed.subset hkept))

/-- Widened texts stay apart. -/
theorem wholeLines_stop_le_start (hs : (s.text t).Firm) (hx : (x.text t).Firm)
    (hle : s.stop ≤ x.start) : (t.wholeLines s).stop ≤ (t.wholeLines x).start := by
  have hforth := stop_wholeLines_le_start hs.fits hx.first hle
  have hback := stop_le_start_wholeLines hx.fits hs.last hle
  rcases wholeLines_eq_or t s with hsame | hwide
  · rw [hsame]
    exact hback
  · by_contra hlt
    obtain ⟨a, m, b, ht, ha, hstop, hend⟩ := exists_lineStop hs.fits.stop
    rw [hwide] at hforth hlt
    simp only [hstop] at hforth hlt
    obtain ⟨before, after, h⟩ := exists_margins hx.fits
    rcases hend with rfl | ⟨line, rfl, -⟩
    · -- the lines of s reach the end of the text, and x is behind them
      obtain ⟨p, q, ht', hp⟩ := isBoundary_iff.1 hx.fits.stop
      have hpos := hx.start_lt_stop
      have hsize := congrArg size (ht.symm.trans ht')
      simp only [size_append, size_nil] at hsize
      omega
    · have hnewline : t.slice? (a.size + line.size) (a.size + line.size + '\n'.utf8Size) =
          some ['\n'] :=
        slice?_eq_some_iff.2 ⟨a ++ line, b, by simp [ht], by simp, by simp⟩
      simp only [size_append, size_cons, size_nil] at hforth hlt
      have hmem := mem_of_slice? h.leads hnewline (by omega) (by
        have hpos := '\n'.utf8Size_pos
        omega)
      exact absurd (h.indent _ hmem) (by decide)

end Text
end Mutagen
