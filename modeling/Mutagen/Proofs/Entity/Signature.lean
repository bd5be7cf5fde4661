import Mutagen.Proofs.Entity.Extraction
import Mutagen.Proofs.Text.WholeLines
import Mutagen.Proofs.Tree.Nesting

/-!
# Signatures

The signature of an entity is the text before its body, dedented, without the signs at its end that
open the body and, in most languages, with the blanks between parentheses collapsed. Only blanks are
lost or gained on the way, so that a signature is a prefix of the text of its entity when blanks do
not count.
-/
namespace Mutagen

namespace Text

/-- The text ends neither in a blank nor in a sign that opens a body. -/
structure Unopened (t : Text) : Prop where
  last : ∀ c ∈ t.getLast?, isBlank c = false ∧ c ≠ '\x7b' ∧ c ≠ ':'
  arrow : ¬ "=>".toList <:+ t

end Text

/-! ## Signs at the end -/

theorem dropOpeners_suffix (t : Text) : dropOpeners t <:+ t := by
  fun_induction dropOpeners t with
  | case1 => exact List.suffix_refl _
  | case2 t ih => exact ih.trans ⟨['>', '='], rfl⟩
  | case3 c t _ _ ih => exact ih.trans (List.suffix_cons c t)
  | case4 => exact List.suffix_refl _

theorem head?_dropOpeners (t : Text) :
    ∀ c ∈ (dropOpeners t).head?, isBlank c = false ∧ c ≠ '\x7b' ∧ c ≠ ':' := by
  fun_induction dropOpeners t with
  | case1 => exact fun c hc => nomatch hc
  | case2 t ih => exact ih
  | case3 c t _ _ ih => exact ih
  | case4 c t _ hc =>
    intro d hd
    cases hd
    simpa [and_assoc] using hc

theorem arrow_not_prefix_dropOpeners (t : Text) : ¬ ['>', '='] <+: dropOpeners t := by
  fun_induction dropOpeners t with
  | case1 => decide
  | case2 t ih => exact ih
  | case3 c t _ _ ih => exact ih
  | case4 c t harrow _ =>
    rintro ⟨rest, hrest⟩
    cases hrest
    exact harrow rest rfl rfl

/-- What is kept of a text is a prefix of it and ends in no sign that opens a body. -/
theorem unopened_reverse_dropOpeners (t : Text) :
    (dropOpeners t.reverse).reverse <+: t ∧ Text.Unopened (dropOpeners t.reverse).reverse := by
  refine ⟨?_, ?_, ?_⟩
  · rw [← List.reverse_suffix, List.reverse_reverse]
    exact dropOpeners_suffix _
  · rw [List.getLast?_reverse]
    exact head?_dropOpeners _
  · rw [← List.reverse_prefix, List.reverse_reverse]
    exact arrow_not_prefix_dropOpeners _

/-! ## Collapsed blanks -/

/-- Only blanks are dropped and put in. -/
theorem dense_collapseFrom (t : Text) (depth : Nat) (pending opened : Bool) :
    (collapseFrom depth pending opened t).dense = t.dense := by
  fun_induction collapseFrom depth pending opened t with
  | case1 => rfl
  | case2 depth pending opened c t hblank ih =>
    rw [Bool.and_eq_true] at hblank
    rw [ih, Text.dense_cons_of_blank hblank.2]
  | case3 depth pending opened c t _ gap depth' ih =>
    have hgap : Text.dense gap = [] := by
      refine Text.dense_eq_nil fun x hx => ?_
      dsimp only [gap] at hx
      split at hx
      · rw [List.mem_singleton.1 hx]
        decide
      · cases hx
    have hcons : ∀ x : Text, Text.dense (c :: x) = Text.dense [c] ++ Text.dense x :=
      fun x => Text.dense_append [c] x
    rw [Text.dense_append, hgap, List.nil_append, hcons, ih, ← hcons]

/-- What holds of the last item holds of it behind the first item. -/
theorem forall_getLast?_of_cons {α : Type} {P : α → Prop} {a : α} {l : List α}
    (h : ∀ x ∈ (a :: l).getLast?, P x) : ∀ x ∈ l.getLast?, P x := by
  intro x hx
  exact h x (by rw [List.getLast?_cons, hx]; rfl)

section Collapse

variable {t : Text} {depth : Nat} {pending opened : Bool}

/-- A last character that is not blank stays. -/
theorem getLast?_collapseFrom (hlast : ∀ c ∈ t.getLast?, isBlank c = false) :
    (collapseFrom depth pending opened t).getLast? = t.getLast? := by
  fun_induction collapseFrom depth pending opened t with
  | case1 => rfl
  | case2 depth pending opened c t hblank ih =>
    cases t with
    | nil =>
      rw [Bool.and_eq_true, hlast c rfl] at hblank
      cases hblank.2
    | cons d t =>
      rw [List.getLast?_cons_cons]
      exact ih (forall_getLast?_of_cons hlast)
  | case3 depth pending opened c t _ gap depth' ih =>
    rw [List.getLast?_append, List.getLast?_cons, Option.some_or, List.getLast?_cons,
      ih (forall_getLast?_of_cons hlast)]

/-- A `>` that is all that is left stands alone, or behind an opening parenthesis. -/
theorem eq_of_collapseFrom_eq (hlast : ∀ c ∈ t.getLast?, isBlank c = false)
    (h : collapseFrom depth pending opened t = ['>']) :
    opened = true ∨ pending = false ∧ t = ['>'] := by
  fun_induction collapseFrom depth pending opened t with
  | case1 => cases h
  | case2 depth pending opened c t hblank ih =>
    exact (ih (forall_getLast?_of_cons hlast) h).imp_right fun hpending => nomatch hpending.1
  | case3 depth pending opened c t _ gap depth' ih =>
    have hparts : gap = [] ∧ c = '>' ∧ collapseFrom depth' false (c == '(') t = [] := by
      cases hgap : gap with
      | nil => simpa [hgap] using h
      | cons x gap => simp [hgap] at h
    obtain ⟨hgap, rfl, hrest⟩ := hparts
    have hnil : t = [] := by
      have hsame : (collapseFrom depth' false ('>' == '(') t).getLast? = t.getLast? :=
        getLast?_collapseFrom (forall_getLast?_of_cons hlast)
      rw [hrest] at hsame
      exact List.getLast?_eq_none_iff.1 hsame.symm
    have hclosed : opened = true ∨ pending = false := by
      cases opened <;> cases pending <;> simp [gap] at hgap ⊢
    exact hclosed.imp_right fun hpending => ⟨hpending, by rw [hnil]⟩

/-- No arrow arises at the end: where blanks are collapsed something stays between the signs. -/
theorem arrow_suffix_of_collapseFrom (hlast : ∀ c ∈ t.getLast?, isBlank c = false)
    (h : "=>".toList <:+ collapseFrom depth pending opened t) : "=>".toList <:+ t := by
  fun_induction collapseFrom depth pending opened t with
  | case1 => exact h
  | case2 depth pending opened c t hblank ih =>
    exact (ih (forall_getLast?_of_cons hlast) h).trans (List.suffix_cons c t)
  | case3 depth pending opened c t _ gap depth' ih =>
    have htail := forall_getLast?_of_cons hlast
    have hgap : gap = [] ∨ gap = [' '] := by
      dsimp only [gap]
      split <;> simp
    rcases List.suffix_or_suffix_of_suffix h
      ((List.suffix_cons c _).trans (List.suffix_append gap _)) with hrest | hrest
    · exact (ih htail hrest).trans (List.suffix_cons c t)
    · -- at most one character is behind the sign in front
      have hshort : collapseFrom depth' false (c == '(') t = "=>".toList ∨
          collapseFrom depth' false (c == '(') t = ['>'] ∨
          collapseFrom depth' false (c == '(') t = [] := by
        simpa [List.suffix_cons_iff] using hrest
      rcases hshort with hrest | hrest | hrest
      · rw [hrest] at ih
        exact (ih htail (List.suffix_refl _)).trans (List.suffix_cons c t)
      · have hc : c = '=' := by
          rw [hrest] at h
          rcases hgap with hgap | hgap <;> rw [hgap] at h <;>
            simp [List.suffix_cons_iff] at h <;> exact h.symm
        subst hc
        rcases eq_of_collapseFrom_eq htail hrest with hopened | ⟨-, rfl⟩
        · cases hopened
        · exact List.suffix_refl _
      · rw [hrest] at h
        rcases hgap with hgap | hgap <;> rw [hgap] at h <;> simp [List.suffix_cons_iff] at h

end Collapse

/-- Collapsing blanks keeps the characters that are not blank and puts no sign that opens a body at
the end. -/
theorem unopened_collapseParameters {t : Text} (h : Text.Unopened t) :
    Text.dense (collapseParameters t) = Text.dense t ∧ Text.Unopened (collapseParameters t) := by
  have hlast : ∀ c ∈ t.getLast?, isBlank c = false := fun c hc => (h.last c hc).1
  refine ⟨dense_collapseFrom t 0 false false, ?_, ?_⟩
  · rw [collapseParameters, getLast?_collapseFrom hlast]
    exact h.last
  · exact fun harrow => h.arrow (arrow_suffix_of_collapseFrom hlast harrow)

/-- A part of a text from its start is a prefix of it, the empty one when the part does not end
between characters. -/
theorem Span.Fits.prefix_of_le {s : Span} {source : Text} (h : s.Fits source) {n : Nat}
    (hstart : s.start ≤ n) (hstop : n ≤ s.stop) :
    (⟨s.start, n⟩ : Span).text source <+: s.text source := by
  by_cases hcut : source.isBoundary n = true
  · have hwhole : s.text source =
        (⟨s.start, n⟩ : Span).text source ++ (⟨n, s.stop⟩ : Span).text source :=
      Span.text_cut ⟨hstart, h.start, hcut⟩ ⟨hstop, hcut, h.stop⟩
    rw [hwhole]
    exact List.prefix_append _ _
  · have hnone : (⟨s.start, n⟩ : Span).text source = [] := by
      by_contra hsome
      exact hcut (Span.fits_of_text_ne_nil hsome).stop
    rw [hnone]
    exact List.nil_prefix

namespace Dialect

variable {d : Dialect} {s body : Site}

/-- A signature ends neither in a blank nor in a sign that opens a body, and, when blanks do not
count, it is a prefix of the text before the body. -/
theorem signature_of_body? (source : Text) (hbody : d.body? s = some body) :
    Text.Unopened (d.signature s source) ∧
      (s.span.start ≤ body.span.start → Text.dense (d.signature s source) <+:
        Text.dense ((⟨s.span.start, body.span.start⟩ : Span).text source)) := by
  have hblank : ∀ c ∈ source.lineIndent s.span.start, isBlank c = true :=
    fun c hc => Text.isBlank_of_mem_lineIndent hc
  obtain ⟨hkept, hunopened⟩ := unopened_reverse_dropOpeners (Text.dedent
    (source.slice s.span.start (max body.span.start s.span.start))
    (source.lineIndent s.span.start))
  have hdense := hkept.filter fun c => !isBlank c
  change Text.dense _ <+: Text.dense _ at hdense
  rw [Text.dense_dedent hblank] at hdense
  have hsignature : Text.dense (d.signature s source) <+: Text.dense
      (source.slice s.span.start (max body.span.start s.span.start)) ∧
        Text.Unopened (d.signature s source) := by
    unfold signature
    rw [hbody]
    dsimp only
    split
    · obtain ⟨hcollapsed, hend⟩ := unopened_collapseParameters hunopened
      rw [← hcollapsed] at hdense
      exact ⟨hdense, hend⟩
    · exact ⟨hdense, hunopened⟩
  refine ⟨hsignature.2, fun hstart => ?_⟩
  rw [Nat.max_eq_left hstart] at hsignature
  exact hsignature.1

/-- The signature of an extracted entity ends neither in a blank nor in a sign that opens a body.
When the body starts inside the entity and blanks do not count, it is a prefix of the text of the
entity, one that ends at the start of the body or before. -/
theorem signature_prefix_code (l : Language) (file : SourceFile) (limit : Option Nat) {e : Entity}
    (he : e ∈ l.dialect.extract file limit) (hfit : e.span.Fits file.source) :
    ∃ s body, (Site.top file.root).Within s ∧ l.dialect.entityAt? file s = some e ∧
      l.dialect.body? s = some body ∧ Text.Unopened e.signature ∧
      (e.span.start ≤ body.span.start → body.span.start ≤ e.span.stop →
        Text.dense e.signature <+:
            Text.dense ((⟨e.span.start, body.span.start⟩ : Span).text file.source) ∧
          Text.dense ((⟨e.span.start, body.span.start⟩ : Span).text file.source) <+:
            Text.dense e.code) := by
  obtain ⟨s, hs, hentity⟩ := l.dialect.exists_entityAt?_of_mem_extract file he
  obtain ⟨kind, -, hbody, rfl⟩ := (l.dialect.entityAt?_eq_some_iff file).1 hentity
  obtain ⟨body, hbody⟩ := Option.isSome_iff_exists.1 hbody
  obtain ⟨hunopened, hbefore⟩ := signature_of_body? file.source hbody
  refine ⟨s, body, hs, hentity, hbody, hunopened, fun hstart hstop => ⟨hbefore hstart, ?_⟩⟩
  have hcode : Text.dense (l.dialect.build file kind s).code =
      Text.dense (s.text file.source) :=
    Text.dense_dedent (fun c hc => Text.isBlank_of_mem_lineIndent hc) _
  rw [hcode]
  exact (hfit.prefix_of_le hstart hstop).filter _

/-- An arrow function with its parameters on two lines. -/
def arrowText : Text := "  f = (a,\n     b) => \x7b\x7d;".toList

/-- The tree of this function, without most of the tokens. -/
def arrowTree : Node :=
  .ofSpan "program" true none 0 24 [
    .ofSpan "expression_statement" true none 2 24 [
      .ofSpan "assignment_expression" true none 2 23 [
        .ofSpan "identifier" true (some "left") 2 3 [],
        .ofSpan "arrow_function" true (some "right") 6 23 [
          .ofSpan "formal_parameters" true (some "parameters") 6 17 [],
          .ofSpan "=>" false none 18 20 [],
          .ofSpan "statement_block" true (some "body") 21 23 []]],
      .ofSpan ";" false none 23 24 []]]

/-- The signature of this function loses the arrow, the newline and the indentation. -/
theorem signature_prefix_code_arrow :
    ∃ e ∈ javascript.extract ⟨"f.js", arrowText, arrowTree⟩ none,
      e.signature = "f = (a, b)".toList ∧ Text.Unopened e.signature ∧
        Text.dense e.signature <+: Text.dense e.code := by
  have hfound : ∃ e ∈ javascript.extract ⟨"f.js", arrowText, arrowTree⟩ none,
      e.signature = "f = (a, b)".toList ∧ e.span = ⟨2, 24⟩ := by
    decide +kernel
  have hbodies : ∀ s ∈ (Site.top arrowTree).preorder, ∀ body ∈ javascript.body? s,
      2 ≤ body.span.start ∧ body.span.start ≤ 24 := by
    decide +kernel
  obtain ⟨e, he, hsignature, hspan⟩ := hfound
  have hfit : e.span.Fits arrowText := by
    rw [hspan]
    exact ⟨by decide, by decide, by decide⟩
  obtain ⟨s, body, hs, -, hbody, hunopened, hprefixes⟩ :=
    signature_prefix_code .javascript ⟨"f.js", arrowText, arrowTree⟩ none he hfit
  obtain ⟨hle, hge⟩ := hbodies s (Site.mem_preorder_iff.2 hs) body hbody
  rw [hspan] at hprefixes
  obtain ⟨hbefore, hcode⟩ := hprefixes hle hge
  exact ⟨e, he, hsignature, hunopened, hbefore.trans hcode⟩

end Dialect
end Mutagen
