import Mutagen.Proofs.Edit.Separation
import Mutagen.Proofs.Text.Cut

/-!
# Applying edits is substituting them all at once

Edits are applied to one changing text, the last span first, with offsets of the
text as it was. On a separated list this gives what substituting all spans at once
gives: the gaps of the text between the spans, with the replacements in between.
-/
namespace Mutagen

/-- The text from offset `n` on with edits, given in ascending order, made in it all at once: the
gap before each edit, its replacement, and the gap behind the last one. Nothing when a gap is not
a run of characters. -/
def Text.substitute? (t : Text) : Nat → List Edit → Option Text
  | n, [] => t.slice? n t.size
  | n, e :: es => do
    let gap ← t.slice? n e.span.start
    let rest ← t.substitute? e.span.stop es
    pure (gap ++ e.replacement ++ rest)

namespace EditList

/-- The edits from the first span to the last. -/
def ascending (l : EditList) : List Edit :=
  l.toList.mergeSort fun a b => (a.span.order b.span).isLE

/-- An edit ends beyond the text, or an end of it is inside a character. -/
def Misfit (t : Text) (e : Edit) : Prop :=
  t.size < e.span.stop ∨ t.isBoundary e.span.start = false ∨ t.isBoundary e.span.stop = false

theorem not_misfit_iff {t : Text} {e : Edit} : ¬ Misfit t e ↔ fits t e = true := by
  simp only [Misfit, fits, Bool.and_eq_true, decide_eq_true_eq, not_or, Nat.not_lt,
    Bool.not_eq_false, and_assoc]

end EditList

theorem Span.order_isLE_iff {s t : Span} :
    (s.order t).isLE = true ↔ s.start < t.start ∨ s.start = t.start ∧ s.stop ≤ t.stop := by
  rw [Span.order, Ordering.isLE_then_iff_and, Nat.isLE_compare, Nat.isLE_compare,
    Nat.compare_eq_lt]
  omega

namespace EditList

/-- Edits in ascending order, none of which reaches into another. -/
def Ascending (es : List Edit) : Prop := es.Pairwise fun a b => a.span.Before b.span

theorem ascending_perm (l : EditList) : l.ascending.Perm l.toList := List.mergeSort_perm ..

theorem descending_perm (l : EditList) : l.descending.Perm l.toList := List.mergeSort_perm ..

/-- Separated edits that are sorted by their spans are ascending. -/
theorem Separated.ascending_of_sorted {l : EditList} {es : List Edit} (hl : l.Separated)
    (hp : es.Perm l.toList) (hs : es.Pairwise fun a b => (a.span.order b.span).isLE = true) :
    Ascending es := by
  have hsep : (⟨es⟩ : EditList).Separated := hl.perm hp
  refine (hsep.apart.and hs).imp ?_
  rintro a b ⟨hab | hba, hle⟩
  · exact hab
  · have h₁ := hba.1
    rw [Span.order_isLE_iff] at hle
    omega

theorem order_trans (a b c : Edit) (hab : (a.span.order b.span).isLE = true)
    (hbc : (b.span.order c.span).isLE = true) : (a.span.order c.span).isLE = true := by
  rw [Span.order_isLE_iff] at *
  omega

theorem order_total (a b : Edit) :
    ((a.span.order b.span).isLE || (b.span.order a.span).isLE) = true := by
  rw [Bool.or_eq_true, Span.order_isLE_iff, Span.order_isLE_iff]
  omega

theorem Separated.ascending {l : EditList} (hl : l.Separated) : Ascending l.ascending :=
  hl.ascending_of_sorted l.ascending_perm (List.pairwise_mergeSort order_trans order_total _)

/-- There is one ascending arrangement of edits, and applying goes through it backwards. -/
theorem Separated.descending_eq {l : EditList} {es : List Edit} (hl : l.Separated)
    (hp : es.Perm l.toList) (hes : Ascending es) : l.descending = es.reverse := by
  have hsorted : l.descending.Pairwise fun a b => (b.span.order a.span).isLE = true :=
    List.pairwise_mergeSort (fun a b c hab hbc => order_trans c b a hbc hab)
      (fun a b => order_total b a) _
  have hrev : Ascending l.descending.reverse :=
    hl.ascending_of_sorted (l.descending.reverse_perm.trans l.descending_perm)
      (List.pairwise_reverse.2 hsorted)
  have hperm : l.descending.reverse.Perm es :=
    (l.descending.reverse_perm.trans l.descending_perm).trans hp.symm
  have heq : l.descending.reverse = es :=
    hperm.eq_of_pairwise (fun a b _ _ hab hba => absurd hba hab.asymm) hrev hes
  rw [← heq, List.reverse_reverse]

/-- Makes one edit of `t` in a text where all edits behind it are made. -/
def make (t : Text) (e : Edit) (made : Text) : Except EditError Text :=
  if fits t e then .ok (made.splice e.span.start e.span.stop e.replacement)
  else .error (.outOfBounds e.span t.size)

theorem Separated.apply_eq {l : EditList} {es : List Edit} (hl : l.Separated)
    (hp : es.Perm l.toList) (hes : Ascending es) (t : Text) :
    l.apply t = es.foldrM (make t) t := by
  rw [apply, hl.descending_eq hp hes, List.foldlM_reverse]
  rfl

/-- Making ascending edits gives what stands before them in the text, followed by the
substitution from there on. -/
theorem foldrM_make_eq_ok {t : Text} {es : List Edit} (hes : Ascending es)
    (hord : ∀ e ∈ es, e.span.start ≤ e.span.stop) (hfit : ∀ e ∈ es, fits t e = true)
    {a b : Text} (ht : t = a ++ b) (ha : ∀ e ∈ es, a.size ≤ e.span.start) :
    ∃ w, t.substitute? a.size es = some w ∧ es.foldrM (make t) t = .ok (a ++ w) := by
  induction es generalizing a b with
  | nil =>
    refine ⟨b, ?_, by rw [ht]; rfl⟩
    rw [Text.substitute?, ht]
    exact Text.slice?_size_append a b
  | cons e es ih =>
    obtain ⟨hbefore, hrest⟩ := List.pairwise_cons.1 hes
    obtain ⟨he, hordRest⟩ := List.forall_mem_cons.1 hord
    obtain ⟨hefit, hfitRest⟩ := List.forall_mem_cons.1 hfit
    obtain ⟨hea, -⟩ := List.forall_mem_cons.1 ha
    have hbounds := hefit
    simp only [fits, Bool.and_eq_true] at hbounds
    -- the text is a ++ gap ++ old ++ c, and the edit replaces old
    obtain ⟨gap, behind, rfl, hstart⟩ := Text.exists_cut (ht ▸ hbounds.1.2) hea
    have hstop : (a ++ gap ++ behind).isBoundary e.span.stop = true := by
      rw [List.append_assoc, ← ht]
      exact hbounds.2
    obtain ⟨old, c, rfl, hsize⟩ := Text.exists_cut hstop (by rw [Text.size_append]; omega)
    have hold : (a ++ gap ++ old).size = e.span.stop := by
      rw [Text.size_append, hsize]
    have ht' : t = a ++ gap ++ old ++ c := by simp [ht]
    obtain ⟨w, hw, hfold⟩ := ih hrest hordRest hfitRest ht' (by
      intro x hx
      rw [hold]
      exact (hbefore x hx).2)
    refine ⟨gap ++ e.replacement ++ w, ?_, ?_⟩
    · have hgap : t.slice? a.size e.span.start = some gap := by
        rw [← hstart, ht]
        simpa using Text.slice?_append a gap (old ++ c)
      rw [hold] at hw
      rw [Text.substitute?, hgap, hw]
      rfl
    · have hsplice : (a ++ gap ++ old ++ w).splice e.span.start e.span.stop e.replacement =
          a ++ gap ++ e.replacement ++ w := by
        rw [← hsize, ← hstart, ← Text.size_append]
        exact Text.splice_append (a ++ gap) old w e.replacement
      rw [List.foldrM_cons, hfold]
      change make t e _ = _
      rw [make, if_pos hefit, hsplice]
      simp

/-- Either every edit falls on the text and making them succeeds, or it fails at one that does
not. -/
theorem foldrM_make_cases (t made : Text) (es : List Edit) :
    ((∀ e ∈ es, fits t e = true) ∧ ∃ r, es.foldrM (make t) made = .ok r) ∨
      ∃ e ∈ es, fits t e = false ∧
        es.foldrM (make t) made = .error (.outOfBounds e.span t.size) := by
  induction es with
  | nil => exact .inl ⟨by simp, made, rfl⟩
  | cons e es ih =>
    rw [List.foldrM_cons]
    rcases ih with ⟨hfit, r, hr⟩ | ⟨x, hx, hmis, herr⟩
    · rw [hr]
      change (_ ∧ ∃ r', make t e r = .ok r') ∨ ∃ x ∈ e :: es, _ ∧ make t e r = _
      cases he : fits t e with
      | true => exact .inl ⟨List.forall_mem_cons.2 ⟨he, hfit⟩, _, if_pos he⟩
      | false => exact .inr ⟨e, List.mem_cons_self, he, by simp [make, he]⟩
    · rw [herr]
      exact .inr ⟨x, List.mem_cons_of_mem e hx, hmis, rfl⟩

/-- A separated list is refused exactly when one of its edits does not fall on the text. -/
theorem Separated.apply_eq_error_iff {l : EditList} (hl : l.Separated) (t : Text) :
    (∃ span length, l.apply t = .error (.outOfBounds span length)) ↔
      ∃ e ∈ l.toList, Misfit t e := by
  rw [hl.apply_eq l.ascending_perm hl.ascending]
  rcases foldrM_make_cases t t l.ascending with ⟨hfit, r, hr⟩ | ⟨e, he, hmis, herr⟩
  · constructor
    · rintro ⟨span, length, h⟩
      rw [hr] at h
      cases h
    · rintro ⟨e, he, hmis⟩
      exact absurd hmis (not_misfit_iff.2 (hfit e (l.ascending_perm.mem_iff.2 he)))
  · constructor
    · intro _
      refine ⟨e, l.ascending_perm.mem_iff.1 he, ?_⟩
      apply Classical.byContradiction
      intro hnot
      rw [not_misfit_iff.1 hnot] at hmis
      cases hmis
    · intro _
      exact ⟨e.span, t.size, herr⟩

/-- A list that could be applied falls on the text. -/
theorem Separated.fits_of_apply_eq_ok {l : EditList} (hl : l.Separated) {t r : Text}
    (h : l.apply t = .ok r) : ∀ e ∈ l.toList, fits t e = true := by
  intro e he
  rw [hl.apply_eq l.ascending_perm hl.ascending] at h
  rcases foldrM_make_cases t t l.ascending with ⟨hfit, -⟩ | ⟨x, -, -, herr⟩
  · exact hfit e (l.ascending_perm.mem_iff.2 he)
  · rw [herr] at h
    cases h

/-- Applied to a text on which all its edits fall, a separated list substitutes them at once. -/
theorem Separated.apply_eq_substitute {l : EditList} {es : List Edit} (hl : l.Separated)
    (hp : es.Perm l.toList) (hes : Ascending es) {t : Text}
    (hfit : ∀ e ∈ l.toList, fits t e = true) :
    ∃ r, t.substitute? 0 es = some r ∧ l.apply t = .ok r := by
  rw [hl.apply_eq hp hes]
  have h := foldrM_make_eq_ok hes (fun e he => hl.ordered e (hp.mem_iff.1 he))
    (fun e he => hfit e (hp.mem_iff.1 he)) (List.nil_append t).symm (fun _ _ => Nat.zero_le _)
  simpa using h

/-- Lists with the same edits apply alike, whatever the order in which they were taken in. -/
theorem Separated.apply_perm {l l' : EditList} (hl : l.Separated) (hp : l'.toList.Perm l.toList)
    (t : Text) : l'.apply t = l.apply t := by
  rw [hl.apply_eq l.ascending_perm hl.ascending,
    (hl.perm hp).apply_eq (l.ascending_perm.trans hp.symm) hl.ascending]

/-- A refused push leaves the list as it is. -/
theorem perform_of_push_eq_error {l : EditList} {e : Edit} {err : EditError}
    (h : l.push e = .error err) : l.perform (.push e) = l ∧ l.perform (.offer e) = l := by
  constructor
  · rw [perform, attempt, h]
  · rw [perform, attempt, offer, h]

/-- An accepted push makes the list it answers. -/
theorem perform_of_push_eq_ok {l l' : EditList} {e : Edit} (h : l.push e = .ok l') :
    l.perform (.push e) = l' ∧ l.perform (.offer e) = l' := by
  constructor
  · rw [perform, attempt, h]
  · rw [perform, attempt, offer, h]

/-- What a history of edits does to a text. It is refused exactly when an edit does not fall on
the text, and otherwise the result is the gaps of the text with every replacement once between
them, in the order of the spans. The same edits can be pushed in any order, with the same result.
A push is accepted exactly when its edit can stand behind those of the list; there it is put then,
and a refused push leaves no trace. -/
theorem apply_history_eq_substitute (actions : List Action) (t : Text) :
    ((∃ span length, (history actions).apply t = .error (.outOfBounds span length)) ↔
        ∃ e ∈ (history actions).toList, Misfit t e) ∧
      ((∀ e ∈ (history actions).toList, ¬ Misfit t e) →
        ∃ r, t.substitute? 0 (history actions).ascending = some r ∧
          (history actions).apply t = .ok r) ∧
      ((history actions).ascending.Perm (history actions).toList ∧
        Ascending (history actions).ascending) ∧
      (∀ es, es.Perm (history actions).toList →
        es.foldlM push empty = .ok ⟨es⟩ ∧
          (⟨es⟩ : EditList).apply t = (history actions).apply t) ∧
      (∀ e l', (history actions).push e = .ok l' ↔
        l'.toList = (history actions).toList ++ [e] ∧ l'.Separated) ∧
      (∀ e l', (history actions).push e = .ok l' →
        history (actions ++ [.push e]) = l' ∧ history (actions ++ [.offer e]) = l') ∧
      ∀ e err, (history actions).push e = .error err → ∀ later,
        history (actions ++ .push e :: later) = history (actions ++ later) ∧
          history (actions ++ .offer e :: later) = history (actions ++ later) := by
  have hl := history_separated actions
  refine ⟨hl.apply_eq_error_iff t, ?_, ⟨ascending_perm _, hl.ascending⟩, ?_,
    fun e l' => push_eq_ok_iff hl, ?_, ?_⟩
  · intro hfit
    exact hl.apply_eq_substitute (ascending_perm _) hl.ascending
      (fun e he => not_misfit_iff.1 (hfit e he))
  · intro es hp
    exact ⟨(foldlM_push_eq_ok_iff separated_empty).2 ⟨rfl, hl.perm hp⟩, hl.apply_perm hp t⟩
  · intro e l' hpush
    rw [history_append_cons, history_append_cons]
    exact perform_of_push_eq_ok hpush
  · intro e err herr later
    have hsame := perform_of_push_eq_error herr
    exact ⟨history_skip later hsame.1, history_skip later hsame.2⟩

end EditList
end Mutagen
