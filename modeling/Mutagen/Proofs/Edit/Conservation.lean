import Mathlib.Algebra.GroupWithZero.Nat
import Mathlib.Data.List.Perm.Basic
import Mutagen.Proofs.Edit.Rebase
import Mutagen.Text.Bytes

/-!
# What edits conserve

Edits that are made at once take away the text under their spans, bring in their
replacements, and move everything else without changing it. So the characters of the
new text, with those that were taken away, are the characters of the old text, with
those that were brought in. When edits only rearrange the text of their own spans,
no character is lost and none is added.
-/
namespace Mutagen
namespace Text

theorem size_flatten (ts : List Text) : size ts.flatten = (ts.map size).sum := by
  induction ts with
  | nil => rfl
  | cons t ts ih => simp [ih]

theorem size_eq_of_perm {a b : Text} (h : a.Perm b) : size a = size b := by
  induction h with
  | nil => rfl
  | cons c _ ih => simp [ih]
  | swap c d a =>
    simp only [size_cons]
    omega
  | trans _ _ ih₁ ih₂ => exact ih₁.trans ih₂

theorem bytes_perm {a b : Text} (h : a.Perm b) : a.bytes.Perm b.bytes :=
  h.flatMap_right String.utf8EncodeChar

theorem text_eq_of_slice? {t m : Text} {s : Span} (h : t.slice? s.start s.stop = some m) :
    s.text t = m := by
  simp [Span.text, slice, h]

theorem isBoundary_of_slice? {t m : Text} {i j : Nat} (h : t.slice? i j = some m) :
    t.isBoundary i = true ∧ t.isBoundary j = true := by
  obtain ⟨a, b, rfl, rfl, rfl⟩ := slice?_eq_some_iff.1 h
  constructor
  · exact isBoundary_iff.2 ⟨a, m ++ b, by simp, rfl⟩
  · exact isBoundary_iff.2 ⟨a ++ m, b, rfl, size_append a m⟩

/-- Between two boundaries there is a run of characters. -/
theorem exists_slice? {t : Text} {i j : Nat} (hi : t.isBoundary i = true)
    (hj : t.isBoundary j = true) (hij : i ≤ j) : ∃ m, t.slice? i j = some m := by
  obtain ⟨a, b, rfl, rfl⟩ := isBoundary_iff.1 hi
  obtain ⟨m, c, rfl, rfl⟩ := exists_cut hj hij
  exact ⟨m, slice?_eq_some_iff.2 ⟨a, c, by simp, rfl, rfl⟩⟩

/-- Neighbouring runs of characters make one run. -/
theorem slice?_trans {t m m' : Text} {i j k : Nat} (h : t.slice? i j = some m)
    (h' : t.slice? j k = some m') : t.slice? i k = some (m ++ m') := by
  obtain ⟨a, b, rfl, rfl, rfl⟩ := slice?_eq_some_iff.1 h
  exact slice?_extend h'

theorem isBoundary_of_substitute? {t r : Text} {n : Nat} {es : List Edit}
    (h : t.substitute? n es = some r) : t.isBoundary n = true := by
  cases es with
  | nil => exact (isBoundary_of_slice? h).1
  | cons e es =>
    obtain ⟨gap, hgap, -⟩ := Option.bind_eq_some_iff.1 h
    exact (isBoundary_of_slice? hgap).1

/-- Substituting from a place on exchanges the text under the spans for the replacements, and
keeps the rest of what stands behind that place. -/
theorem substitute?_conserves {t r rest : Text} {n : Nat} {es : List Edit}
    (hord : ∀ e ∈ es, e.span.start ≤ e.span.stop) (hrest : t.slice? n t.size = some rest)
    (h : t.substitute? n es = some r) :
    (r ++ (es.map fun e => e.span.text t).flatten).Perm
      (rest ++ (es.map fun e => e.replacement).flatten) := by
  induction es generalizing n r rest with
  | nil =>
    rw [substitute?, hrest] at h
    cases h
    exact List.Perm.refl _
  | cons e es ih =>
    obtain ⟨he, hes⟩ := List.forall_mem_cons.1 hord
    obtain ⟨gap, hgap, hmore⟩ := Option.bind_eq_some_iff.1 h
    obtain ⟨made, hmade, hr⟩ := Option.bind_eq_some_iff.1 hmore
    cases hr
    -- from n on stand the gap, the text under the first span, and the rest behind it
    have hstart := (isBoundary_of_slice? hgap).2
    have hstop := isBoundary_of_substitute? hmade
    obtain ⟨old, hold⟩ := exists_slice? hstart hstop he
    have hle : e.span.stop ≤ t.size := by
      obtain ⟨a, b, ht, ha⟩ := isBoundary_iff.1 hstop
      rw [ht, size_append]
      omega
    have hend : t.isBoundary t.size = true := (isBoundary_of_slice? hrest).2
    obtain ⟨behind, hbehind⟩ := exists_slice? hstop hend hle
    have hall := slice?_trans (slice?_trans hgap hold) hbehind
    rw [hrest] at hall
    cases hall
    have hcount := List.perm_iff_count.1 (ih hes hbehind hmade)
    apply List.perm_iff_count.2
    intro c
    have hc := hcount c
    simp only [List.map_cons, List.flatten_cons, List.count_append, text_eq_of_slice? hold] at hc ⊢
    omega

/-- Substituting keeps what stands behind all spans. -/
theorem substitute?_suffix {a b r : Text} {n : Nat} {es : List Edit} (hn : n ≤ a.size)
    (hes : ∀ e ∈ es, e.span.stop ≤ a.size) (h : (a ++ b).substitute? n es = some r) :
    ∃ r', r = r' ++ b := by
  induction es generalizing n r with
  | nil =>
    obtain ⟨before, after, hcut, rfl, hsize⟩ := slice?_eq_some_iff.1 h
    have hafter : after = [] := by
      apply eq_nil_of_size
      have hall := congrArg size hcut
      simp only [size_append] at hall hsize
      omega
    rw [hafter, List.append_nil] at hcut
    obtain ⟨kept, -, hr⟩ := append_eq_append_of_le hcut.symm hn
    exact ⟨kept, hr⟩
  | cons e es ih =>
    obtain ⟨he, hes⟩ := List.forall_mem_cons.1 hes
    obtain ⟨gap, -, hmore⟩ := Option.bind_eq_some_iff.1 h
    obtain ⟨made, hmade, hr⟩ := Option.bind_eq_some_iff.1 hmore
    cases hr
    obtain ⟨kept, rfl⟩ := ih he hes hmade
    exact ⟨gap ++ e.replacement ++ kept, by simp⟩

/-- `r` is the text with edits made in it all at once: they do not clash, and `r` is the gaps of
the text between their spans, with the replacements in between. -/
structure Edited (t : Text) (es : List Edit) (r : Text) : Prop where
  separated : (⟨es⟩ : EditList).Separated
  substituted : t.substitute? 0 (⟨es⟩ : EditList).ascending = some r

namespace Edited

variable {t r : Text} {es : List Edit}

/-- The characters taken away and those brought in account for every difference. -/
theorem conserves (h : t.Edited es r) :
    (r ++ (es.map fun e => e.span.text t).flatten).Perm
      (t ++ (es.map fun e => e.replacement).flatten) := by
  have hperm := (⟨es⟩ : EditList).ascending_perm
  have hwhole : t.slice? 0 t.size = some t := slice?_size_append [] t
  have hsorted := substitute?_conserves
    (fun e he => h.separated.ordered e (hperm.mem_iff.1 he)) hwhole h.substituted
  have hold := (hperm.map fun e => e.span.text t).flatten
  have hnew := (hperm.map fun e => e.replacement).flatten
  exact ((hold.append_left r).symm.trans hsorted).trans (hnew.append_left t)

/-- What stands behind all edits is kept. -/
theorem suffix {a b : Text} (h : (a ++ b).Edited es r) (hes : ∀ e ∈ es, e.span.stop ≤ a.size) :
    ∃ r', r = r' ++ b := by
  apply substitute?_suffix (Nat.zero_le _) _ h.substituted
  intro e he
  exact hes e ((⟨es⟩ : EditList).ascending_perm.mem_iff.1 he)

end Edited
end Text

namespace EditList

/-- What a separated list makes of a text is the text with its edits made at once. -/
theorem Separated.edited {l : EditList} (hl : l.Separated) {t r : Text} (h : l.apply t = .ok r) :
    t.Edited l.toList r where
  separated := hl
  substituted := by
    obtain ⟨made, hmade, happly⟩ := hl.apply_eq_substitute l.ascending_perm hl.ascending
      (hl.fits_of_apply_eq_ok h)
    rw [h] at happly
    cases happly
    exact hmade

theorem stop_le_size_of_fits {t : Text} {e : Edit} (h : fits t e = true) :
    e.span.stop ≤ t.size := by
  simp only [fits, Bool.and_eq_true, decide_eq_true_eq] at h
  exact h.1.1

/-- An edit inside a part of a text falls on the text when it falls on the part. -/
theorem fits_of_moved {before body after : Text} {e : Edit} (he : e.span.start ≤ e.span.stop)
    (hstart : before.size ≤ e.span.start) (hstop : e.span.stop ≤ before.size + body.size)
    (h : fits body (moved before.size body.size e) = true) :
    fits (before ++ body ++ after) e = true := by
  have hmoved : (moved before.size body.size e).translate before.size = e := by
    rw [Edit.translate_moved he ⟨hstart, .inl hstop⟩, Edit.cutAt, Nat.min_eq_left hstop]
  rw [← hmoved]
  exact fits_translate h

end EditList
end Mutagen
