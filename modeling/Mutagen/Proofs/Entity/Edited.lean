import Mathlib.Data.List.Sort
import Mutagen.Proofs.Edit.Conservation
import Mutagen.Proofs.Edit.Selection
import Mutagen.Proofs.Modifier.UntouchedLines

/-!
# Edited entities

A mutant is the text of an entity with edits made in it, before it is dedented. The
edits have the coordinates of the file: the file with the edited text in the place of
the entity is the file with the edits made in it.
-/
namespace Mutagen
namespace Entity

/-- `r` is the text of the entity with edits of its file made in it: put in the place of the
entity, it makes the file with the edits made all at once. -/
structure Edited (e : Entity) (es : List Edit) (r : Text) : Prop where
  raw : e.handle.source.slice? e.span.start e.span.stop = some e.raw
  file : e.handle.source.Edited es (e.handle.source.splice e.span.start e.span.stop r)

/-- The file around an entity, and the file with another text in its place. -/
theorem exists_surroundings {e : Entity}
    (h : e.handle.source.slice? e.span.start e.span.stop = some e.raw) :
    ∃ before after, e.handle.source = before ++ e.raw ++ after ∧ before.size = e.span.start ∧
      before.size + e.raw.size = e.span.stop ∧ e.raw.size = e.span.len ∧
      ∀ r, e.handle.source.splice e.span.start e.span.stop r = before ++ r ++ after := by
  obtain ⟨before, after, hsource, hstart, hstop⟩ := Text.slice?_eq_some_iff.1 h
  have hlen : e.raw.size = e.span.len := by
    rw [Span.len]
    omega
  refine ⟨before, after, hsource, hstart, hstop, hlen, ?_⟩
  intro r
  rw [← hstop, ← hstart, hsource]
  exact Text.splice_append before e.raw after r

namespace Edited

variable {e : Entity} {es : List Edit} {r : Text}

/-- The characters taken away and those brought in account for every difference. -/
theorem conserves (h : e.Edited es r) :
    (r ++ (es.map fun x => x.span.text e.handle.source).flatten).Perm
      (e.raw ++ (es.map fun x => x.replacement).flatten) := by
  obtain ⟨before, after, hsource, -, -, -, hsplice⟩ := exists_surroundings h.raw
  have hcount := List.perm_iff_count.1 h.file.conserves
  apply List.perm_iff_count.2
  intro c
  have hc := hcount c
  have hfile := congrArg (List.count c) hsource
  rw [hsplice] at hc
  simp only [List.count_append] at hc hfile ⊢
  omega

/-- Edits that only rearrange the texts of their spans keep every character. -/
theorem perm (h : e.Edited es r)
    (hsame : (es.map fun x => x.replacement).Perm
      (es.map fun x => x.span.text e.handle.source)) : r.Perm e.raw := by
  have hmoved : (e.raw ++ (es.map fun x => x.replacement).flatten).Perm
      (e.raw ++ (es.map fun x => x.span.text e.handle.source).flatten) :=
    hsame.flatten.append_left e.raw
  exact (List.perm_append_right_iff _).1 (h.conserves.trans hmoved)

/-- Edits that replace each span by as many bytes keep the size. -/
theorem size_eq (h : e.Edited es r)
    (hsame : (es.map fun x => x.replacement.size).sum =
      (es.map fun x => (x.span.text e.handle.source).size).sum) : r.size = e.raw.size := by
  have hsize := Text.size_eq_of_perm h.conserves
  simp only [Text.size_append, Text.size_flatten, List.map_map] at hsize
  change r.size + (es.map fun x => (x.span.text e.handle.source).size).sum =
    e.raw.size + (es.map fun x => x.replacement.size).sum at hsize
  omega

/-- When the size is kept, what stands behind all edits keeps its place. -/
theorem slice?_behind (h : e.Edited es r) (hsize : r.size = e.raw.size) {x : Text} {i j : Nat}
    (hstart : e.span.start ≤ i) (hstop : j ≤ e.span.stop)
    (hes : ∀ y ∈ es, y.span.stop ≤ i) (hx : e.handle.source.slice? i j = some x) :
    r.slice? (i - e.span.start) (j - e.span.start) = some x := by
  obtain ⟨before, after, hsource, hbefore, hbody, -, hsplice⟩ := exists_surroundings h.raw
  obtain ⟨a, b, hcut, rfl, rfl⟩ := Text.slice?_eq_some_iff.1 hx
  have hfile := h.file
  rw [hsplice, hcut, List.append_assoc] at hfile
  obtain ⟨a', ha'⟩ := hfile.suffix hes
  have hsame : a'.size = a.size := by
    have hold := congrArg Text.size (hsource.symm.trans hcut)
    have hnew := congrArg Text.size ha'
    simp only [Text.size_append] at hold hnew
    omega
  -- the part of the new file before x holds the file before the entity, and r the rest with x
  rw [List.append_assoc] at ha'
  obtain ⟨first, rfl, hrest⟩ := Text.append_eq_append_of_le ha' (by omega)
  rw [← List.append_assoc] at hrest
  have hfirst : (first ++ x).size ≤ r.size := by
    simp only [Text.size_append] at hsame ⊢
    omega
  obtain ⟨last, rfl, -⟩ := Text.append_eq_append_of_le hrest.symm hfirst
  apply Text.slice?_eq_some_iff.2
  refine ⟨first, last, rfl, ?_, ?_⟩
  · simp only [Text.size_append] at hsame
    omega
  · simp only [Text.size_append] at hsame
    omega

end Edited

section Made

variable {e : Entity} {edits : EditList}

/-- Edits of the file that enter the entity can be made in its text, cut at its end. -/
theorem exists_edited_cut (hsep : edits.Separated)
    (hraw : e.handle.source.slice? e.span.start e.span.stop = some e.raw)
    (hin : ∀ x ∈ edits.toList, x.Enters e.span.start e.span.len)
    (hfit : ∀ x ∈ edits.toList, EditList.fits e.handle.source x = true) :
    ∃ rebased r, edits.rebase e.span.start e.span.len = .ok rebased ∧
      rebased.apply e.raw = .ok r ∧ e.Edited (edits.cutAt e.span.stop).toList r := by
  obtain ⟨before, after, hsource, hstart, hstop, hlen, hsplice⟩ := exists_surroundings hraw
  have hcut : ∀ x ∈ edits.toList, (before ++ e.raw ++ after).isBoundary x.span.start = true ∧
      (x.span.stop ≤ before.size + e.raw.size →
        (before ++ e.raw ++ after).isBoundary x.span.stop = true) := by
    intro x hx
    have hbounds := hfit x hx
    simp only [EditList.fits, Bool.and_eq_true] at hbounds
    rw [← hsource]
    exact ⟨hbounds.1.2, fun _ => hbounds.2⟩
  rw [← hstart, ← hlen] at hin
  obtain ⟨rebased, r, hrebase, hcuts, happly, hwhole⟩ := hsep.apply_rebased hin hcut
  have hsep' : (edits.cutAt e.span.stop).Separated := by
    rw [← hstop, ← hcuts]
    exact (EditList.separated_of_rebase hrebase).translate before.size
  rw [hstop, ← hsource, ← hsplice r] at hwhole
  rw [hstart, hlen] at hrebase
  exact ⟨rebased, r, hrebase, happly, hraw, hsep'.edited hwhole⟩

/-- Edits of the file that fall inside the entity can be made in its text. -/
theorem exists_edited (hsep : edits.Separated)
    (hraw : e.handle.source.slice? e.span.start e.span.stop = some e.raw)
    (hin : ∀ x ∈ edits.toList, e.span.start ≤ x.span.start ∧ x.span.stop ≤ e.span.stop)
    (hfit : ∀ x ∈ edits.toList, EditList.fits e.handle.source x = true) :
    ∃ rebased r, edits.rebase e.span.start e.span.len = .ok rebased ∧
      rebased.apply e.raw = .ok r ∧ e.Edited edits.toList r := by
  have henters : ∀ x ∈ edits.toList, x.Enters e.span.start e.span.len := by
    intro x hx
    obtain ⟨hstart, hstop⟩ := hin x hx
    refine ⟨hstart, .inl ?_⟩
    rw [Span.len]
    omega
  have hmade := exists_edited_cut hsep hraw henters hfit
  rw [EditList.cutAt_eq_self fun x hx => (hin x hx).2] at hmade
  exact hmade

/-- What is shown of edits that can be made: the edited text, when it is another one. -/
theorem mutated?_eq_of_apply {rebased : EditList} {r : Text}
    (hrebase : edits.rebase e.span.start e.span.len = .ok rebased)
    (happly : rebased.apply e.raw = .ok r) :
    e.mutated? edits = if edits.isEmpty = true ∨ Text.dedent r e.indent = e.code then none
      else some (Text.dedent r e.indent) := by
  have hmade : (edits.rebase e.span.start e.span.len >>= fun l => l.apply e.raw) = .ok r := by
    rw [hrebase]
    exact happly
  unfold mutated?
  rw [hmade]
  by_cases hempty : edits.isEmpty = true
  · rw [if_pos hempty, if_pos (.inl hempty)]
  · simp only [hempty, false_or, if_false, Bool.false_eq_true]

/-- No edit but an empty one can be made in no text, so that the span of an entity in which another
one was made is a run of characters. -/
theorem slice?_of_apply_of_pos {rebased : EditList} {r : Text} (hsep : rebased.Separated) {x : Edit}
    (hx : x ∈ rebased.toList) (hpos : 0 < x.span.stop) (happly : rebased.apply e.raw = .ok r) :
    e.handle.source.slice? e.span.start e.span.stop = some e.raw := by
  cases hslice : e.handle.source.slice? e.span.start e.span.stop with
  | some m =>
    have hraw : e.raw = m := Text.text_eq_of_slice? hslice
    rw [hraw]
  | none =>
    have hempty : e.raw = [] := by
      change (e.handle.source.slice? e.span.start e.span.stop).getD [] = []
      rw [hslice]
      rfl
    have hfit := hsep.fits_of_apply_eq_ok happly x hx
    rw [hempty] at hfit
    have hstop : x.span.stop ≤ 0 := EditList.stop_le_size_of_fits hfit
    omega

/-- Two edits that do not clash need some text between them. -/
theorem slice?_of_apply {rebased : EditList} {r : Text} (hsep : rebased.Separated)
    (htwo : 2 ≤ rebased.toList.length) (happly : rebased.apply e.raw = .ok r) :
    e.handle.source.slice? e.span.start e.span.stop = some e.raw := by
  obtain ⟨es⟩ := rebased
  match es with
  | [] => simp at htwo
  | [x] => simp at htwo
  | x :: y :: rest =>
    have hxo := hsep.ordered x (by simp)
    have hyo := hsep.ordered y (by simp)
    rcases (List.pairwise_cons.1 hsep.apart).1 y (by simp) with hxy | hyx
    · have hpos : 0 < y.span.stop := by
        have h := hxy.1
        omega
      exact slice?_of_apply_of_pos hsep (by simp) hpos happly
    · have hpos : 0 < x.span.stop := by
        have h := hyx.1
        omega
      exact slice?_of_apply_of_pos hsep (by simp) hpos happly

/-- What a mutant shows is the text of the entity with its edits made at once, dedented. -/
theorem edited_of_mutated? {code : Text} (hsep : edits.Separated)
    (htwo : 2 ≤ edits.toList.length)
    (hstop : ∀ x ∈ edits.toList, x.span.stop ≤ e.span.stop) (h : e.mutated? edits = some code) :
    ∃ r, code = Text.dedent r e.indent ∧ e.Edited edits.toList r := by
  obtain ⟨-, rebased, r, hrebase, happly, hcode, -⟩ := mutated?_eq_some_iff.1 h
  obtain ⟨hstart, hmoved, hsep'⟩ := EditList.rebase_eq_ok_iff.1 hrebase
  have hraw := slice?_of_apply hsep' (by rw [hmoved, List.length_map]; exact htwo) happly
  obtain ⟨before, after, hsource, hbefore, hbody, hlen, -⟩ := exists_surroundings hraw
  have hfit : ∀ x ∈ edits.toList, EditList.fits e.handle.source x = true := by
    intro x hx
    have hpart : EditList.fits e.raw (EditList.moved before.size e.raw.size x) = true := by
      apply hsep'.fits_of_apply_eq_ok happly
      rw [hmoved, hbefore, hlen]
      exact List.mem_map_of_mem hx
    rw [hsource]
    apply EditList.fits_of_moved (hsep.ordered x hx) _ _ hpart
    · rw [hbefore]
      exact hstart x hx
    · rw [hbody]
      exact hstop x hx
  obtain ⟨rebased', r', hrebase', happly', hedited⟩ :=
    exists_edited hsep hraw (fun x hx => ⟨hstart x hx, hstop x hx⟩) hfit
  rw [hrebase] at hrebase'
  cases hrebase'
  rw [happly] at happly'
  cases happly'
  exact ⟨r, hcode, hedited⟩

/-- What a mutant shows of edits that start in the entity and take some of its text: they are made
up to its end. -/
theorem edited_cut_of_mutated? {code : Text} (hsep : edits.Separated)
    (hin : ∀ x ∈ edits.toList, x.span.start < x.span.stop ∧ x.span.start < e.span.stop)
    (hfit : ∀ x ∈ edits.toList, EditList.fits e.handle.source x = true)
    (h : e.mutated? edits = some code) :
    ∃ r, code = Text.dedent r e.indent ∧ e.Edited (edits.cutAt e.span.stop).toList r := by
  obtain ⟨hsome, rebased, r, hrebase, happly, hcode, -⟩ := mutated?_eq_some_iff.1 h
  obtain ⟨hstart, hmoved, hsep'⟩ := EditList.rebase_eq_ok_iff.1 hrebase
  have henters : ∀ x ∈ edits.toList, x.Enters e.span.start e.span.len := by
    intro x hx
    have hle := hstart x hx
    have hlt := (hin x hx).2
    refine ⟨hle, .inr ?_⟩
    rw [Span.len]
    omega
  obtain ⟨x, rest, hlist⟩ := List.exists_cons_of_ne_nil (l := edits.toList) (by
    intro hnone
    simp [EditList.isEmpty, hnone] at hsome)
  have hx : x ∈ edits.toList := by simp [hlist]
  have hpos : 0 < (EditList.moved e.span.start e.span.len x).span.stop := by
    have hle := hstart x hx
    have hlt := hin x hx
    simp only [EditList.moved, Span.len]
    omega
  have hraw := slice?_of_apply_of_pos hsep' (by rw [hmoved]; exact List.mem_map_of_mem hx) hpos
    happly
  obtain ⟨rebased', r', hrebase', happly', hedited⟩ := exists_edited_cut hsep hraw henters hfit
  rw [hrebase] at hrebase'
  cases hrebase'
  rw [happly] at happly'
  cases happly'
  exact ⟨r, hcode, hedited⟩

/-- What a loop over items makes of an entity, when no item has less than two edits. -/
theorem edited_of_selects {α : Type} {block : α → List Edit} {earlier : α → α → Prop}
    {greedy : Prop} {items taken : List α} {code : Text}
    (h : EditList.Selects block earlier greedy items edits taken)
    (htwo : ∀ a, block a ≠ [] → 2 ≤ (block a).length)
    (hstop : ∀ a ∈ items, ∀ x ∈ block a, x.span.stop ≤ e.span.stop)
    (hcode : e.mutated? edits = some code) :
    taken ≠ [] ∧ ∃ r, code = Text.dedent r e.indent ∧ e.Edited (taken.flatMap block) r := by
  have hsome : taken ≠ [] := by
    intro hnone
    have hedits := (mutated?_eq_some_iff.1 hcode).1
    simp [EditList.isEmpty, h.toList_eq_nil_iff.2 hnone] at hedits
  have hlength : 2 ≤ edits.toList.length := by
    obtain ⟨a, rest, rfl⟩ := List.exists_cons_of_ne_nil hsome
    have ha := htwo a (h.proper a List.mem_cons_self)
    rw [h.toList_eq, List.flatMap_cons, List.length_append]
    omega
  have hin : ∀ x ∈ edits.toList, x.span.stop ≤ e.span.stop := by
    intro x hx
    rw [h.toList_eq] at hx
    obtain ⟨a, ha, hx⟩ := List.mem_flatMap.1 hx
    exact hstop a (h.sublist.subset ha) x hx
  refine ⟨hsome, ?_⟩
  rw [← h.toList_eq]
  exact edited_of_mutated? h.separated hlength hin hcode

end Made
end Entity

/-! ## Evaluation -/

/-- The edits from the first span to the last, each inserted in its place. -/
def EditList.inserted (l : EditList) : List Edit :=
  l.toList.insertionSort fun a b => (a.span.order b.span).isLE = true

theorem EditList.Separated.apply_eq_inserted {l : EditList} (hl : l.Separated) (t : Text) :
    l.apply t = l.inserted.foldrM (make t) t := by
  have : Std.Total fun a b : Edit => (a.span.order b.span).isLE = true :=
    ⟨fun a b => by simpa using order_total a b⟩
  have : IsTrans Edit fun a b => (a.span.order b.span).isLE = true := ⟨order_trans⟩
  have hperm : l.inserted.Perm l.toList := List.perm_insertionSort _ _
  exact hl.apply_eq hperm (hl.ascending_of_sorted hperm (List.pairwise_insertionSort _ _)) t

/-- The entity with edits of its file made in it, from the edits in the order of their spans. -/
def Entity.changed? (e : Entity) (edits : EditList) : Option Text :=
  if edits.isEmpty then none
  else match edits.rebase e.span.start e.span.len >>= fun l =>
      l.inserted.foldrM (EditList.make e.raw) e.raw with
    | .error _ => none
    | .ok raw =>
      let code := Text.dedent raw e.indent
      if code = e.code then none else some code

theorem Entity.mutated?_eq_changed? (e : Entity) : e.mutated? = e.changed? := by
  funext edits
  unfold mutated? changed?
  cases hrebase : edits.rebase e.span.start e.span.len with
  | error err => rfl
  | ok rebased =>
    have hsep := (EditList.rebase_eq_ok_iff.1 hrebase).2.2
    change (if edits.isEmpty = true then none else match rebased.apply e.raw with
      | .error _ => none
      | .ok raw => if Text.dedent raw e.indent = e.code then none
        else some (Text.dedent raw e.indent)) = _
    rw [hsep.apply_eq_inserted]
    rfl

end Mutagen
