import Mutagen.Modifier.Attempt
import Mutagen.Proofs.Edit.Rebase
import Mutagen.Proofs.Text.Lines

/-!
# Untouched lines

A mutant differs from its entity only on the lines that an edit touches: the text
of both begins with the same lines before the first edit, and ends with the same
lines behind the last one, dedented alike.
-/
namespace Mutagen
namespace EditList

theorem exists_min_max {l : EditList} (hl : l.toList ≠ []) :
    ∃ first last, (l.toList.map fun e => e.span.start).min? = some first ∧
      (l.toList.map fun e => e.span.stop).max? = some last := by
  cases hmin : (l.toList.map fun e => e.span.start).min? with
  | none => exact absurd (List.map_eq_nil_iff.1 (List.min?_eq_none_iff.1 hmin)) hl
  | some first =>
    cases hmax : (l.toList.map fun e => e.span.stop).max? with
    | none => exact absurd (List.map_eq_nil_iff.1 (List.max?_eq_none_iff.1 hmax)) hl
    | some last => exact ⟨first, last, rfl, rfl⟩

/-- The hull of separated edits that fall on a text: it is a run of characters, and applying the
edits keeps the text on both sides of it. -/
theorem Separated.apply_hull {l : EditList} (hl : l.Separated) {t r : Text} {first last : Nat}
    (happly : l.apply t = .ok r)
    (hfirst : (l.toList.map fun e => e.span.start).min? = some first)
    (hlast : (l.toList.map fun e => e.span.stop).max? = some last) :
    ∃ before body after changed, t = before ++ body ++ after ∧ before.size = first ∧
      before.size + body.size = last ∧ r = before ++ changed ++ after := by
  have hfit := hl.fits_of_apply_eq_ok happly
  obtain ⟨hfirstMem, hfirstLe⟩ := List.min?_eq_some_iff.1 hfirst
  obtain ⟨hlastMem, hleLast⟩ := List.max?_eq_some_iff.1 hlast
  obtain ⟨p, hp, hpstart⟩ := List.mem_map.1 hfirstMem
  obtain ⟨q, hq, hqstop⟩ := List.mem_map.1 hlastMem
  have hpfit := hfit p hp
  have hqfit := hfit q hq
  simp only [fits, Bool.and_eq_true] at hpfit hqfit
  have hle : first ≤ last := by
    have h₁ := hl.ordered p hp
    have h₂ := hleLast _ (List.mem_map.2 ⟨p, hp, rfl⟩)
    omega
  obtain ⟨before, behind, rfl, hbefore⟩ := Text.isBoundary_iff.1 hpfit.1.2
  obtain ⟨body, after, rfl, hbody⟩ := Text.exists_cut hqfit.2 (by omega)
  rw [← List.append_assoc] at hfit happly
  obtain ⟨changed, hchanged⟩ := hl.apply_around (by
    intro e he
    have h₁ := hfirstLe _ (List.mem_map.2 ⟨e, he, rfl⟩)
    have h₂ := hleLast _ (List.mem_map.2 ⟨e, he, rfl⟩)
    omega) hfit
  rw [happly] at hchanged
  cases hchanged
  exact ⟨before, body, after, changed, by simp, by omega, by omega, rfl⟩

end EditList

namespace Text

/-- Two texts that differ only inside a run of characters have the lines outside it in common, and
dedenting keeps them so. -/
theorem dedent_hull (before body changed after indent : Text) :
    ∃ head tail x y,
      (before ++ body ++ after).slice? 0 ((before ++ body ++ after).lineStart before.size) =
        some head ∧
      (before ++ body ++ after).slice?
        ((before ++ body ++ after).lineStop (before.size + body.size))
        (before ++ body ++ after).size = some tail ∧
      dedent (before ++ body ++ after) indent =
        dedent head indent ++ x ++ dedentLines tail indent ∧
      dedent (before ++ changed ++ after) indent =
        dedent head indent ++ y ++ dedentLines tail indent := by
  have hstart : (before ++ body ++ after).isBoundary before.size = true :=
    isBoundary_iff.2 ⟨before, body ++ after, by simp, rfl⟩
  have hstop : (before ++ body ++ after).isBoundary (before.size + body.size) = true :=
    isBoundary_iff.2 ⟨before ++ body, after, rfl, size_append ..⟩
  obtain ⟨head, left, b, hsplit, hsize, hhead, hclosed, -⟩ := exists_lineStart hstart
  obtain ⟨a, right, tail, hsplit', hsize', htail, hend⟩ := exists_lineStop hstop
  rw [hhead, htail, hsize']
  -- the run is widened to whole lines on both sides, by left and by right
  obtain ⟨rfl, -⟩ : before = head ++ left ∧ body ++ after = b := by
    apply append_inj_of_size (by rw [← List.append_assoc, hsplit])
    rw [size_append, hsize]
  obtain ⟨-, rfl⟩ : a = head ++ left ++ body ∧ right ++ tail = after := by
    rw [List.append_assoc a] at hsplit'
    exact append_inj_of_size hsplit'.symm (by rw [hsize', size_append (head ++ left)])
  have hlines : ∀ mid : Text, tail = [] ∨ Closed (mid ++ right) ∧ mid ++ right ≠ [] := by
    intro mid
    rcases hend with htail | ⟨line, rfl, -⟩
    · exact .inl htail
    · exact .inr ⟨(closed_append_newline line).append_left (by simp) mid, by simp⟩
  obtain ⟨x, hx⟩ := dedent_around hclosed (hlines (left ++ body)) indent
  obtain ⟨y, hy⟩ := dedent_around hclosed (hlines (left ++ changed)) indent
  refine ⟨head, tail, x, y, ?_, ?_, ?_, ?_⟩
  · simpa using slice?_zero_append head (left ++ body ++ right ++ tail)
  · have h := slice?_size_append (head ++ left ++ body ++ right) tail
    rw [size_append (head ++ left ++ body), size_append (head ++ left)] at h
    simpa using h
  · rw [← hx]
    simp
  · rw [← hy]
    simp

end Text

namespace Entity

/-- What a mutant is: the edits, moved to the entity and made in its text, which is then dedented
and differs from the text before. -/
theorem mutated?_eq_some_iff {e : Entity} {edits : EditList} {code : Text} :
    e.mutated? edits = some code ↔
      edits.isEmpty = false ∧
        ∃ rebased raw, edits.rebase e.span.start e.span.len = .ok rebased ∧
          rebased.apply e.raw = .ok raw ∧ code = Text.dedent raw e.indent ∧ code ≠ e.code := by
  unfold mutated?
  constructor
  · intro h
    split at h
    · cases h
    · rename_i hne
      split at h
      · cases h
      · rename_i raw hmade
        dsimp only at h
        split at h
        · cases h
        · rename_i hdiff
          cases h
          cases hrebase : edits.rebase e.span.start e.span.len with
          | error err =>
            rw [hrebase] at hmade
            cases hmade
          | ok rebased =>
            rw [hrebase] at hmade
            exact ⟨by simpa using hne, rebased, raw, rfl, hmade, rfl, hdiff⟩
  · rintro ⟨hne, rebased, raw, hrebase, happly, rfl, hdiff⟩
    have hmade : (edits.rebase e.span.start e.span.len >>= fun l => l.apply e.raw) = .ok raw := by
      rw [hrebase]
      exact happly
    rw [if_neg (by simp [hne]), hmade]
    exact if_neg hdiff

/-- Every mutant of an entity keeps the lines that its edits do not touch: those before the line
of the first edit, and those behind the line on which the last one ends. -/
theorem mutated?_keeps_lines (d : Dialect) (file : SourceFile) (kind : EntityKind) (site : Site)
    (e : Entity) (he : e = d.build file kind site) (edits : EditList) (code : Text)
    (h : e.mutated? edits = some code) :
    ∃ rebased first last head tail x y,
      edits.rebase e.span.start e.span.len = .ok rebased ∧
      (rebased.toList.map fun e => e.span.start).min? = some first ∧
      (rebased.toList.map fun e => e.span.stop).max? = some last ∧
      e.raw.slice? 0 (e.raw.lineStart first) = some head ∧
      e.raw.slice? (e.raw.lineStop last) e.raw.size = some tail ∧
      e.code = Text.dedent head e.indent ++ x ++ Text.dedentLines tail e.indent ∧
      code = Text.dedent head e.indent ++ y ++ Text.dedentLines tail e.indent ∧
      code ≠ e.code := by
  have hcode : e.code = Text.dedent e.raw e.indent := by
    subst he
    rfl
  obtain ⟨hne, rebased, raw, hrebase, happly, rfl, hdiff⟩ := mutated?_eq_some_iff.1 h
  obtain ⟨-, hmoved, hsep⟩ := EditList.rebase_eq_ok_iff.1 hrebase
  have hsome : rebased.toList ≠ [] := by
    rw [hmoved]
    simpa [EditList.isEmpty] using hne
  obtain ⟨first, last, hfirst, hlast⟩ := EditList.exists_min_max hsome
  obtain ⟨before, body, after, changed, hraw, rfl, rfl, rfl⟩ :=
    hsep.apply_hull happly hfirst hlast
  obtain ⟨head, tail, x, y, hhead, htail, hx, hy⟩ :=
    Text.dedent_hull before body changed after e.indent
  rw [hcode, hraw]
  exact ⟨rebased, _, _, head, tail, x, y, hrebase, hfirst, hlast, hhead, htail, hx, hy,
    by rwa [hcode, hraw] at hdiff⟩

/-- A function of three statements under a tab. -/
def tabbed : Entity :=
  Dialect.python.build
    ⟨"m.py", "\tdef f:\n\t\té\n\t\tb\n\t\tc".toList,
      .mk ⟨"function_definition", true, false, false, false, ⟨1, 20⟩, none⟩ []⟩
    .callable (Site.top (.mk ⟨"function_definition", true, false, false, false, ⟨1, 20⟩, none⟩ []))

/-- Deleting the first statement of a function with its line keeps the other lines. -/
theorem mutated?_keeps_lines_tabbed :
    ∃ rebased first last head tail x y,
      (⟨[.delete ⟨8, 13⟩]⟩ : EditList).rebase tabbed.span.start tabbed.span.len = .ok rebased ∧
      (rebased.toList.map fun e => e.span.start).min? = some first ∧
      (rebased.toList.map fun e => e.span.stop).max? = some last ∧
      tabbed.raw.slice? 0 (tabbed.raw.lineStart first) = some head ∧
      tabbed.raw.slice? (tabbed.raw.lineStop last) tabbed.raw.size = some tail ∧
      tabbed.code = Text.dedent head tabbed.indent ++ x ++ Text.dedentLines tail tabbed.indent ∧
      "def f:\n\tb\n\tc".toList =
        Text.dedent head tabbed.indent ++ y ++ Text.dedentLines tail tabbed.indent ∧
      "def f:\n\tb\n\tc".toList ≠ tabbed.code :=
  mutated?_keeps_lines _ _ _ _ tabbed rfl ⟨[.delete ⟨8, 13⟩]⟩ "def f:\n\tb\n\tc".toList
    (by decide +kernel)

end Entity
end Mutagen
