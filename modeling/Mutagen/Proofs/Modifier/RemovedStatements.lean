import Mutagen.Proofs.Modifier.BrokenChains
import Mutagen.Proofs.Text.WholeLines

/-!
# Removed statements

Each removed statement takes the rest of its lines with it, if nothing but blanks and one
`;` is there. The spans are widened one by one, and yet they stay apart, so that none of
the edits is refused and every chosen statement goes. The text that is left has fewer
characters that are not blank, so there is a mutant as soon as one statement is chosen.
-/
namespace Mutagen

/-- An edit on a run of characters stays on one when it is cut at a boundary. -/
theorem Span.Fits.cutAt {t : Text} {x : Edit} {stop : Nat} (h : x.span.Fits t)
    (hstop : t.isBoundary stop = true) (hle : x.span.start ≤ stop) :
    (x.cutAt stop).span.Fits t where
  ordered := Nat.le_min.2 ⟨h.ordered, hle⟩
  start := h.start
  stop := by
    change t.isBoundary (min x.span.stop stop) = true
    rcases Nat.le_total x.span.stop stop with hin | hout
    · rw [Nat.min_eq_left hin]
      exact h.stop
    · rw [Nat.min_eq_right hout]
      exact hstop

namespace Target

variable {t : Target} {statements : List Site}

/-! ## Edits -/

/-- Statements that can be removed together: no two share a byte, and each begins and ends with
text of its own. -/
structure Removable (t : Target) (statements : List Site) : Prop where
  firm : ∀ s ∈ statements, (t.text s).Firm
  clear : statements.Pairwise fun a b => a.span.stop ≤ b.span.start ∨ b.span.stop ≤ a.span.start

/-- The edits for removals, each with those behind it at hand. -/
def editsFrom (t : Target) (all : List Removal) : List Removal → List Edit
  | [] => []
  | r :: later => ⟨r.span, t.replacement all r later⟩ :: t.editsFrom all later

/-- An edit covers a statement, and beside it nothing but blanks and at most one `;`. -/
def Covers (t : Target) (x : Edit) (s : Site) : Prop :=
  x.span.contains s.span = true ∧ ∃ before after,
    x.span.text t.source = before ++ t.text s ++ after ∧
      ((before ++ after).filter fun c => !isBlank c).Sublist [';']

/-- The whole lines of a statement hold nothing else. -/
theorem covers_of_wholeLines {x : Edit} {s : Site} (hs : s.span.Fits t.source)
    (hx : x.span = t.source.wholeLines s.span) : t.Covers x s := by
  obtain ⟨before, after, hmargins⟩ := Text.exists_margins hs
  refine ⟨?_, before, after, ?_, ?_⟩
  · rw [hx]
    exact Span.contains_iff.2 hmargins.contains
  · rw [hx]
    exact hmargins.text_eq hs
  · have hnone : before.filter (fun c => !isBlank c) = [] :=
      List.filter_eq_nil_iff.2 fun c hc => by simp [isBlank_of_isIndent (hmargins.indent c hc)]
    rw [List.filter_append, hnone]
    exact hmargins.trimmed

theorem removals_perm (t : Target) (statements : List Site) :
    (t.removals statements).Perm
      (statements.map fun s => ⟨s, t.source.wholeLines s.span⟩) :=
  List.mergeSort_perm _ _

theorem of_mem_removals {r : Removal} (hr : r ∈ t.removals statements) :
    r.statement ∈ statements ∧ r.span = t.source.wholeLines r.statement.span := by
  obtain ⟨s, hs, rfl⟩ := List.mem_map.1 ((t.removals_perm statements).mem_iff.1 hr)
  exact ⟨hs, rfl⟩

theorem map_statement_removals (t : Target) (statements : List Site) :
    ((t.removals statements).map (·.statement)).Perm statements := by
  have hperm := (t.removals_perm statements).map (·.statement)
  simpa [Function.comp_def] using hperm

theorem replacement_eq_nil (hfiller : t.grammar.emptyBlockFiller = none) (all : List Removal)
    (r : Removal) (later : List Removal) : t.replacement all r later = [] := by
  rw [replacement, hfiller]

theorem exists_removal_of_mem {all rs : List Removal} {x : Edit} (hx : x ∈ t.editsFrom all rs) :
    ∃ earlier r later, rs = earlier ++ r :: later ∧ x = ⟨r.span, t.replacement all r later⟩ := by
  induction rs with
  | nil => cases hx
  | cons r later ih =>
    rcases List.mem_cons.1 hx with rfl | hx
    · exact ⟨[], r, later, rfl, rfl⟩
    · obtain ⟨earlier, r', later', hrest, hx⟩ := ih hx
      exact ⟨r :: earlier, r', later', by rw [hrest, List.cons_append], hx⟩

theorem mem_editsFrom {all earlier later : List Removal} {r : Removal} :
    ⟨r.span, t.replacement all r later⟩ ∈ t.editsFrom all (earlier ++ r :: later) := by
  induction earlier with
  | nil => exact List.mem_cons_self
  | cons q earlier ih => exact List.mem_cons_of_mem _ ih

theorem map_span_editsFrom (all rs : List Removal) :
    (t.editsFrom all rs).map (·.span) = rs.map (·.span) := by
  induction rs with
  | nil => rfl
  | cons r later ih => simp [editsFrom, ih]

/-- What holds of every removal with those behind it, holds of the edits one by one. -/
theorem forall₂_editsFrom {P : Edit → Removal → Prop} {all rs : List Removal}
    (h : ∀ earlier r later, rs = earlier ++ r :: later →
      P ⟨r.span, t.replacement all r later⟩ r) :
    List.Forall₂ P (t.editsFrom all rs) rs := by
  induction rs with
  | nil => exact .nil
  | cons r later ih =>
    refine .cons (h [] r later rfl) (ih ?_)
    intro earlier r' later' hrest
    exact h (r :: earlier) r' later' (by rw [hrest, List.cons_append])

/-- Edits that are apart are made one after another, none of them refused. -/
theorem removeFrom_eq {all rs : List Removal} {edits : EditList}
    (hsep : (⟨edits.toList ++ t.editsFrom all rs⟩ : EditList).Separated) :
    t.removeFrom all edits rs = ⟨edits.toList ++ t.editsFrom all rs⟩ := by
  induction rs generalizing edits with
  | nil => simp [removeFrom, editsFrom]
  | cons r later ih =>
    rw [editsFrom, List.append_cons] at hsep
    have hfirst : (⟨edits.toList ++ [⟨r.span, t.replacement all r later⟩]⟩ : EditList).Separated :=
      hsep.sublist (List.sublist_append_left _ _)
    have hpush : edits.push ⟨r.span, t.replacement all r later⟩ =
        .ok ⟨edits.toList ++ [⟨r.span, t.replacement all r later⟩]⟩ :=
      (EditList.push_eq_ok_iff (EditList.separated_append_singleton.1 hfirst).1).2 ⟨rfl, hfirst⟩
    rw [removeFrom, EditList.offer, hpush, ih hsep]
    simp [editsFrom]

section Removable

variable (h : t.Removable statements)

include h

/-- The removals are in the order of their statements. -/
theorem removals_ordered :
    (t.removals statements).Pairwise fun a b =>
      a.statement.span.stop ≤ b.statement.span.start := by
  have hsorted : (t.removals statements).Pairwise fun a b =>
      decide (a.span.start ≤ b.span.start) = true :=
    List.pairwise_mergeSort (fun a b c => by simpa using Nat.le_trans)
      (fun a b => by simpa using Nat.le_total _ _) _
  have hclear : (t.removals statements).Pairwise fun a b =>
      a.statement.span.stop ≤ b.statement.span.start ∨
        b.statement.span.stop ≤ a.statement.span.start :=
    (List.pairwise_map.2 h.clear).perm (t.removals_perm statements).symm Or.symm
  refine (hsorted.and hclear).imp_of_mem ?_
  rintro a b ha hb ⟨hle, hdisjoint⟩
  obtain ⟨hamem, haspan⟩ := of_mem_removals ha
  obtain ⟨hbmem, hbspan⟩ := of_mem_removals hb
  have hafirm := h.firm _ hamem
  have hbfirm := h.firm _ hbmem
  rcases hdisjoint with hforth | hback
  · exact hforth
  · have hlines := Text.wholeLines_stop_le_start hbfirm hafirm hback
    obtain ⟨before, after, hmargins⟩ := Text.exists_margins hbfirm.fits
    have hin := hmargins.contains
    have hpos := hbfirm.start_lt_stop
    have hle := of_decide_eq_true hle
    rw [haspan, hbspan] at hle
    omega

/-- The whole lines of the statements are apart. -/
theorem separated_editsFrom (all : List Removal) :
    (⟨t.editsFrom all (t.removals statements)⟩ : EditList).Separated := by
  have hspans := t.map_span_editsFrom all (t.removals statements)
  constructor
  · intro x hx
    have hmem : x.span ∈ (t.editsFrom all (t.removals statements)).map (·.span) :=
      List.mem_map_of_mem hx
    rw [hspans] at hmem
    obtain ⟨r, hr, hspan⟩ := List.mem_map.1 hmem
    obtain ⟨hmem, hlines⟩ := of_mem_removals hr
    rw [← hspan, hlines]
    exact (Text.fits_wholeLines (h.firm _ hmem).fits).ordered
  · have hapart : ((t.removals statements).map (·.span)).Pairwise Span.Apart := by
      refine List.pairwise_map.2 ((removals_ordered h).imp_of_mem ?_)
      intro a b ha hb hab
      obtain ⟨hamem, haspan⟩ := of_mem_removals ha
      obtain ⟨hbmem, hbspan⟩ := of_mem_removals hb
      have hafirm := h.firm _ hamem
      have hlines := Text.wholeLines_stop_le_start hafirm (h.firm _ hbmem) hab
      obtain ⟨before, after, hmargins⟩ := Text.exists_margins hafirm.fits
      have hin := hmargins.contains
      have hpos := hafirm.start_lt_stop
      rw [haspan, hbspan]
      exact .inl ⟨by omega, hlines⟩
    rw [← hspans] at hapart
    exact List.pairwise_map.1 hapart

/-- No edit is refused. -/
theorem removalEdits_eq : t.removalEdits statements =
    ⟨t.editsFrom (t.removals statements) (t.removals statements)⟩ := by
  change t.removeFrom _ .empty _ = ⟨EditList.empty.toList ++ _⟩
  exact removeFrom_eq (separated_editsFrom h _)

theorem separated_removalEdits : (t.removalEdits statements).Separated := by
  rw [removalEdits_eq h]
  exact separated_editsFrom h _

/-- Every edit is on the lines of a statement. -/
theorem exists_statement_of_mem {x : Edit} (hx : x ∈ (t.removalEdits statements).toList) :
    ∃ s ∈ statements, x.span = t.source.wholeLines s.span ∧
      ∃ r later, x.replacement = t.replacement (t.removals statements) r later := by
  rw [removalEdits_eq h] at hx
  obtain ⟨earlier, r, later, hrs, rfl⟩ := exists_removal_of_mem hx
  obtain ⟨hmem, hlines⟩ := of_mem_removals (r := r) (t := t) (by rw [hrs]; simp)
  exact ⟨r.statement, hmem, hlines, r, later, rfl⟩

/-- There is one edit for each statement, and it covers this statement. -/
theorem exists_covered : ∃ order, order.Perm statements ∧
    List.Forall₂ t.Covers (t.removalEdits statements).toList order := by
  refine ⟨_, t.map_statement_removals statements, ?_⟩
  rw [removalEdits_eq h]
  refine List.forall₂_map_right_iff.2 (forall₂_editsFrom ?_)
  intro earlier r later hrs
  obtain ⟨hmem, hlines⟩ := of_mem_removals (r := r) (t := t) (by rw [hrs]; simp)
  exact covers_of_wholeLines (h.firm _ hmem).fits hlines

theorem removalEdits_eq_nil_iff :
    (t.removalEdits statements).toList = [] ↔ statements = [] := by
  obtain ⟨order, horder, hcovers⟩ := exists_covered h
  have hlength := hcovers.length_eq.trans horder.length_eq
  rw [← List.length_eq_zero_iff, hlength, List.length_eq_zero_iff]

end Removable

/-! ## Entities -/

section Entity

variable {e : Entity} (hsource : e.handle.source = t.source)
  (hfirst : ∃ c ∈ e.raw.head?, isBlank c = false)
  (hin : ∀ s ∈ statements, e.span.start < s.span.start ∧ s.span.stop ≤ e.span.stop)

include hsource hfirst hin

/-- The lines of a statement inside an entity start inside it: the first character of the entity
is in front of them. -/
theorem start_le_start_wholeLines (h : t.Removable statements) {s : Site} (hs : s ∈ statements) :
    e.span.start ≤ (t.source.wholeLines s.span).start := by
  obtain ⟨c, hc, hblank⟩ := hfirst
  have hstart := (Span.first_of_head? (s := e.span) (t := e.handle.source) hc).1
  rw [hsource] at hstart
  obtain ⟨before, after, hmargins⟩ := Text.exists_margins (h.firm s hs).fits
  have hsize := c.utf8Size_pos
  have hbehind := (hin s hs).1
  by_contra hlt
  have hmem := Text.mem_of_slice? hmargins.leads hstart (by omega) hbehind
  rw [isBlank_of_isIndent (hmargins.indent c hmem)] at hblank
  cases hblank

/-- The statements can be removed from the entity around them. -/
theorem exists_edited_removalEdits (h : t.Removable statements) :
    ∃ rebased r, (t.removalEdits statements).rebase e.span.start e.span.len = .ok rebased ∧
      rebased.apply e.raw = .ok r ∧
      e.Edited ((t.removalEdits statements).cutAt e.span.stop).toList r := by
  have hraw : e.handle.source.slice? e.span.start e.span.stop = some e.raw := by
    apply Span.slice?_of_text_ne_nil
    obtain ⟨c, hc, -⟩ := hfirst
    intro hnil
    rw [show e.raw = [] from hnil] at hc
    cases hc
  apply Entity.exists_edited_cut _ hraw
  · intro x hx
    obtain ⟨s, hs, hlines, -⟩ := exists_statement_of_mem h hx
    have hle := start_le_start_wholeLines hsource hfirst hin h hs
    obtain ⟨before, after, hmargins⟩ := Text.exists_margins (h.firm s hs).fits
    have hcontains := hmargins.contains
    have hpos := (h.firm s hs).start_lt_stop
    have hstop := (hin s hs).2
    rw [Edit.Enters, hlines, Span.len]
    exact ⟨hle, .inr (by omega)⟩
  · intro x hx
    obtain ⟨s, hs, hlines, -⟩ := exists_statement_of_mem h hx
    rw [hsource]
    apply EditList.fits_of_fits
    rw [hlines]
    exact Text.fits_wholeLines (h.firm s hs).fits
  · exact separated_removalEdits h

omit hfirst in
/-- Without a filler, what is left has fewer characters that are not blank. -/
theorem solid_lt_of_removalEdits (h : t.Removable statements) (hsome : statements ≠ [])
    (hfiller : t.grammar.emptyBlockFiller = none) {r : Text}
    (hedited : e.Edited ((t.removalEdits statements).cutAt e.span.stop).toList r) :
    r.solid < e.raw.solid := by
  apply hedited.solid_lt
  · intro hnone
    exact hsome ((removalEdits_eq_nil_iff h).1 (List.map_eq_nil_iff.1 hnone))
  · intro x hx
    obtain ⟨y, hy, rfl⟩ := List.mem_map.1 hx
    obtain ⟨s, hs, hlines, q, later, hreplacement⟩ := exists_statement_of_mem h hy
    have hfirm := h.firm s hs
    obtain ⟨before, after, hmargins⟩ := Text.exists_margins hfirm.fits
    have hcontains := hmargins.contains
    have hord := hfirm.fits.ordered
    have hstop := (hin s hs).2
    have hend : t.source.isBoundary e.span.stop = true := by
      rw [← hsource]
      exact (Text.isBoundary_of_slice? hedited.raw).2
    have hwide : y.span.Fits t.source := by
      rw [hlines]
      exact Text.fits_wholeLines hfirm.fits
    have hcut := hwide.cutAt hend (by rw [hlines]; omega)
    have hle := hfirm.fits.solid_le hcut (by rw [Edit.cutAt, hlines]; exact hcontains.1)
      (by rw [Edit.cutAt, hlines]; dsimp only; omega)
    obtain ⟨c, hc, hblank, -⟩ := hfirm.first
    have hpos : 0 < (s.span.text t.source).solid := Text.solid_pos (List.mem_of_mem_head? hc) hblank
    rw [hsource]
    change y.replacement.solid < _
    rw [hreplacement, replacement_eq_nil hfiller, Text.solid_nil]
    omega

end Entity

/-! ## Choices -/

/-- No two chosen statements clash, and each is the statement of a candidate. -/
theorem always_chooseStatements (t : Target) (kinds : List String) (p : Float) :
    Draw.Always (fun chosen => (chosen.Pairwise fun a b => a.span.overlaps b.span = false) ∧
      ∀ x ∈ chosen, ∃ s ∈ t.site.descendantsOfKinds kinds, t.statementOf? s = some x)
      (t.chooseStatements kinds p) := by
  refine Draw.always_foldlM ?_ ⟨.nil, nofun⟩
  rintro s hs chosen ⟨hclear, hfrom⟩
  unfold chooseStep
  split
  · exact Draw.always_pure ⟨hclear, hfrom⟩
  · split
    · exact Draw.always_pure ⟨hclear, hfrom⟩
    · rename_i statement hstatement
      split
      · exact Draw.always_pure ⟨hclear, hfrom⟩
      · rename_i hnone
        refine Draw.always_bind_of_forall fun flipped => ?_
        split
        · refine Draw.always_pure ⟨List.pairwise_append.2 ⟨hclear, List.pairwise_singleton .., ?_⟩,
            ?_⟩
          · intro a ha b hb
            rw [List.mem_singleton.1 hb]
            simpa using fun hclash => hnone (List.any_eq_true.2 ⟨a, ha, hclash⟩)
          · intro x hx
            rcases List.mem_append.1 hx with hx | hx
            · exact hfrom x hx
            · exact ⟨s, hs, by rw [hstatement, List.mem_singleton.1 hx]⟩
        · exact Draw.always_pure ⟨hclear, hfrom⟩

/-- Statements that are chosen can be removed together, when each has text of its own. -/
theorem removable_of_chosen {kinds : List String} {p : Float} {g : Generator}
    (hfirm : ∀ s ∈ (t.chooseStatements kinds p g).1, (t.text s).Firm) :
    t.Removable (t.chooseStatements kinds p g).1 where
  firm := hfirm
  clear := by
    refine (t.always_chooseStatements kinds p g).1.imp_of_mem ?_
    intro a b ha hb hclear
    have hapart := (Span.overlaps_eq_false_iff (Nat.le_of_lt (hfirm a ha).start_lt_stop)
      (Nat.le_of_lt (hfirm b hb).start_lt_stop)).1 hclear
    rcases hapart with hab | hba
    · exact .inl hab.2
    · exact .inr hba.2

end Target

/-! ## Modifiers -/

/-- The kinds of nodes around which a strategy removes statements. -/
def Strategy.removedKinds? : Strategy → Option (Grammar → List String)
  | .removeLoops => some Grammar.loopKinds
  | .removeConditionals => some Grammar.ifKinds
  | .removeAssignments => some Grammar.assignmentKinds
  | .removeWrappers => some Grammar.wrapperKinds
  | _ => none

namespace Modifier

theorem modify_removeMatching {m : Modifier} {kinds : Grammar → List String}
    (hm : m.strategy.removedKinds? = some kinds) {e : Entity} {t : Target}
    (ht : e.target? = some t) :
    (m.modify e).1 = (e.mutated? (t.removalEdits
      (t.chooseStatements (kinds t.grammar) m.likelihood m.generator).1)).map
        fun code => ⟨code, m.strategy⟩ := by
  have hrun := modify_eq_of_draw (m := m) (e := e)
    (fun t => t.removeMatching (kinds t.grammar) m.likelihood) (by
      cases hs : m.strategy <;> rw [hs] at hm <;> cases hm <;> rfl) ht
  rw [hrun]
  rfl

/-- Every chosen statement is removed, and nothing else but blanks and a `;` beside it. Statements
that share no byte, and that begin and end with text of their own, get one edit each, on the lines
of the statement where nothing else is on them, and these edits can be made in an entity around the
statements. So, where no filler is put into empty blocks, a strategy that removes statements makes a
mutant exactly when it chooses one. -/
theorem modify_removes_statements :
    (∀ (t : Target) (statements : List Site), t.Removable statements →
      (∃ order, order.Perm statements ∧
        List.Forall₂ t.Covers (t.removalEdits statements).toList order) ∧
      (t.removalEdits statements).Separated ∧
      ∀ e : Entity, e.handle.source = t.source → (∃ c ∈ e.raw.head?, isBlank c = false) →
        (∀ s ∈ statements, e.span.start < s.span.start ∧ s.span.stop ≤ e.span.stop) →
        ∃ rebased r, (t.removalEdits statements).rebase e.span.start e.span.len = .ok rebased ∧
          rebased.apply e.raw = .ok r ∧
          e.Edited ((t.removalEdits statements).cutAt e.span.stop).toList r) ∧
    ∀ (m : Modifier) (kinds : Grammar → List String), m.strategy.removedKinds? = some kinds →
      ∀ (l : Language) (file : SourceFile) (kind : EntityKind) (s : Site) (e : Entity),
        e = l.dialect.build file kind s → (∃ c ∈ e.raw.head?, isBlank c = false) →
        ∀ t : Target, e.target? = some t → t.grammar.emptyBlockFiller = none →
        (∀ x ∈ (t.chooseStatements (kinds t.grammar) m.likelihood m.generator).1,
          (t.text x).Firm ∧ e.span.start < x.span.start) →
        ((m.modify e).1.isSome = true ↔
          (t.chooseStatements (kinds t.grammar) m.likelihood m.generator).1 ≠ []) := by
  constructor
  · intro t statements h
    refine ⟨Target.exists_covered h, Target.separated_removalEdits h, ?_⟩
    intro e hsource hfirst hin
    exact Target.exists_edited_removalEdits hsource hfirst hin h
  · rintro m kinds hm l file kind s e rfl hfirst t ht hfiller hchosen
    obtain ⟨-, hspan, hsource, -⟩ := Entity.of_target?_eq_some ht
    have hremovable := Target.removable_of_chosen fun x hx => (hchosen x hx).1
    have hfrom := (t.always_chooseStatements (kinds t.grammar) m.likelihood m.generator).2
    rw [modify_removeMatching hm ht, Option.isSome_map]
    generalize (t.chooseStatements (kinds t.grammar) m.likelihood m.generator).1 = chosen at *
    have hin : ∀ x ∈ chosen, (l.dialect.build file kind s).span.start < x.span.start ∧
        x.span.stop ≤ (l.dialect.build file kind s).span.stop := by
      intro x hx
      obtain ⟨c, -, hstatement⟩ := hfrom x hx
      have hcontains := Span.contains_iff.1 (Target.statementOf?_eq_some hstatement).2.1
      rw [hspan] at hcontains
      exact ⟨(hchosen x hx).2, hcontains.2⟩
    obtain ⟨rebased, r, hrebase, happly, hedited⟩ :=
      Target.exists_edited_removalEdits hsource.symm hfirst hin hremovable
    by_cases hsome : chosen = []
    · have hempty := (Target.removalEdits_eq_nil_iff hremovable).2 hsome
      have hnone : (l.dialect.build file kind s).mutated? (t.removalEdits chosen) = none := by
        rw [Entity.mutated?, if_pos (by rw [EditList.isEmpty, hempty]; rfl)]
      rw [hnone]
      simp [hsome]
    · have hlt := Target.solid_lt_of_removalEdits hsource.symm hin hremovable hsome hfiller hedited
      have hmutated := (Entity.mutated?_of_solid_lt (fun c hc => Text.isBlank_of_mem_lineIndent hc)
        rfl (fun hnone => hsome ((Target.removalEdits_eq_nil_iff hremovable).1 hnone))
        hrebase happly hlt).1
      simp [hmutated, hsome]

/-- A function with two assignments, the first one beside the brace. -/
def assigningText : Text := "function f() \x7b a = 1;\n  b = 2;\n\x7d".toList

/-- The tree of this function. -/
def assigningTree : Node :=
  .ofSpan "program" true none 0 32 [
    .ofSpan "function_declaration" true none 0 32 [
      .ofSpan "identifier" true (some "name") 9 10 [],
      .ofSpan "statement_block" true (some "body") 13 32 [
        .ofSpan "\x7b" false none 13 14 [],
        .ofSpan "expression_statement" true none 15 21 [
          .ofSpan "assignment_expression" true none 15 20 [],
          .ofSpan ";" false none 20 21 []],
        .ofSpan "expression_statement" true none 24 30 [
          .ofSpan "assignment_expression" true none 24 29 [],
          .ofSpan ";" false none 29 30 []],
        .ofSpan "\x7d" false none 31 32 []]]]

/-- Both assignments are removed, and there is a mutant. -/
theorem modify_removes_statements_assigning :
    ∃ e ∈ Language.javascript.dialect.extract ⟨"f.js", assigningText, assigningTree⟩ none,
      (((ofStrategy .removeAssignments .javascript 0).setLikelihood 1.0).modify e).1.isSome =
          true ∧
        ∃ (t : Target) (statements order : List Site), e.target? = some t ∧
          statements.map t.text = ["a = 1;".toList, "b = 2;".toList] ∧ order.Perm statements ∧
          List.Forall₂ t.Covers (t.removalEdits statements).toList order := by
  have hfound : ∃ e ∈ Language.javascript.dialect.extract
      ⟨"f.js", assigningText, assigningTree⟩ none, ∃ t ∈ e.target?,
        e.raw.head? = some 'f' ∧ t.grammar.emptyBlockFiller = none ∧
        (t.chooseStatements t.grammar.assignmentKinds
          ((ofStrategy .removeAssignments .javascript 0).setLikelihood 1.0).likelihood
          ((ofStrategy .removeAssignments .javascript 0).setLikelihood 1.0).generator).1.map
            t.text = ["a = 1;".toList, "b = 2;".toList] ∧
        ∀ x ∈ (t.chooseStatements t.grammar.assignmentKinds
            ((ofStrategy .removeAssignments .javascript 0).setLikelihood 1.0).likelihood
            ((ofStrategy .removeAssignments .javascript 0).setLikelihood 1.0).generator).1,
          (t.text x).Firm ∧ e.span.start < x.span.start := by
    decide +kernel
  obtain ⟨e, he, t, ht, hfirst, hfiller, htexts, hchosen⟩ := hfound
  obtain ⟨s, kind, hs, -, rfl⟩ := Dialect.mem_extract _ _ he
  have hiff := modify_removes_statements.2
    ((ofStrategy .removeAssignments .javascript 0).setLikelihood 1.0) _ rfl .javascript _ kind s _
    rfl ⟨'f', hfirst, by decide⟩ t ht hfiller hchosen
  obtain ⟨⟨order, horder, hcovers⟩, -, -⟩ := modify_removes_statements.1 t _
    (Target.removable_of_chosen fun x hx => (hchosen x hx).1)
  refine ⟨_, he, hiff.2 ?_, t, _, order, ht, htexts, horder, hcovers⟩
  intro hnone
  rw [show _ = [] from hnone] at htexts
  cases htexts

end Modifier
end Mutagen
