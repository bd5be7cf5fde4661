import Mathlib.Data.List.DropRight
import Mutagen.Proofs.Modifier.BrokenChains
import Mutagen.Proofs.Modifier.OrderlyLists
import Mutagen.Proofs.Modifier.ShiftedLiterals

/-!
# Removed bases

Removing a base of an orderly list takes its entry and one comma out of the list. A base that is
alone goes with its whole clause and the blanks before it. What is drawn is one base of the class,
and the mutant shows the class without it.
-/
namespace Mutagen

theorem EditList.separated_delete {s : Span} (h : s.start ≤ s.stop) :
    (⟨[.delete s]⟩ : EditList).Separated :=
  separated_append_singleton.2 ⟨separated_empty, h, fun _ hx => nomatch hx⟩

/-! ## Base lists of a class -/

theorem Grammar.within_baseLists {g : Grammar} {s list : Site} (h : list ∈ g.baseLists s) :
    s.Within list := by
  obtain ⟨c, hc, hlist⟩ := List.mem_flatMap.1 (List.mem_of_mem_filter h)
  split at hlist
  · rw [List.mem_singleton.1 hlist]
    exact .child .self hc
  · split at hlist
    · exact .child (.child .self hc) (List.mem_of_mem_filter hlist)
    · cases hlist

theorem Grammar.within_baseEntries (g : Grammar) (list : Site) :
    list.Within (g.baseEntries list) := by
  unfold baseEntries
  cases hinner : list.childOfKinds? g.baseInnerListKinds with
  | none => exact .self
  | some c => exact .child .self (List.mem_of_find?_eq_some hinner)

theorem Node.Tiled.laid_children {root : Node} (h : root.Tiled) {s : Site}
    (hs : (Site.top root).Within s) : BaseList.Laid s.children where
  ordered := fun c hc => h.ordered c (Site.mem_preorder_iff.2 (.child hs hc))
  apart := h.apart s (Site.mem_preorder_iff.2 hs)

namespace Target

variable {t : Target} {list : Site} {span : Span} {root : Node}

/-- A base that is alone goes with its whole clause and the blanks before it, and an entry that is
no base stays. -/
theorem exists_clause {only : List Site} (hlist : t.source.isBoundary list.span.start = true)
    (h : BaseList.entries (t.baseNodes list) = [only]) :
    ∃ kept blanks, t.source.slice? 0 list.span.start = some (kept ++ blanks) ∧
      (∀ c ∈ blanks, isIndent c = true) ∧ (∀ c ∈ kept.getLast?, isIndent c = false) ∧
      t.baseSpans list =
        if BaseList.names only = true then [⟨Text.size kept, list.span.stop⟩] else [] := by
  obtain ⟨front, rest, hsource, hsize⟩ := Text.isBoundary_iff.1 hlist
  have hslice : t.source.slice? 0 list.span.start = some front := by
    rw [hsource, ← hsize]
    exact Text.slice?_zero_append front rest
  refine ⟨front.rdropWhile isIndent, front.rtakeWhile isIndent, ?_, ?_, ?_, ?_⟩
  · rw [List.rdropWhile_append_rtakeWhile]
    exact hslice
  · exact fun c hc => List.mem_rtakeWhile_imp hc
  · intro c hc
    obtain ⟨hne, rfl⟩ := List.mem_getLast?_eq_getLast hc
    simpa using List.rdropWhile_last_not isIndent front hne
  · have hkept : Text.size (front.reverse.dropWhile isIndent) =
        Text.size (front.rdropWhile isIndent) := by
      rw [List.rdropWhile, Text.size_reverse]
    rw [baseSpans_of_single h, hslice, Option.getD_some, hkept]

section Tiled

variable (htree : root.Tiled) (hsite : (Site.top root).Within t.site)
  (hlist : list ∈ t.grammar.baseLists t.site)

include htree hsite hlist

theorem laid_baseNodes : BaseList.Laid (t.baseNodes list) :=
  htree.laid_children ((hsite.trans (Grammar.within_baseLists hlist)).trans
    (Grammar.within_baseEntries _ _))

variable (hfit : ∀ x, (Site.top root).Within x → x.span.Fits t.source)

include hfit

/-- The nodes of a base list are runs of characters of the class. -/
theorem fits_and_contains_of_mem_baseNodes {c : Site} (hc : c ∈ t.baseNodes list) :
    c.span.Fits t.source ∧ t.site.span.contains c.span = true := by
  have hwithin : t.site.Within c :=
    .child ((Grammar.within_baseLists hlist).trans (Grammar.within_baseEntries _ _)) hc
  exact ⟨hfit c (hsite.trans hwithin),
    Span.contains_iff.2 (htree.start_le_and_stop_le hsite hwithin)⟩

/-- A clause that the class does not begin with, with the blanks before it, is in the class. -/
theorem start_le_of_clause {kept blanks : Text}
    (hslice : t.source.slice? 0 list.span.start = some (kept ++ blanks))
    (hblanks : ∀ c ∈ blanks, isIndent c = true)
    (hsolid : ∃ c ∈ (⟨t.site.span.start, list.span.start⟩ : Span).text t.source,
      isIndent c = false) : t.site.span.start ≤ kept.size := by
  have hin := htree.start_le_and_stop_le hsite (Grammar.within_baseLists hlist)
  have hfront : (⟨t.site.span.start, list.span.start⟩ : Span).Fits t.source :=
    ⟨hin.1, (hfit _ hsite).start, (hfit _ (hsite.trans (Grammar.within_baseLists hlist))).start⟩
  obtain ⟨a, b, hsource, hstart, hstop⟩ := Text.slice?_eq_some_iff.1 hfront.slice?
  have hstart : a.size = t.site.span.start := hstart
  obtain ⟨first, rest, hcut, hzero, hsize⟩ := Text.slice?_eq_some_iff.1 hslice
  have hnone : first = [] := Text.eq_nil_of_size hzero
  rw [hnone, List.nil_append] at hcut
  rw [hzero, Nat.zero_add] at hsize
  -- otherwise all that the class has before the clause are blanks
  by_contra hlt
  have hsame : kept ++ (blanks ++ rest) =
      a ++ ((⟨t.site.span.start, list.span.start⟩ : Span).text t.source ++ b) := by
    rw [← List.append_assoc, ← hcut, ← List.append_assoc, ← hsource]
  obtain ⟨m, rfl, hrest⟩ := Text.append_eq_append_of_le hsame (by omega)
  rw [← List.append_assoc] at hrest
  obtain ⟨hblank, -⟩ := Text.append_inj_of_size hrest (by
    simp only [Text.size_append] at hsize hstop ⊢
    omega)
  obtain ⟨c, hc, hindent⟩ := hsolid
  rw [hblanks c (by rw [hblank]; exact List.mem_append_right _ hc)] at hindent
  cases hindent

/-- The span of a base is a run of characters that ends in the class, and begins there when the
class begins with more than blanks. -/
theorem fits_and_contains_of_mem_baseSpans (h : span ∈ t.baseSpans list) :
    span.Fits t.source ∧ span.stop ≤ t.site.span.stop ∧
      ((∃ c ∈ (⟨t.site.span.start, list.span.start⟩ : Span).text t.source, isIndent c = false) →
        t.site.span.contains span = true) := by
  by_cases hone : (BaseList.entries (t.baseNodes list)).length = 1
  · obtain ⟨only, honly⟩ := List.length_eq_one_iff.1 hone
    have hwithin := Grammar.within_baseLists hlist
    have hfits := hfit list (hsite.trans hwithin)
    have hin := htree.start_le_and_stop_le hsite hwithin
    obtain ⟨kept, blanks, hslice, hblanks, -, hspans⟩ := exists_clause hfits.start honly
    rw [hspans] at h
    split at h
    · rw [List.mem_singleton.1 h]
      obtain ⟨first, rest, hcut, hzero, hsize⟩ := Text.slice?_eq_some_iff.1 hslice
      have hord := hfits.ordered
      have hkept : t.source.isBoundary kept.size = true := by
        refine Text.isBoundary_iff.2 ⟨kept, blanks ++ rest, ?_, rfl⟩
        rw [hcut, Text.eq_nil_of_size hzero]
        simp
      refine ⟨⟨?_, hkept, hfits.stop⟩, hin.2, fun hsolid => Span.contains_iff.2 ⟨?_, hin.2⟩⟩
      · simp only [Text.size_append] at hsize ⊢
        omega
      · exact start_le_of_clause htree hsite hlist hfit hslice hblanks hsolid
    · cases h
  · obtain ⟨entry, hspans⟩ := exists_spans_of_mem_baseSpans hone h
    have hlaid := laid_baseNodes htree hsite hlist
    have hnodes := fun c (hc : c ∈ t.baseNodes list) =>
      fits_and_contains_of_mem_baseNodes htree hsite hlist hfit hc
    have hin := hspans.inside hlaid fun c hc => (hnodes c hc).2
    exact ⟨hspans.fits hlaid fun c hc => (hnodes c hc).1, (Span.contains_iff.1 hin).2,
      fun _ => hin⟩

/-- A span takes a base out of a list: its entry and one comma are deleted, and an orderly list of
the other entries is left, with their texts. -/
structure Removes (t : Target) (list : Site) (entry : List Site) (span : Span) : Prop where
  base : ∀ c ∈ entry, c.kind ≠ "keyword_argument"
  drops : ∃ before cut behind, BaseList.Drops (t.baseNodes list) before cut behind entry span ∧
    (∀ other ∈ BaseList.entries before,
      (BaseList.extent other).text (t.source.splice span.start span.stop []) =
        (BaseList.extent other).text t.source) ∧
    ∀ other ∈ BaseList.entries behind,
      (⟨(BaseList.extent other).start - span.len, (BaseList.extent other).stop - span.len⟩ :
        Span).text (t.source.splice span.start span.stop []) =
          (BaseList.extent other).text t.source

/-- The bases of an orderly list of several entries have each a span that takes them out. -/
theorem forall₂_removes (horderly : BaseList.Orderly (t.baseNodes list))
    (hmany : 2 ≤ (BaseList.entries (t.baseNodes list)).length) :
    List.Forall₂ (t.Removes list)
      ((BaseList.entries (t.baseNodes list)).filter BaseList.names) (t.baseSpans list) := by
  have hlaid := laid_baseNodes htree hsite hlist
  have hfits := fun c (hc : c ∈ t.baseNodes list) =>
    (fits_and_contains_of_mem_baseNodes htree hsite hlist hfit hc).1
  have hone : (BaseList.entries (t.baseNodes list)).length ≠ 1 := by omega
  have hbases : ∀ entry ∈ (BaseList.entries (t.baseNodes list)).filter BaseList.names,
      BaseList.names entry = true := fun entry hentry => (List.mem_filter.1 hentry).2
  refine ((List.forall₂_and_left _ _).2 ⟨hbases, forall₂_baseSpans hone⟩).imp ?_
  rintro entry span ⟨hnames, h⟩
  obtain ⟨before, cut, behind, hdrops⟩ := h.exists_drops hlaid horderly
  exact ⟨BaseList.kind_ne_of_names hnames, before, cut, behind, hdrops,
    hdrops.toCut.texts hlaid hfits (h.fits hlaid hfits)⟩

end Tiled

/-! ## The draw of a base -/

theorem returns_removeBase_delete (p : Float) :
    Attempt.Returns (fun edits => ∃ s ∈ t.baseRemovals, edits = ⟨[.delete s]⟩)
      (t.removeBase p) := by
  unfold removeBase
  dsimp only
  split
  · exact Attempt.returns_failure _
  · refine Attempt.returns_bind_of_forall fun flipped => ?_
    split
    · have hpick : Draw.Always (fun pick? => ∀ s ∈ pick?, s ∈ t.baseRemovals)
          (Draw.choose? t.baseRemovals) :=
        Draw.always_bind_of_forall fun i => Draw.always_pure fun s hs => List.mem_of_getElem? hs
      refine Attempt.returns_bind (Attempt.returns_lift hpick) fun pick? hin => ?_
      refine Attempt.returns_bind (Attempt.returns_ofOption hin) fun pick hmem => ?_
      split
      · rename_i edits hpush
        refine Attempt.returns_pure ⟨pick, hmem, ?_⟩
        have hlist := ((EditList.push_eq_ok_iff EditList.separated_empty).1 hpush).1
        exact congrArg EditList.mk hlist
      · exact Attempt.returns_failure _
    · exact Attempt.returns_failure _

/-- At likelihood 1 a base is drawn whenever there is one. -/
theorem always_removeBase {p : Float} (hp : (p == 1.0) = true) (hsome : t.baseRemovals ≠ [])
    (hle : t.baseRemovals.length ≤ UInt32.size)
    (hord : ∀ s ∈ t.baseRemovals, s.start ≤ s.stop) :
    Draw.Always (fun r => ∃ s ∈ t.baseRemovals, r = some ⟨[.delete s]⟩) (t.removeBase p).run := by
  unfold removeBase
  dsimp only
  rw [if_neg (by simpa using hsome), Attempt.flip, Draw.flip_eq_pure_true hp, Attempt.run_bind]
  refine Draw.always_bind (P := (· = some true)) (Draw.always_pure rfl) ?_
  rintro _ rfl
  dsimp only
  rw [if_pos rfl, Attempt.run_bind]
  have hpick := Draw.always_choose? (List.length_pos_iff.2 hsome) hle
  refine Draw.always_bind (P := fun r => ∃ s ∈ t.baseRemovals, r = some (some s)) ?_ ?_
  · refine Draw.always_bind hpick ?_
    rintro _ ⟨s, hs, rfl⟩
    exact Draw.always_pure ⟨s, hs, rfl⟩
  · rintro _ ⟨s, hs, rfl⟩
    have hpush : EditList.empty.push (.delete s) = .ok ⟨[.delete s]⟩ :=
      (EditList.push_eq_ok_iff EditList.separated_empty).2
        ⟨rfl, EditList.separated_delete (hord s hs)⟩
    dsimp only
    rw [Attempt.ofOption, pure_bind, hpush]
    exact Draw.always_pure ⟨s, hs, rfl⟩

end Target

/-! ## Modifiers -/

/-- A text with one span deleted. -/
theorem Text.Edited.eq_splice {t r : Text} {s : Span} (h : t.Edited [.delete s] r) :
    r = t.splice s.start s.stop [] := by
  have hmade := h.substituted
  rw [EditList.ascending, List.mergeSort_singleton, substitute?] at hmade
  obtain ⟨gap, hgap, hmade⟩ := Option.bind_eq_some_iff.1 hmade
  obtain ⟨rest, hrest, hr⟩ := Option.bind_eq_some_iff.1 hmade
  cases hr
  have hfits : s.Fits t := ⟨h.separated.ordered (.delete s) (by simp),
    (isBoundary_of_slice? hgap).2, (isBoundary_of_slice? hrest).1⟩
  obtain ⟨a, b, ht, hstart, hstop, hsplice⟩ := hfits.exists_without
  have hfront : t.slice? 0 s.start = some a := by
    rw [← hstart, ht, List.append_assoc]
    exact slice?_zero_append a _
  have hback : t.slice? s.stop t.size = some b := by
    rw [← hstop, ← size_append]
    have hend := slice?_size_append (a ++ s.text t) b
    rw [← ht] at hend
    exact hend
  have hgap : t.slice? 0 s.start = some gap := hgap
  have hrest : t.slice? s.stop t.size = some rest := hrest
  rw [hfront] at hgap
  rw [hback] at hrest
  cases hgap
  cases hrest
  rw [hsplice]
  simp [Edit.delete]

namespace Entity

variable {e : Entity} {edits : EditList}

/-- What a mutant shows of edits in the entity is its text with the edits made, dedented. -/
theorem edited_of_fits {code : Text} (hsep : edits.Separated)
    (hraw : e.handle.source.slice? e.span.start e.span.stop = some e.raw)
    (hstop : ∀ x ∈ edits.toList, x.span.stop ≤ e.span.stop)
    (hfit : ∀ x ∈ edits.toList, EditList.fits e.handle.source x = true)
    (h : e.mutated? edits = some code) :
    ∃ r, code = Text.dedent r e.indent ∧ e.Edited edits.toList r := by
  obtain ⟨-, rebased, r, hrebase, happly, hcode, -⟩ := mutated?_eq_some_iff.1 h
  have hstart := (EditList.rebase_eq_ok_iff.1 hrebase).1
  obtain ⟨rebased', r', hrebase', happly', hedited⟩ :=
    exists_edited hsep hraw (fun x hx => ⟨hstart x hx, hstop x hx⟩) hfit
  rw [hrebase] at hrebase'
  cases hrebase'
  rw [happly] at happly'
  cases happly'
  exact ⟨r, hcode, hedited⟩

section Extracted

variable {l : Language} {file : SourceFile} {limit : Option Nat} {t : Target} {s : Span}
  (htree : file.root.Tiled) (hfit : ∀ x, (Site.top file.root).Within x → x.span.Fits file.source)
  (he : e ∈ l.dialect.extract file limit) (ht : e.target? = some t)

include he ht

include hfit

theorem slice?_raw_of_extract :
    e.handle.source.slice? e.span.start e.span.stop = some e.raw := by
  obtain ⟨-, hsource, hsite, hspan, -⟩ := of_target?_of_mem_extract he ht
  have hslice := (hfit t.site hsite).slice?
  rw [hspan, ← hsource] at hslice
  exact hslice

include htree

/-- The span of a base is a run of characters that ends in the entity. -/
theorem fits_of_mem_baseRemovals (hs : s ∈ t.baseRemovals) :
    s.Fits file.source ∧ s.stop ≤ e.span.stop ∧
      ((∀ list ∈ t.grammar.baseLists t.site,
          ∃ c ∈ (⟨t.site.span.start, list.span.start⟩ : Span).text t.source, isIndent c = false) →
        e.span.start ≤ s.start) := by
  obtain ⟨-, -, hsite, hspan, hsource⟩ := of_target?_of_mem_extract he ht
  obtain ⟨list, hlist, hs⟩ := List.mem_flatMap.1 hs
  have hspans := Target.fits_and_contains_of_mem_baseSpans htree hsite hlist
    (by rw [hsource]; exact hfit) hs
  rw [hsource, hspan] at hspans
  rw [hsource, hspan]
  exact ⟨hspans.1, hspans.2.1, fun hsolid =>
    (Span.contains_iff.1 (hspans.2.2 (hsolid list hlist))).1⟩

/-- A mutant without one of the bases shows the file without its span. -/
theorem exists_without_of_mutated? (hs : s ∈ t.baseRemovals) {code : Text}
    (h : e.mutated? ⟨[.delete s]⟩ = some code) :
    ∃ r, code = Text.dedent r e.indent ∧
      t.source.splice e.span.start e.span.stop r = t.source.splice s.start s.stop [] := by
  obtain ⟨-, hhandle, -, -, hsource⟩ := of_target?_of_mem_extract he ht
  obtain ⟨hfits, hstop, -⟩ := fits_of_mem_baseRemovals htree hfit he ht hs
  have hsep := EditList.separated_delete hfits.ordered
  obtain ⟨r, hcode, hedited⟩ := edited_of_fits hsep (slice?_raw_of_extract hfit he ht)
    (by simpa [Edit.delete] using hstop)
    (fun x hx => by
      rw [List.mem_singleton.1 hx, hhandle]
      exact EditList.fits_of_fits hfits) h
  refine ⟨r, hcode, ?_⟩
  rw [hsource, ← hhandle]
  exact hedited.file.eq_splice

/-- Where the class begins with more than blanks, deleting a base that is more than blanks makes a
mutant. -/
theorem isSome_mutated?_delete (hs : s ∈ t.baseRemovals)
    (hsolid : ∀ list ∈ t.grammar.baseLists t.site,
      ∃ c ∈ (⟨t.site.span.start, list.span.start⟩ : Span).text t.source, isIndent c = false)
    (hseen : ∃ c ∈ s.text t.source, isBlank c = false) :
    (e.mutated? ⟨[.delete s]⟩).isSome = true := by
  obtain ⟨-, hhandle, -, -, hsource⟩ := of_target?_of_mem_extract he ht
  obtain ⟨hfits, hstop, hstart⟩ := fits_of_mem_baseRemovals htree hfit he ht hs
  have hsep := EditList.separated_delete hfits.ordered
  obtain ⟨rebased, r, hrebase, happly, hedited⟩ := exists_edited hsep
    (slice?_raw_of_extract hfit he ht)
    (fun x hx => by
      rw [List.mem_singleton.1 hx]
      exact ⟨hstart hsolid, hstop⟩)
    (fun x hx => by
      rw [List.mem_singleton.1 hx, hhandle]
      exact EditList.fits_of_fits hfits)
  have hlt : r.solid < e.raw.solid := by
    refine hedited.solid_lt (by simp) fun x hx => ?_
    obtain ⟨c, hc, hblank⟩ := hseen
    rw [List.mem_singleton.1 hx, hhandle, ← hsource]
    exact Text.solid_pos hc hblank
  obtain ⟨site, kind, -, -, rfl⟩ := Dialect.mem_extract _ _ he
  rw [(mutated?_of_solid_lt (fun c hc => Text.isBlank_of_mem_lineIndent hc) rfl (by simp) hrebase
    happly hlt).1]
  rfl

end Extracted
end Entity

namespace Modifier

theorem run_removeBase {m : Modifier} (hm : m.strategy = .removeBase) (e : Entity) :
    m.strategy.run e m.likelihood m.attempts = Attempt.ofOption e.target? >>= fun t =>
      t.removeBase m.likelihood >>= fun edits => Attempt.ofOption (e.mutated? edits) := by
  rw [hm]
  rfl

/-- Removing a base deletes the span of one. -/
theorem exists_deleted_of_modify {m : Modifier} (hm : m.strategy = .removeBase) {e : Entity}
    {t : Target} (ht : e.target? = some t) {w : Mutant} (hw : (m.modify e).1 = some w) :
    ∃ s ∈ t.baseRemovals, e.mutated? ⟨[.delete s]⟩ = some w.code := by
  obtain ⟨t', edits, ht', ⟨s, hs, rfl⟩, hcode⟩ := exists_edits_of_modify (run_removeBase hm e)
    (fun t _ => t.returns_removeBase_delete m.likelihood) hw
  rw [ht] at ht'
  cases ht'
  exact ⟨s, hs, hcode⟩

/-- There is a mutant when a base is always drawn whose span can be deleted. -/
theorem isSome_modify_of_always {m : Modifier} (hm : m.strategy = .removeBase) {e : Entity}
    {t : Target} (ht : e.target? = some t)
    (h : Draw.Always (fun r => ∃ edits, r = some edits ∧ (e.mutated? edits).isSome = true)
      (t.removeBase m.likelihood).run) : (m.modify e).1.isSome = true := by
  have hrun : Draw.Always (fun code => code.isSome = true)
      (m.strategy.run e m.likelihood m.attempts).run := by
    rw [run_removeBase hm e, ht, Attempt.ofOption, pure_bind, Attempt.run_bind]
    refine Draw.always_bind h ?_
    rintro _ ⟨edits, rfl, hedits⟩
    obtain ⟨code, hcode⟩ := Option.isSome_iff_exists.1 hedits
    dsimp only
    rw [hcode]
    exact Draw.always_pure rfl
  have hcode := hrun m.generator
  rw [modify]
  revert hcode
  cases (m.strategy.run e m.likelihood m.attempts).run m.generator with
  | mk code g => simp

/-- Removing a base keeps base lists in order. In an orderly list of several entries the span of
each base takes out its entry with one comma, and leaves an orderly list of the others, unchanged;
an entry that is alone goes, if it is a base, with its whole clause and just the blanks before it.
The spans lie in the class when it begins with more than blanks, and every mutant shows the class
without the text of just one of them. At likelihood 1 there is a mutant, when there is a base. -/
theorem modify_removes_base (m : Modifier) (hm : m.strategy = .removeBase) (l : Language)
    (file : SourceFile) (limit : Option Nat) (htree : file.root.Tiled)
    (hfit : ∀ x, (Site.top file.root).Within x → x.span.Fits file.source) (e : Entity)
    (he : e ∈ l.dialect.extract file limit) (t : Target) (ht : e.target? = some t) :
    (∀ list ∈ t.grammar.baseLists t.site,
      (BaseList.Orderly (t.baseNodes list) →
        2 ≤ (BaseList.entries (t.baseNodes list)).length →
        List.Forall₂ (t.Removes list)
          ((BaseList.entries (t.baseNodes list)).filter BaseList.names) (t.baseSpans list)) ∧
      (∀ only, BaseList.entries (t.baseNodes list) = [only] →
        ((∃ c ∈ only, c.kind = "keyword_argument") → t.baseSpans list = []) ∧
        ∃ kept blanks, t.source.slice? 0 list.span.start = some (kept ++ blanks) ∧
          (∀ c ∈ blanks, isIndent c = true) ∧ (∀ c ∈ kept.getLast?, isIndent c = false) ∧
          t.baseSpans list =
            if BaseList.names only = true then [⟨Text.size kept, list.span.stop⟩] else []) ∧
      ((∃ c ∈ (⟨t.site.span.start, list.span.start⟩ : Span).text t.source, isIndent c = false) →
        ∀ s ∈ t.baseSpans list, t.site.span.contains s = true)) ∧
    (∀ w, (m.modify e).1 = some w → ∃ s ∈ t.baseRemovals, ∃ r,
      w.code = Text.dedent r e.indent ∧
      t.source.splice e.span.start e.span.stop r = t.source.splice s.start s.stop []) ∧
    ((m.likelihood == 1.0) = true → t.baseRemovals ≠ [] →
      t.baseRemovals.length ≤ UInt32.size →
      (∀ list ∈ t.grammar.baseLists t.site,
        ∃ c ∈ (⟨t.site.span.start, list.span.start⟩ : Span).text t.source, isIndent c = false) →
      (∀ s ∈ t.baseRemovals, ∃ c ∈ s.text t.source, isBlank c = false) →
      (m.modify e).1.isSome = true) := by
  obtain ⟨-, -, hsite, -, hsource⟩ := Entity.of_target?_of_mem_extract he ht
  have hfit' : ∀ x, (Site.top file.root).Within x → x.span.Fits t.source := by
    rw [hsource]
    exact hfit
  refine ⟨fun list hlist => ⟨?_, ?_, ?_⟩, ?_, ?_⟩
  · exact fun horderly hmany => Target.forall₂_removes htree hsite hlist hfit' horderly hmany
  · intro only honly
    obtain ⟨kept, blanks, hslice, hblanks, hkept, hspans⟩ := Target.exists_clause
      (hfit' list (hsite.trans (Grammar.within_baseLists hlist))).start honly
    refine ⟨?_, kept, blanks, hslice, hblanks, hkept, hspans⟩
    rintro ⟨c, hc, hkind⟩
    rw [hspans, if_neg fun hnames => BaseList.kind_ne_of_names hnames c hc hkind]
  · exact fun hsolid s hs =>
      (Target.fits_and_contains_of_mem_baseSpans htree hsite hlist hfit' hs).2.2 hsolid
  · intro w hw
    obtain ⟨s, hs, hcode⟩ := exists_deleted_of_modify hm ht hw
    obtain ⟨r, hr, hsplice⟩ := Entity.exists_without_of_mutated? htree hfit he ht hs hcode
    exact ⟨s, hs, r, hr, hsplice⟩
  · intro hp hsome hle hsolid hseen
    have hord : ∀ s ∈ t.baseRemovals, s.start ≤ s.stop := fun s hs =>
      (Entity.fits_of_mem_baseRemovals htree hfit he ht hs).1.ordered
    refine isSome_modify_of_always hm ht fun g => ?_
    obtain ⟨s, hs, hdrawn⟩ := Target.always_removeBase hp hsome hle hord g
    exact ⟨_, hdrawn, Entity.isSome_mutated?_delete htree hfit he ht hs hsolid (hseen s hs)⟩

/-- A class with two bases and a metaclass. -/
def derivedText : Text := "class A(B, C, metaclass=M):\n    x = 1".toList

/-- The tree of this class. -/
def derivedTree : Node :=
  .ofSpan "module" true none 0 37 [
    .ofSpan "class_definition" true none 0 37 [
      .ofSpan "class" false none 0 5 [],
      .ofSpan "identifier" true (some "name") 6 7 [],
      .ofSpan "argument_list" true (some "superclasses") 7 26 [
        .ofSpan "(" false none 7 8 [],
        .ofSpan "identifier" true none 8 9 [],
        .ofSpan "," false none 9 10 [],
        .ofSpan "identifier" true none 11 12 [],
        .ofSpan "," false none 12 13 [],
        .ofSpan "keyword_argument" true none 14 25 [],
        .ofSpan ")" false none 25 26 []],
      .ofSpan ":" false none 26 27 [],
      .ofSpan "block" true (some "body") 32 37 [
        .ofSpan "expression_statement" true none 32 37 []]]]

theorem tiled_derived : derivedTree.Tiled := by decide +kernel

theorem fits_derived (x : Site) (hx : (Site.top derivedTree).Within x) :
    x.span.Fits derivedText := by
  have hall : ∀ x ∈ (Site.top derivedTree).preorder, x.span.Fits derivedText := by
    decide +kernel
  exact hall x (Site.mem_preorder_iff.2 hx)

/-- Each of the two bases can be removed with a comma, and one of them is. -/
theorem modify_removes_base_derived :
    ∃ e ∈ Language.python.dialect.extract ⟨"a.py", derivedText, derivedTree⟩ none,
      ∃ (t : Target) (list : Site), e.target? = some t ∧ list ∈ t.grammar.baseLists t.site ∧
        BaseList.Orderly (t.baseNodes list) ∧ 2 ≤ (BaseList.entries (t.baseNodes list)).length ∧
        t.baseSpans list = [⟨8, 11⟩, ⟨11, 14⟩] ∧
        List.Forall₂ (t.Removes list)
          ((BaseList.entries (t.baseNodes list)).filter BaseList.names) [⟨8, 11⟩, ⟨11, 14⟩] ∧
        ((((ofStrategy .removeBase .python 0).setLikelihood 1.0).modify e).1).isSome = true := by
  have hfound : ∃ e ∈ Language.python.dialect.extract ⟨"a.py", derivedText, derivedTree⟩ none,
      ∃ t ∈ e.target?, t.baseRemovals = [⟨8, 11⟩, ⟨11, 14⟩] ∧
        (∀ list ∈ t.grammar.baseLists t.site,
          ((⟨t.site.span.start, list.span.start⟩ : Span).text t.source).any
            (fun c => !isIndent c) = true) ∧
        (∀ s ∈ t.baseRemovals, (s.text t.source).any (fun c => !isBlank c) = true) ∧
        ∃ list ∈ t.grammar.baseLists t.site, BaseList.Orderly (t.baseNodes list) ∧
          2 ≤ (BaseList.entries (t.baseNodes list)).length ∧
          t.baseSpans list = [⟨8, 11⟩, ⟨11, 14⟩] := by
    decide +kernel
  have hlikelihood :
      (((ofStrategy .removeBase .python 0).setLikelihood 1.0).likelihood == 1.0) = true := by
    decide +kernel
  obtain ⟨e, he, t, ht, hremovals, hsolid, hseen, list, hlist, horderly, hmany, hspans⟩ := hfound
  simp only [List.any_eq_true, Bool.not_eq_true'] at hsolid hseen
  obtain ⟨hlists, -, hsome⟩ := modify_removes_base
    ((ofStrategy .removeBase .python 0).setLikelihood 1.0) rfl .python
    ⟨"a.py", derivedText, derivedTree⟩ none tiled_derived fits_derived e he t ht
  have hremoves := (hlists list hlist).1 horderly hmany
  rw [hspans] at hremoves
  refine ⟨e, he, t, list, ht, hlist, horderly, hmany, hspans, hremoves, ?_⟩
  refine hsome hlikelihood ?_ ?_ hsolid hseen
  · rw [hremovals]
    decide
  · rw [hremovals]
    decide

end Modifier
end Mutagen
