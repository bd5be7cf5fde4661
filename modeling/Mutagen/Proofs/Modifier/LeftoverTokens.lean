import Mutagen.Proofs.Modifier.RemovedBases

/-!
# Leftover tokens

The span of a base is found from the nodes of its entry, but a reference to a base may have other
tokens beside these. Where another entry follows, all of them go but those before the first node;
where none follows, all but those behind the last node. What is left there is then read as part
of a neighbouring base.
-/
namespace Mutagen

namespace BaseList

variable {nodes entry group lead core trail later : List Site} {span : Span}

/-- A token of a reference: no comment, and neither what opens the list nor what closes it. -/
def IsToken (nodes : List Site) (s : Site) : Prop :=
  s.extra = false ∧ (s.named = true ∨ nodes.head?.any (·.same s) = false ∧ s.kind ≠ ")")

instance (nodes : List Site) (s : Site) : Decidable (IsToken nodes s) :=
  inferInstanceAs (Decidable (_ ∧ _))

/-- The part of a reference that a span deletes: where another entry follows, all but what stands
before its first node, and otherwise all but what stands behind its last node. -/
structure Clears (group lead core trail later : List Site) (span : Span) : Prop
    extends Core group lead core trail where
  next : (∃ s ∈ later, s.counts = true) →
    (∀ s ∈ core ++ trail, span.contains s.span = true) ∧ ∀ s ∈ lead, s.span.stop ≤ span.start
  none_next : (∀ s ∈ later, s.counts = false) →
    (∀ s ∈ lead ++ core, span.contains s.span = true) ∧ ∀ s ∈ trail, span.stop ≤ s.span.start

/-- Where no token stands on the side that is left, all tokens of the reference are deleted. -/
theorem Clears.contains_token (h : Clears group lead core trail later span)
    (hlead : (∃ s ∈ later, s.counts = true) → ∀ s ∈ lead, ¬ IsToken nodes s)
    (htrail : (∀ s ∈ later, s.counts = false) → ∀ s ∈ trail, ¬ IsToken nodes s) {c : Site}
    (hc : c ∈ group) (htoken : IsToken nodes c) : span.contains c.span = true := by
  rw [h.whole, List.append_assoc] at hc
  by_cases hnext : ∃ s ∈ later, s.counts = true
  · rcases List.mem_append.1 hc with hc | hc
    · exact absurd htoken (hlead hnext c hc)
    · exact (h.next hnext).1 c hc
  · have hnone : ∀ s ∈ later, s.counts = false := by simpa using hnext
    rw [← List.append_assoc] at hc
    rcases List.mem_append.1 hc with hc | hc
    · exact (h.none_next hnone).1 c hc
    · exact absurd htoken (htrail hnone c hc)

/-- A span deletes a reference of a list, up to the tokens on one side of it. -/
def Deletes (nodes entry : List Site) (span : Span) : Prop :=
  ∃ earlier group later lead core trail, Between nodes earlier group later ∧
    group.filter Site.counts = entry ∧ Clears group lead core trail later span ∧
    (((∃ s ∈ later, s.counts = true) → ∀ s ∈ lead, ¬ IsToken nodes s) →
      ((∀ s ∈ later, s.counts = false) → ∀ s ∈ trail, ¬ IsToken nodes s) →
      ∀ s ∈ group, IsToken nodes s → span.contains s.span = true)

theorem Spans.deletes (h : Spans nodes entry span) (hlaid : Laid nodes) :
    Deletes nodes entry span := by
  obtain ⟨earlier, group, later, lead, core, trail, hbetween, hgroup, hcore, hcut⟩ :=
    h.exists_cut hlaid
  have hclears : Clears group lead core trail later span := by
    rcases hcut with ⟨skip, n, rest, rfl, hn, -, hcut⟩ | ⟨front, k, -, hlater, hcut⟩
    · refine ⟨hcore, fun _ => ⟨?_, ?_⟩, fun hnone => ?_⟩
      · exact fun s hs => hcut.inside s (List.mem_append_left _ hs)
      · exact fun s hs => hcut.left s (List.mem_append_right _ hs)
      · rw [hnone n (by simp)] at hn
        cases hn
    · refine ⟨hcore, ?_, fun _ => ⟨?_, ?_⟩⟩
      · rintro ⟨s, hs, hcounts⟩
        rw [hlater s hs] at hcounts
        cases hcounts
      · exact fun s hs => hcut.inside s (List.mem_cons_of_mem _ hs)
      · exact fun s hs => hcut.right s (List.mem_append_left _ hs)
  exact ⟨earlier, group, later, lead, core, trail, hbetween, hgroup, hclears,
    fun hlead htrail s hs htoken => hclears.contains_token hlead htrail hs htoken⟩

end BaseList

namespace Modifier

/-- Removing a base deletes all of it but the tokens on one side. In a list of several entries the
span of each base covers its reference, whose tokens are all deleted, unless one stands before
its first node, where another entry follows, or behind its last node, where none follows. Every
mutant shows the class without the text of one of these spans. -/
theorem modify_deletes_tokens (m : Modifier) (hm : m.strategy = .removeBase) (l : Language)
    (file : SourceFile) (limit : Option Nat) (htree : file.root.Tiled)
    (hfit : ∀ x, (Site.top file.root).Within x → x.span.Fits file.source) (e : Entity)
    (he : e ∈ l.dialect.extract file limit) (t : Target) (ht : e.target? = some t) :
    (∀ list ∈ t.grammar.baseLists t.site, 2 ≤ (BaseList.entries (t.baseNodes list)).length →
      List.Forall₂ (BaseList.Deletes (t.baseNodes list))
        ((BaseList.entries (t.baseNodes list)).filter BaseList.names) (t.baseSpans list)) ∧
    ∀ w, (m.modify e).1 = some w → ∃ list ∈ t.grammar.baseLists t.site,
      ∃ s ∈ t.baseSpans list, ∃ r, w.code = Text.dedent r e.indent ∧
        t.source.splice e.span.start e.span.stop r = t.source.splice s.start s.stop [] := by
  obtain ⟨-, -, hsite, -, -⟩ := Entity.of_target?_of_mem_extract he ht
  constructor
  · intro list hlist hmany
    have hlaid := Target.laid_baseNodes htree hsite hlist
    exact (Target.forall₂_baseSpans (by omega)).imp fun entry span h => h.deletes hlaid
  · intro w hw
    obtain ⟨s, hs, hcode⟩ := exists_deleted_of_modify hm ht hw
    obtain ⟨r, hr, hsplice⟩ := Entity.exists_without_of_mutated? htree hfit he ht hs hcode
    obtain ⟨list, hlist, hs⟩ := List.mem_flatMap.1 hs
    exact ⟨list, hlist, s, hs, r, hr, hsplice⟩

/-- Of the two bases of the class with a metaclass both go with all their tokens. -/
theorem modify_deletes_tokens_derived :
    ∃ e ∈ Language.python.dialect.extract ⟨"a.py", derivedText, derivedTree⟩ none,
      ∃ (t : Target) (list : Site), e.target? = some t ∧ list ∈ t.grammar.baseLists t.site ∧
        2 ≤ (BaseList.entries (t.baseNodes list)).length ∧
        List.Forall₂ (BaseList.Deletes (t.baseNodes list))
          ((BaseList.entries (t.baseNodes list)).filter BaseList.names) [⟨8, 11⟩, ⟨11, 14⟩] := by
  have hfound : ∃ e ∈ Language.python.dialect.extract ⟨"a.py", derivedText, derivedTree⟩ none,
      ∃ t ∈ e.target?, ∃ list ∈ t.grammar.baseLists t.site,
        2 ≤ (BaseList.entries (t.baseNodes list)).length ∧
          t.baseSpans list = [⟨8, 11⟩, ⟨11, 14⟩] := by
    decide +kernel
  obtain ⟨e, he, t, ht, list, hlist, hmany, hspans⟩ := hfound
  have hdeletes := (modify_deletes_tokens (ofStrategy .removeBase .python 0) rfl .python
    ⟨"a.py", derivedText, derivedTree⟩ none tiled_derived fits_derived e he t ht).1 list hlist hmany
  rw [hspans] at hdeletes
  exact ⟨e, he, t, list, ht, hlist, hmany, hdeletes⟩

/-- A structure with a base and a pack of bases. -/
def packText : Text := "struct S : A, B... \x7b \x7d;".toList

/-- The tree of this structure. -/
def packTree : Node :=
  .ofSpan "translation_unit" true none 0 23 [
    .ofSpan "struct_specifier" true none 0 22 [
      .ofSpan "struct" false none 0 6 [],
      .ofSpan "type_identifier" true (some "name") 7 8 [],
      .ofSpan "base_class_clause" true none 9 18 [
        .ofSpan ":" false none 9 10 [],
        .ofSpan "type_identifier" true none 11 12 [],
        .ofSpan "," false none 12 13 [],
        .ofSpan "type_identifier" true none 14 15 [],
        .ofSpan "..." false none 15 18 []],
      .ofSpan "field_declaration_list" true (some "body") 19 22 []],
    .ofSpan ";" false none 22 23 []]

/-- The last reference has a token behind its last node. It is not deleted with the reference, and
the mutant has it behind the other base. -/
theorem pack_expansion_left :
    ∃ e ∈ Language.cpp.dialect.extract ⟨"s.cpp", packText, packTree⟩ none,
      ∃ (t : Target) (list c : Site) (earlier group : List Site), e.target? = some t ∧
        list ∈ t.grammar.baseLists t.site ∧
        2 ≤ (BaseList.entries (t.baseNodes list)).length ∧
        t.baseSpans list = [⟨11, 14⟩, ⟨12, 15⟩] ∧
        BaseList.Between (t.baseNodes list) earlier group [] ∧ c ∈ group ∧
        BaseList.IsToken (t.baseNodes list) c ∧ t.text c = "...".toList ∧
        (⟨12, 15⟩ : Span).contains c.span = false ∧
        (((ofStrategy .removeBase .cpp 0).setLikelihood 1.0).modify e).1 =
          some ⟨"struct S : A... \x7b \x7d".toList, .removeBase⟩ := by
  have hfound : ∃ e ∈ Language.cpp.dialect.extract ⟨"s.cpp", packText, packTree⟩ none,
      ∃ t ∈ e.target?, ∃ list ∈ t.grammar.baseLists t.site,
        2 ≤ (BaseList.entries (t.baseNodes list)).length ∧
        t.baseSpans list = [⟨11, 14⟩, ⟨12, 15⟩] ∧
        (∀ s ∈ (t.baseNodes list).drop 3, s.separates = false) ∧
        (∀ s ∈ ((t.baseNodes list).take 3).getLast?, s.separates = true) ∧
        (((ofStrategy .removeBase .cpp 0).setLikelihood 1.0).modify e).1 =
          some ⟨"struct S : A... \x7b \x7d".toList, .removeBase⟩ ∧
        ∃ c ∈ (t.baseNodes list).drop 3, BaseList.IsToken (t.baseNodes list) c ∧
          t.text c = "...".toList ∧ (⟨12, 15⟩ : Span).contains c.span = false := by
    decide +kernel
  obtain ⟨e, he, t, ht, list, hlist, hmany, hspans, hplain, hopens, hcode, c, hc, htoken, htext,
    hleft⟩ := hfound
  refine ⟨e, he, t, list, c, _, _, ht, hlist, hmany, hspans, ⟨?_, hplain, hopens, by simp⟩, hc,
    htoken, htext, hleft, hcode⟩
  rw [List.append_nil, List.take_append_drop]

end Modifier
end Mutagen
