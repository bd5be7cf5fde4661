import Mutagen.Proofs.Modifier.Eligibility

/-!
# The subtree that was tagged

The tags of an entity are taken from a site of its tree, and a modifier has to find this site again
by its kind and span. In a nested tree it does so for every entity that is not empty: around the
span there is one smallest site, which may be far below when nodes inside the entity have its span
as well, and going up from there the first site of that kind and span is the one that was tagged.
-/
namespace Mutagen
namespace Dialect

variable {d : Dialect} {l : Language} {file : SourceFile} {s : Site} {e : Entity}

theorem span_of_entityAt? (h : d.entityAt? file s = some e) : e.span = s.span := by
  obtain ⟨kind, -, -, rfl⟩ := (d.entityAt?_eq_some_iff file).1 h
  rfl

theorem tags_of_entityAt? (h : d.entityAt? file s = some e) :
    e.tags = d.tags e.kind s file.source := by
  obtain ⟨kind, -, -, rfl⟩ := (d.entityAt?_eq_some_iff file).1 h
  rfl

/-- In a nested tree the handle of an entity that is not empty finds the site that the entity was
built from. -/
theorem resolve?_of_entityAt? (hroot : file.root.Nested) (hs : (Site.top file.root).Within s)
    (h : d.entityAt? file s = some e) (hne : e.span.start < e.span.stop) :
    e.handle.resolve? = some s := by
  rw [span_of_entityAt? h] at hne
  obtain ⟨kind, -, -, rfl⟩ := (d.entityAt?_eq_some_iff file).1 h
  exact Handle.resolve?_ofSite hroot file.source hs hne

theorem target?_of_entityAt? (hroot : file.root.Nested) (hs : (Site.top file.root).Within s)
    (h : l.dialect.entityAt? file s = some e) (hne : e.span.start < e.span.stop) :
    e.target? = some ⟨s, file.source, l.dialect⟩ := by
  rw [span_of_entityAt? h] at hne
  obtain ⟨kind, -, -, rfl⟩ := (l.dialect.entityAt?_eq_some_iff file).1 h
  exact target?_build hroot hs hne

end Dialect

namespace Entity

/-- Modifiers see the subtree that was tagged. An extracted entity of a nested tree that is not
empty was built from one site of the tree and can have been built from no other; its handle finds
this site, by going up from the one smallest site around its span; and this is the site that
modifiers work on, the one whose subtree the tags were taken from. -/
theorem target?_of_mem_extract (l : Language) (file : SourceFile) (limit : Option Nat)
    (hroot : file.root.Nested) {e : Entity} (he : e ∈ l.dialect.extract file limit)
    (hne : e.span.start < e.span.stop) :
    ∃ s,
      (∀ s', (Site.top file.root).Within s' ∧ l.dialect.entityAt? file s' = some e ↔ s' = s) ∧
      e.handle.resolve? = some s ∧
      (∃ low, (∀ low', low'.Smallest file.root e.span ↔ low' = low) ∧
        (low :: low.ancestors).find? (fun t => t.kind == s.kind && t.span == s.span) = some s) ∧
      e.target? = some ⟨s, file.source, l.dialect⟩ ∧
      e.tags = l.dialect.tags e.kind s file.source := by
  obtain ⟨s, hs, hbuilt⟩ := l.dialect.exists_entityAt?_of_mem_extract file he
  have hfound := Dialect.resolve?_of_entityAt? hroot hs hbuilt hne
  refine ⟨s, fun s' => ⟨?_, ?_⟩, hfound, ⟨(Site.top file.root).covering e.span, ?_, ?_⟩,
    Dialect.target?_of_entityAt? hroot hs hbuilt hne, Dialect.tags_of_entityAt? hbuilt⟩
  · rintro ⟨hs', hbuilt'⟩
    have hfound' := Dialect.resolve?_of_entityAt? hroot hs' hbuilt' hne
    exact Option.some.inj (hfound'.symm.trans hfound)
  · rintro rfl
    exact ⟨hs, hbuilt⟩
  · have hin := hroot.start_le_and_stop_le .self hs
    rw [← Dialect.span_of_entityAt? hbuilt] at hin
    exact fun low' => Site.smallest_iff hroot.tiled hne (Span.contains_iff.2 hin)
  · rw [Handle.resolve?_eq_find? (Nat.le_of_lt hne)] at hfound
    obtain ⟨kind, -, -, rfl⟩ := (l.dialect.entityAt?_eq_some_iff file).1 hbuilt
    exact hfound

/-- A statement that binds an arrow function. The whole file, the statement and the assignment in
it have one span, and a semicolon of no width ends the statement. -/
def boundFile : SourceFile where
  path := "f.js"
  source := "f = () => \x7b\x7d".toList
  root :=
    .ofSpan "program" true none 0 12 [
      .ofSpan "expression_statement" true none 0 12 [
        .ofSpan "assignment_expression" true none 0 12 [
          .ofSpan "identifier" true (some "left") 0 1 [],
          .ofSpan "=" false none 2 3 [],
          .ofSpan "arrow_function" true (some "right") 4 12 [
            .ofSpan "formal_parameters" true (some "parameters") 4 6 [],
            .ofSpan "=>" false none 7 9 [],
            .ofSpan "statement_block" true (some "body") 10 12 []]],
        .ofSpan ";" false none 12 12 []]]

/-- The smallest site around the statement is the assignment, and modifiers see the statement. -/
theorem target?_of_mem_extract_bound :
    boundFile.root.Nested ∧ ∃ e ∈ Language.javascript.dialect.extract boundFile none,
      e.span = ⟨0, 12⟩ ∧
      ((Site.top boundFile.root).covering e.span).kind = "assignment_expression" ∧
      ∃ s, s.kind = "expression_statement" ∧ e.handle.resolve? = some s ∧
        e.target? = some ⟨s, boundFile.source, Language.javascript.dialect⟩ ∧
        e.tags = Language.javascript.dialect.tags e.kind s boundFile.source := by
  have hnested : boundFile.root.Nested := by decide +kernel
  have hfound : ∃ e ∈ Language.javascript.dialect.extract boundFile none,
      e.span = ⟨0, 12⟩ ∧ e.handle.kind = "expression_statement" := by
    decide +kernel
  obtain ⟨e, he, hspan, hkind⟩ := hfound
  have hne : e.span.start < e.span.stop := by
    rw [hspan]
    decide
  obtain ⟨s, -, hfound, -, htarget, htags⟩ :=
    target?_of_mem_extract .javascript boundFile none hnested he hne
  refine ⟨hnested, e, he, hspan, ?_, s, ?_, hfound, htarget, htags⟩
  · rw [hspan]
    decide +kernel
  · rw [(Handle.resolve?_eq_some hfound).2.1, hkind]

end Entity
end Mutagen
