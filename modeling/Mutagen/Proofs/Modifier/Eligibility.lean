import Mutagen.Proofs.Modifier.EmptyEntity

/-!
# Eligibility hides no work

A modifier is only tried on entities with the tags that its strategy asks for. A
strategy that looks for certain nodes makes no mutant of an entity without the tag
for them, so that asking first loses nothing.
-/
namespace Mutagen

/-! ## Entities without a tag -/

namespace Target

variable {t : Target} {kind : EntityKind} {p : Property} {x : Float}

/-- An entity without a property has no node in it that would contribute the property. -/
theorem descendantsOfKinds_eq_nil {kinds : List String}
    (hkinds : ∀ s : Site, s.named = true → s.kind ∈ kinds → p ∈ t.dialect.properties s t.source)
    (hp : p ∉ t.dialect.tags kind t.site t.source) : t.site.descendantsOfKinds kinds = [] := by
  refine List.eq_nil_iff_forall_not_mem.2 ?_
  intro s hs
  obtain ⟨hwithin, hnamed, hkind⟩ := Site.mem_descendantsOfKinds.1 hs
  exact hp (Dialect.mem_tags_of_within hwithin (hkinds s hnamed hkind))

theorem binaries_eq_nil (hp : .hasBinaryOp ∉ t.dialect.tags kind t.site t.source) :
    t.binaries = [] := by
  have hnone : t.site.descendantsOfKinds t.grammar.binaryKinds = [] :=
    descendantsOfKinds_eq_nil (fun _ => Dialect.hasBinaryOp_mem_properties) hp
  rw [binaries, hnone]
  rfl

/-- A removal without candidates removes nothing. -/
theorem returns_removeMatching {kinds : List String} (h : t.site.descendantsOfKinds kinds = []) :
    Attempt.Returns (· = .empty) (OptionT.lift (t.removeMatching kinds x)) := by
  refine Attempt.returns_lift (always_removeMatching_of_statementOf? ?_)
  rw [h]
  exact fun s hs => nomatch hs

/-- No base is removed from a class that names none. -/
theorem returns_removeBase (hp : .hasParent ∉ t.dialect.tags .classLike t.site t.source) :
    Attempt.Returns (· = .empty) (t.removeBase x) := by
  have hnone : t.grammar.baseLists t.site = [] := by
    cases hlists : t.grammar.baseLists t.site with
    | nil => rfl
    | cons list lists =>
      refine absurd (Dialect.hasParent_mem_tags ?_) hp
      rw [Dialect.hasParent, show t.dialect.grammar.baseLists t.site = _ from hlists]
      rfl
  have hremovals : t.baseRemovals = [] := by rw [baseRemovals, hnone, List.flatMap_nil]
  unfold removeBase
  rw [hremovals]
  exact Attempt.returns_failure _

/-- No branches are exchanged in an entity without an if that has an else. -/
theorem invertible?_eq_none_of_untagged {l : Language} (hl : t.dialect = l.dialect)
    (hpython : l = .python → ∀ s, t.site.Within s → s.kind = "if_statement" →
      ∀ a ∈ s.childrenByField "alternative", a.kind = "elif_clause" ∨ a.kind = "else_clause")
    (hp : .hasIfElse ∉ t.dialect.tags kind t.site t.source) :
    ∀ s ∈ t.site.descendantsOfKinds t.grammar.ifKinds, t.grammar.invertible? s = none := by
  intro s hs
  obtain ⟨hwithin, hnamed, hkind⟩ := Site.mem_descendantsOfKinds.1 hs
  have hgrammar : t.grammar = l.dialect.grammar := by rw [grammar, hl]
  rw [hgrammar] at hkind ⊢
  cases hspans : l.dialect.grammar.invertible? s with
  | none => rfl
  | some spans =>
    have helse : l.dialect.hasElse s = true := by
      refine l.hasElse_of_invertible? hspans ?_
      rintro rfl
      exact hpython rfl s hwithin (List.mem_singleton.1 hkind)
    rw [hl] at hp
    exact absurd (Dialect.mem_tags_of_within hwithin
      (Dialect.hasIfElse_mem_properties hnamed (l.agreeing.ifs _ hkind) helse)) hp

end Target

namespace Strategy

theorem mem_conditions_of_sought? {s : Strategy} {p : Property} (h : s.sought? = some p) :
    p ∈ s.conditions := by
  cases s <;> cases h <;> decide

/-- What a strategy looks for leaves its tag: without the tag there is no mutant. -/
theorem returns_run_of_untagged {l : Language} {e : Entity} {t : Target} {kind : EntityKind}
    (ht : e.target? = some t) (hl : t.dialect = l.dialect)
    (hpython : l = .python → ∀ s, t.site.Within s → s.kind = "if_statement" →
      ∀ a ∈ s.childrenByField "alternative", a.kind = "elif_clause" ∨ a.kind = "else_clause")
    {s : Strategy} {p : Property} (hs : s.sought? = some p)
    (hclass : s = .removeBase → kind = .classLike)
    (hp : p ∉ t.dialect.tags kind t.site t.source) (x : Float) (n : Nat) :
    Attempt.Returns (fun _ => False) (s.run e x n) := by
  have hagree : t.dialect.Agreeing := hl ▸ l.agreeing
  have hloop : ∀ step : EditList → Site × BinaryParts → Draw EditList, t.binaries = [] →
      Attempt.Returns (· = .empty) (OptionT.lift (t.binaries.foldlM step .empty)) := by
    intro step hnone
    rw [hnone]
    exact Attempt.returns_pure rfl
  rw [run, ht]
  refine Attempt.returns_bind (P := (· = t)) (Attempt.returns_pure rfl) ?_
  rintro _ rfl
  cases s with
  | invertBranches =>
    cases hs
    exact returns_mutated? e (Target.returns_invertBranches
      (Target.invertible?_eq_none_of_untagged hl hpython hp))
  | changeOperators =>
    cases hs
    exact returns_mutated? e (hloop _ (Target.binaries_eq_nil hp))
  | flipOperators =>
    cases hs
    exact returns_mutated? e (hloop _ (Target.binaries_eq_nil hp))
  | swapOperands =>
    cases hs
    refine returns_mutated? e ?_
    rw [Target.swapOperands, Target.binaries_eq_nil hp]
    exact Attempt.returns_pure rfl
  | breakChains =>
    cases hs
    exact returns_mutated? e (hloop _ (Target.binaries_eq_nil hp))
  | changeConstants =>
    cases hs
    refine returns_mutated? e ?_
    rw [Target.changeConstants, Target.binaries_eq_nil hp]
    exact Attempt.returns_pure rfl
  | removeLoops =>
    cases hs
    exact returns_mutated? e (Target.returns_removeMatching (Target.descendantsOfKinds_eq_nil
      (fun _ hnamed hkind => Dialect.mem_properties_of_mark hnamed (hagree.loops _ hkind)) hp))
  | removeConditionals =>
    cases hs
    exact returns_mutated? e (Target.returns_removeMatching (Target.descendantsOfKinds_eq_nil
      (fun _ hnamed hkind => Dialect.hasIf_mem_properties hnamed (hagree.ifs _ hkind)) hp))
  | removeWrappers =>
    cases hs
    exact returns_mutated? e (Target.returns_removeMatching (Target.descendantsOfKinds_eq_nil
      (fun _ hnamed hkind => Dialect.mem_properties_of_mark hnamed (hagree.wrappers _ hkind)) hp))
  | removeBase =>
    cases hs
    rw [hclass rfl] at hp
    exact returns_mutated? e (Target.returns_removeBase hp)
  | shuffleStatements => cases hs
  | removeAssignments => cases hs
  | removeMethods => cases hs
  | shuffleMethods => cases hs

end Strategy

/-! ## Extracted entities -/

theorem Strategy.returns_run_of_target?_eq_none {e : Entity} (h : e.target? = none)
    (s : Strategy) (x : Float) (n : Nat) : Attempt.Returns (fun _ => False) (s.run e x n) := by
  rw [run, h]
  exact Attempt.returns_bind (Attempt.returns_failure fun _ => False) fun _ hfalse => hfalse.elim

namespace Dialect

variable {file : SourceFile} {l : Language} {kind : EntityKind} {s : Site}

/-- In a nested tree the target of an entity that is not empty is the site that it was built
from. -/
theorem target?_build (hroot : file.root.Nested) (hs : (Site.top file.root).Within s)
    (hne : s.span.start < s.span.stop) :
    (l.dialect.build file kind s).target? = some ⟨s, file.source, l.dialect⟩ := by
  refine Entity.target?_eq_some_iff.2 ⟨s, Handle.resolve?_ofSite hroot _ hs hne, ?_⟩
  change _ = Target.mk s file.source l.dialect.language.dialect
  rw [Language.language_dialect]

/-- No strategy that looks for nodes makes a mutant of an extracted entity without text. -/
theorem returns_run_build_of_empty (hroot : file.root.Nested)
    (hs : (Site.top file.root).Within s) (hempty : s.span.stop ≤ s.span.start) {st : Strategy}
    (hst : st.sought?.isSome = true) (x : Float) (n : Nat) :
    Attempt.Returns (fun _ => False) (st.run (l.dialect.build file kind s) x n) := by
  have hle := hroot.start_le_stop hs
  have htext : s.text file.source = [] := by
    rw [Site.text, Span.text, Nat.le_antisymm hempty hle]
    exact Text.slice_self _ _
  have hcode : (l.dialect.build file kind s).code = [] := by
    change Text.dedent (s.text file.source) _ = []
    rw [htext]
    rfl
  cases ht : (l.dialect.build file kind s).target? with
  | none => exact Strategy.returns_run_of_target?_eq_none ht st x n
  | some t =>
    obtain ⟨site, hsite, rfl⟩ := Entity.target?_eq_some_iff.1 ht
    obtain ⟨hwithin, -, hspan⟩ := Handle.resolve?_eq_some hsite
    have hspan : site.span = s.span := hspan
    refine Strategy.returns_run_of_empty hroot ht hwithin ?_ htext hcode hst x n
    change site.span.stop ≤ site.span.start
    rw [hspan]
    exact hempty

end Dialect

namespace Modifier

/-- A modifier that looks for certain nodes and makes a mutant of an entity of a nested tree finds
the tag for them on the entity; in Python, where every alternative of an if is an `elif` or an
`else`. The removal of bases is for classes. -/
theorem hasTag_of_modify (l : Language) (file : SourceFile) (limit : Option Nat)
    (hroot : file.root.Nested)
    (hpython : l = .python → ∀ s, (Site.top file.root).Within s → s.kind = "if_statement" →
      ∀ a ∈ s.childrenByField "alternative", a.kind = "elif_clause" ∨ a.kind = "else_clause")
    {e : Entity} (he : e ∈ l.dialect.extract file limit) (m : Modifier) {p : Property}
    (hp : m.strategy.sought? = some p) (hclass : m.strategy = .removeBase → e.kind = .classLike)
    (h : (m.modify e).1.isSome = true) : p ∈ m.strategy.conditions ∧ e.hasTag p = true := by
  refine ⟨Strategy.mem_conditions_of_sought? hp, ?_⟩
  obtain ⟨s, kind, hs, -, rfl⟩ := l.dialect.mem_extract file he
  by_contra htag
  have hp' : p ∉ l.dialect.tags kind s file.source := by
    intro hmem
    exact htag (List.contains_iff_mem.2 hmem)
  have hrun : Attempt.Returns (fun _ => False)
      (m.strategy.run (l.dialect.build file kind s) m.likelihood m.attempts) := by
    -- the handle of an empty entity may lead to another site of its kind and span, one that
    -- the tags were not taken from
    rcases Nat.lt_or_ge s.span.start s.span.stop with hne | hempty
    · exact Strategy.returns_run_of_untagged (Dialect.target?_build hroot hs hne) rfl
        (fun hl x hx => hpython hl x (hs.trans hx)) hp hclass hp' m.likelihood m.attempts
    · exact Dialect.returns_run_build_of_empty hroot hs hempty (by rw [hp]; rfl) _ _
  rw [modify_eq_none_of_returns hrun] at h
  cases h

/-- The if of a function can be removed, and the function has the tag of ifs. -/
theorem hasTag_of_modify_branching :
    ∃ e ∈ Language.python.dialect.extract ⟨"f.py", branchingText, .branching⟩ none,
      (((ofStrategy .removeConditionals .python 0).setLikelihood 1.0).modify e).1.isSome = true ∧
        e.hasTag .hasIf = true := by
  have hfound : ∃ e ∈ Language.python.dialect.extract ⟨"f.py", branchingText, .branching⟩ none,
      (((ofStrategy .removeConditionals .python 0).setLikelihood 1.0).modify e).1.isSome =
        true := by
    decide +kernel
  have hpython : ∀ s ∈ (Site.top .branching).preorder, s.kind = "if_statement" →
      ∀ a ∈ s.childrenByField "alternative", a.kind = "elif_clause" ∨ a.kind = "else_clause" := by
    decide +kernel
  obtain ⟨e, he, hsome⟩ := hfound
  have htag := hasTag_of_modify .python _ none Node.nested_branching
    (fun _ s hs => hpython s (Site.mem_preorder_iff.2 hs)) he _ rfl (fun h => by cases h) hsome
  exact ⟨e, he, hsome, htag.2⟩

end Modifier
end Mutagen
