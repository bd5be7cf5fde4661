import Mutagen.Proofs.Modifier.Eligibility
import Mutagen.Proofs.Modifier.RemovedStatements

/-!
# Bare declarations

The grammar of C has every declaration among the assignments that can be removed, while its marks
give the tag for assignments only to those with a value. A function without a single value set in it
does not have the tag, and yet its declarations can be removed.
-/
namespace Mutagen

/-! ## The tag for assignments -/

namespace Dialect

variable {d : Dialect} {s : Site} {source : Text}

/-- Kinds of nodes that the marks give a property to. -/
def markedKinds (d : Dialect) (p : Property) : List String :=
  (d.marks.filter fun m => m.properties.contains p).flatMap (·.kinds)

theorem mem_markedKinds {p : Property} {k : String} :
    k ∈ d.markedKinds p ↔ ∃ m ∈ d.marks, k ∈ m.kinds ∧ p ∈ m.properties := by
  simp only [markedKinds, List.mem_flatMap, List.mem_filter, List.contains_iff_mem]
  constructor
  · rintro ⟨m, ⟨hm, hp⟩, hk⟩
    exact ⟨m, hm, hk, hp⟩
  · rintro ⟨m, hm, hk, hp⟩
    exact ⟨m, ⟨hm, hp⟩, hk⟩

theorem hasAssignment_notMem_binaryProperties (g : Grammar) :
    .hasAssignment ∉ g.binaryProperties s source := by
  unfold Grammar.binaryProperties
  split
  · decide
  · dsimp only
    split
    · decide
    · decide
    · split <;> decide
    · decide

/-- Nothing but a mark gives a node the property of assignments. -/
theorem hasAssignment_mem_properties_iff (hnames : ∀ m ∈ d.nameMarks, m.property ≠ .hasAssignment) :
    .hasAssignment ∈ d.properties s source ↔
      (s.named || d.marksTokens) = true ∧ s.kind ∈ d.markedKinds .hasAssignment := by
  have hnamed : .hasAssignment ∉ d.nameMarks.flatMap fun m =>
      if m.kind == s.kind && m.names.contains (String.ofList (s.fieldText m.field source)) then
        [m.property] else [] := by
    rw [List.mem_flatMap]
    rintro ⟨m, hm, hp⟩
    split at hp
    · exact hnames m hm (List.mem_singleton.1 hp).symm
    · cases hp
  have hmarked : (.hasAssignment ∈ d.marks.flatMap fun m =>
      if m.kinds.contains s.kind then m.properties else []) ↔
        s.kind ∈ d.markedKinds .hasAssignment := by
    rw [mem_markedKinds, List.mem_flatMap]
    refine exists_congr fun m => and_congr_right fun _ => ?_
    by_cases hk : s.kind ∈ m.kinds <;> simp [hk]
  have hbranch : Property.hasAssignment ∉ (if d.branchKinds.contains s.kind then
      .hasIf :: (if d.hasElse s then [.hasIfElse] else []) else []) := by
    split
    · split <;> decide
    · decide
  have hbinary : .hasAssignment ∉
      (if d.grammar.isBinary s.kind then d.grammar.binaryProperties s source else []) := by
    split
    · exact hasAssignment_notMem_binaryProperties _
    · decide
  unfold properties
  split
  · rename_i hs
    simp only [List.mem_append, hbranch, hbinary, hmarked, hnamed, hs, false_or, or_false,
      true_and]
  · rename_i hs
    simp [hs]

/-- An entity has the tag for assignments when a node in it is marked with the property. -/
theorem hasAssignment_mem_tags_iff (hnames : ∀ m ∈ d.nameMarks, m.property ≠ .hasAssignment)
    (kind : EntityKind) :
    .hasAssignment ∈ d.tags kind s source ↔
      ∃ x, s.Within x ∧ (x.named || d.marksTokens) = true ∧
        x.kind ∈ d.markedKinds .hasAssignment := by
  have hkind : Property.hasAssignment ≠ kind.property := by cases kind <;> decide
  have hparent : Property.hasAssignment ∉
      if kind = .classLike ∧ d.hasParent s then [.hasParent] else [] := by split <;> decide
  have hdecorator : Property.hasAssignment ∉
      if d.decoration.on s then [.hasDecorator] else [] := by split <;> decide
  rw [tags, Property.mem_normalize]
  simp only [List.mem_append, List.mem_cons, hkind, hparent, hdecorator, false_or, or_false,
    List.mem_flatMap, Site.mem_preorder_iff, hasAssignment_mem_properties_iff hnames]

theorem one_le_complexity (d : Dialect) (s : Site) (source : Text) :
    1 ≤ d.complexity s source := by
  unfold complexity
  induction s.preorder with
  | nil => exact Nat.le_refl 1
  | cons t l ih => exact Nat.le_add_left_of_le ih

end Dialect

namespace Site

/-- The node sets a variable to a value, in an assignment or where the variable is declared. -/
def SetsValue (s : Site) : Prop := s.kind ∈ ["assignment_expression", "init_declarator"]

/-- The node is a declaration, and no value is set in it. -/
structure BareDeclaration (s : Site) : Prop where
  kind : s.kind = "declaration"
  bare : ∀ x, s.Within x → ¬ x.SetsValue

end Site

namespace Language

variable {l : Language} (hl : l = .c ∨ l = .cpp)

include hl

/-- In C a function has the tag for assignments when a value is set in it. -/
theorem hasAssignment_mem_tags_iff_setsValue (kind : EntityKind) {s : Site} {source : Text} :
    .hasAssignment ∈ l.dialect.tags kind s source ↔ ∃ x, s.Within x ∧ x.SetsValue := by
  have htable : (∀ m ∈ l.dialect.nameMarks, m.property ≠ .hasAssignment) ∧
      l.dialect.marksTokens = true ∧
      l.dialect.markedKinds .hasAssignment = ["assignment_expression", "init_declarator"] := by
    rcases hl with rfl | rfl <;> decide
  rw [Dialect.hasAssignment_mem_tags_iff htable.1, htable.2.1, htable.2.2]
  simp only [Bool.or_true, true_and, Site.SetsValue]

/-- What can be removed as an assignment is one, or a declaration. -/
theorem assignmentKinds_eq :
    l.dialect.grammar.assignmentKinds = ["assignment_expression", "declaration"] := by
  rcases hl with rfl | rfl <;> rfl

end Language

/-! ## Removed declarations -/

namespace Modifier

variable {l : Language} {file : SourceFile} {kind : EntityKind} {s : Site} {m : Modifier}

/-- When a removal makes a mutant, some statement is chosen. -/
theorem chosen_ne_nil {kinds : Grammar → List String} (hm : m.strategy.removedKinds? = some kinds)
    {e : Entity} {t : Target} (ht : e.target? = some t) (h : (m.modify e).1.isSome = true) :
    (t.chooseStatements (kinds t.grammar) m.likelihood m.generator).1 ≠ [] := by
  intro hnone
  rw [modify_removeMatching hm ht, hnone, Option.isSome_map] at h
  obtain ⟨code, hcode⟩ := Option.isSome_iff_exists.1 h
  have hempty := (Target.removalEdits_eq_nil_iff (t := t) ⟨by simp, .nil⟩).2 rfl
  rw [Entity.mutated?, if_pos (by rw [EditList.isEmpty, hempty]; rfl)] at hcode
  cases hcode

/-- An entity with a statement to choose in it is not empty. -/
theorem start_lt_stop_of_chosen {root : Node} (hroot : root.Nested) {t : Target}
    (hsite : (Site.top root).Within t.site) {kinds : List String} {p : Float} {g : Generator}
    (h : (t.chooseStatements kinds p g).1 ≠ []) : t.site.span.start < t.site.span.stop := by
  obtain ⟨x, hx⟩ := List.exists_mem_of_ne_nil _ h
  obtain ⟨c, hc, hstatement⟩ := (t.always_chooseStatements kinds p g).2 x hx
  by_contra hempty
  rw [Target.statementOf?_eq_none hroot hsite (Nat.le_of_not_lt hempty)
    (Site.mem_descendantsOfKinds.1 hc).1] at hstatement
  cases hstatement

/-- The statements are chosen from the site that the entity was built from. -/
theorem chosen_of_modify (hroot : file.root.Nested) (hs : (Site.top file.root).Within s)
    {kinds : Grammar → List String} (hm : m.strategy.removedKinds? = some kinds)
    (h : (m.modify (l.dialect.build file kind s)).1.isSome = true) :
    (l.dialect.build file kind s).target? = some ⟨s, file.source, l.dialect⟩ ∧
      (Target.chooseStatements ⟨s, file.source, l.dialect⟩ (kinds l.dialect.grammar) m.likelihood
        m.generator).1 ≠ [] := by
  cases ht : (l.dialect.build file kind s).target? with
  | none =>
    rw [modify_eq_none_of_returns (Strategy.returns_run_of_target?_eq_none ht _ _ _)] at h
    cases h
  | some t =>
    obtain ⟨hsite, hspan, -, -⟩ := Entity.of_target?_eq_some ht
    have hchosen := chosen_ne_nil hm ht h
    have hne := start_lt_stop_of_chosen hroot hsite hchosen
    rw [hspan] at hne
    have hbuild : (l.dialect.build file kind s).target? = some ⟨s, file.source, l.dialect⟩ :=
      Dialect.target?_build hroot hs hne
    rw [ht] at hbuild
    cases hbuild
    exact ⟨rfl, hchosen⟩

/-- The usual modifier that removes assignments accepts every function with the tag. -/
theorem canChange_of_hasAssignment (seed : UInt64)
    (htag : (l.dialect.build file .callable s).hasTag .hasAssignment = true)
    (hbound : l.dialect.complexity s file.source ≤ unboundedComplexity) :
    (ofStrategy .removeAssignments l seed).canChange (l.dialect.build file .callable s) = true := by
  have hfunction : .isFunction ∈ l.dialect.tags .callable s file.source := by
    rw [Dialect.tags, Property.mem_normalize]
    simp [EntityKind.property]
  have hconditions : Strategy.removeAssignments.conditions.all
      (fun p => (l.dialect.build file .callable s).hasTag p) = true := by
    rw [List.all_eq_true]
    intro p hp
    simp only [Strategy.conditions, List.mem_cons, List.not_mem_nil, or_false] at hp
    rcases hp with rfl | rfl
    · exact List.contains_iff_mem.2 hfunction
    · exact htag
  rw [canChange, Bool.and_eq_true, Bool.and_eq_true]
  refine ⟨⟨hconditions, decide_eq_true ?_⟩, decide_eq_true hbound⟩
  exact l.dialect.one_le_complexity s file.source

/-- When assignments are removed from a function of C or C++, the function has the tag for them if a
value is set anywhere in it, and the usual modifier accepts every function with the tag. Without the
tag all that is removed are declarations in which no value is set. -/
theorem removed_tagged_or_bare (hl : l = .c ∨ l = .cpp) (limit : Option Nat)
    (hroot : file.root.Nested) {e : Entity} (he : e ∈ l.dialect.extract file limit)
    (hkind : e.kind = .callable) (hm : m.strategy = .removeAssignments)
    (h : (m.modify e).1.isSome = true) :
    ∃ t, e.target? = some t ∧
      (e.hasTag .hasAssignment = true ↔ ∃ x, t.site.Within x ∧ x.SetsValue) ∧
      (e.hasTag .hasAssignment = true → e.complexity ≤ unboundedComplexity →
        ∀ seed, (ofStrategy .removeAssignments l seed).canChange e = true) ∧
      (t.chooseStatements t.grammar.assignmentKinds m.likelihood m.generator).1 ≠ [] ∧
      (e.hasTag .hasAssignment = false →
        ∀ x ∈ (t.chooseStatements t.grammar.assignmentKinds m.likelihood m.generator).1,
          ∃ d, t.site.Within d ∧ d.BareDeclaration ∧ t.statementOf? d = some x) := by
  obtain ⟨s, kind, hs, -, rfl⟩ := l.dialect.mem_extract file he
  cases show kind = .callable from hkind
  have hkinds : m.strategy.removedKinds? = some Grammar.assignmentKinds := by rw [hm]; rfl
  obtain ⟨ht, hsome⟩ := chosen_of_modify hroot hs hkinds h
  have htag : (l.dialect.build file .callable s).hasTag .hasAssignment = true ↔
      ∃ x, s.Within x ∧ x.SetsValue :=
    List.contains_iff_mem.trans (l.hasAssignment_mem_tags_iff_setsValue hl .callable)
  refine ⟨_, ht, htag, ?_, hsome, ?_⟩
  · intro htagged hbound seed
    exact canChange_of_hasAssignment seed htagged hbound
  · intro huntagged x hx
    have hbare : ∀ y, s.Within y → ¬ y.SetsValue := by
      intro y hy hsets
      rw [htag.2 ⟨y, hy, hsets⟩] at huntagged
      cases huntagged
    obtain ⟨d, hd, hstatement⟩ := (Target.always_chooseStatements _ _ _ _).2 x hx
    obtain ⟨hwithin, -, hd⟩ := Site.mem_descendantsOfKinds.1 hd
    refine ⟨d, hwithin, ⟨?_, fun y hy => hbare y (hwithin.trans hy)⟩, hstatement⟩
    rw [show Target.grammar _ = l.dialect.grammar from rfl, l.assignmentKinds_eq hl] at hd
    simp only [List.mem_cons, List.not_mem_nil, or_false] at hd
    refine hd.resolve_left fun hassigns => hbare d hwithin ?_
    rw [Site.SetsValue, hassigns]
    decide

/-- A function whose only statement declares a variable. -/
def declaringText (declarator : String) : Text :=
  ("int f() \x7b int " ++ declarator ++ "; \x7d").toList

/-- The tree of this function, around the node of the declarator. -/
def declaringTree (declarator : Node) : Node :=
  let stop := declarator.label.span.stop
  .ofSpan "translation_unit" true none 0 (stop + 3) [
    .ofSpan "function_definition" true none 0 (stop + 3) [
      .ofSpan "primitive_type" true (some "type") 0 3 [],
      .ofSpan "function_declarator" true (some "declarator") 4 7 [
        .ofSpan "identifier" true (some "declarator") 4 5 [],
        .ofSpan "parameter_list" true (some "parameters") 5 7 []],
      .ofSpan "compound_statement" true (some "body") 8 (stop + 3) [
        .ofSpan "\x7b" false none 8 9 [],
        .ofSpan "declaration" true none 10 (stop + 1) [
          .ofSpan "primitive_type" true (some "type") 10 13 [],
          declarator,
          .ofSpan ";" false none stop (stop + 1) []],
        .ofSpan "\x7d" false none (stop + 2) (stop + 3) []]]]

/-- The declarator `x = 1`. -/
def initialDeclarator : Node :=
  .ofSpan "init_declarator" true (some "declarator") 14 19 [
    .ofSpan "identifier" true (some "declarator") 14 15 [],
    .ofSpan "=" false none 16 17 [],
    .ofSpan "number_literal" true (some "value") 18 19 []]

/-- The declarator `x`. -/
def plainDeclarator : Node := .ofSpan "identifier" true (some "declarator") 14 15 []

/-- A declaration with a value is removed from a function with the tag. -/
theorem removed_tagged_or_bare_initial :
    ∃ e ∈ Language.c.dialect.extract
        ⟨"f.c", declaringText "x = 1", declaringTree initialDeclarator⟩ none,
      (((ofStrategy .removeAssignments .c 0).setLikelihood 1.0).modify e).1.isSome = true ∧
        (ofStrategy .removeAssignments .c 0).canChange e = true ∧
        ∃ t, e.target? = some t ∧ ∃ x, t.site.Within x ∧ x.SetsValue := by
  have hfound : ∃ e ∈ Language.c.dialect.extract
      ⟨"f.c", declaringText "x = 1", declaringTree initialDeclarator⟩ none,
        e.kind = .callable ∧
          (((ofStrategy .removeAssignments .c 0).setLikelihood 1.0).modify e).1.isSome = true ∧
          e.hasTag .hasAssignment = true ∧ e.complexity ≤ unboundedComplexity := by
    decide +kernel
  obtain ⟨e, he, hkind, hsome, htag, hbound⟩ := hfound
  obtain ⟨t, ht, hiff, haccepts, -⟩ := removed_tagged_or_bare (.inl rfl) none
    (by decide +kernel) he hkind rfl hsome
  exact ⟨e, he, hsome, haccepts htag hbound 0, t, ht, hiff.1 htag⟩

/-- A declaration without a value is removed from a function without the tag, which the usual
modifier does not accept. -/
theorem modify_untagged_plain :
    (declaringTree plainDeclarator).Nested ∧
      ∃ e ∈ Language.c.dialect.extract
          ⟨"f.c", declaringText "x", declaringTree plainDeclarator⟩ none,
        e.kind = .callable ∧
          (((ofStrategy .removeAssignments .c 0).setLikelihood 1.0).modify e).1 =
            some ⟨"int f() \x7b  \x7d".toList, .removeAssignments⟩ ∧
          e.hasTag .hasAssignment = false ∧
          (ofStrategy .removeAssignments .c 0).canChange e = false := by
  constructor <;> decide +kernel

end Modifier
end Mutagen
