import Mutagen.Entity.Basic
import Mutagen.Modifier.ControlFlow
import Mutagen.Proofs.Tree.DocumentOrder

/-!
# Tags and grammar tables

A dialect describes a language twice: its grammar says what mutations look for, and
its marks say which properties an entity has. The two agree in every language, so
that a node which a mutation could find leaves its tag on every entity around it.
-/
namespace Mutagen
namespace Dialect

variable {d : Dialect} {s t : Site} {source : Text}

/-! ## What a node contributes -/

theorem hasIf_mem_properties (hs : s.named = true) (hk : s.kind ∈ d.branchKinds) :
    .hasIf ∈ d.properties s source := by
  simp [properties, hs, hk]

theorem hasIfElse_mem_properties (hs : s.named = true) (hk : s.kind ∈ d.branchKinds)
    (helse : d.hasElse s = true) : .hasIfElse ∈ d.properties s source := by
  simp [properties, hs, hk, helse]

theorem hasBinaryOp_mem_properties (hs : s.named = true) (hk : s.kind ∈ d.grammar.binaryKinds) :
    .hasBinaryOp ∈ d.properties s source := by
  have hbinary : d.grammar.isBinary s.kind = true := by simpa [Grammar.isBinary] using hk
  have hmem : .hasBinaryOp ∈ d.grammar.binaryProperties s source := by
    unfold Grammar.binaryProperties
    split <;> simp
  simp [properties, hs, hbinary, hmem]

theorem mem_properties_of_mark {p : Property} (hs : s.named = true)
    (hm : ∃ m ∈ d.marks, s.kind ∈ m.kinds ∧ p ∈ m.properties) : p ∈ d.properties s source := by
  obtain ⟨m, hm, hk, hp⟩ := hm
  have hmarked : p ∈ d.marks.flatMap fun m =>
      if m.kinds.contains s.kind then m.properties else [] :=
    List.mem_flatMap.2 ⟨m, hm, by simpa [hk] using hp⟩
  rw [properties, if_pos (by simp [hs])]
  exact List.mem_append_left _ (List.mem_append_right _ hmarked)

/-- An entity has the properties of all nodes in it. -/
theorem mem_tags_of_within {kind : EntityKind} {p : Property} (ht : s.Within t)
    (hp : p ∈ d.properties t source) : p ∈ d.tags kind s source := by
  have hmem : p ∈ s.preorder.flatMap fun t => d.properties t source :=
    List.mem_flatMap.2 ⟨t, Site.mem_preorder_iff.2 ht, hp⟩
  rw [tags, Property.mem_normalize]
  exact List.mem_append_left _ (List.mem_append_left _ (List.mem_cons_of_mem _ hmem))

theorem hasParent_mem_tags (h : d.hasParent s = true) :
    .hasParent ∈ d.tags .classLike s source := by
  rw [tags, Property.mem_normalize]
  exact List.mem_append_left _ (List.mem_append_right _ (by simp [h]))

/-! ## Agreement of the tables -/

/-- What the grammar calls an if, a loop or a wrapper contributes the property of that name. -/
structure Agreeing (d : Dialect) : Prop where
  ifs : ∀ k ∈ d.grammar.ifKinds, k ∈ d.branchKinds
  loops : ∀ k ∈ d.grammar.loopKinds, ∃ m ∈ d.marks, k ∈ m.kinds ∧ .hasLoop ∈ m.properties
  wrappers : ∀ k ∈ d.grammar.wrapperKinds, ∃ m ∈ d.marks, k ∈ m.kinds ∧ .hasWrapper ∈ m.properties

end Dialect

theorem Language.agreeing (l : Language) : l.dialect.Agreeing := by
  cases l <;> constructor <;> decide

/-! ## Else branches -/

namespace Site

theorem mem_children_of_mem_childrenByField {s c : Site} {field : String}
    (h : c ∈ s.childrenByField field) : c ∈ s.children :=
  (List.mem_filter.1 h).1

theorem mem_childrenByField_of_childByField? {s c : Site} {field : String}
    (h : s.childByField? field = some c) : c ∈ s.childrenByField field :=
  List.mem_of_head? h

theorem mem_children_of_childByField? {s c : Site} {field : String}
    (h : s.childByField? field = some c) : c ∈ s.children :=
  mem_children_of_mem_childrenByField (mem_childrenByField_of_childByField? h)

end Site

/-- What it takes for two branches to be exchanged: one alternative that is no further if, with a
body that is none, and two branches that do not share a byte. -/
theorem Grammar.invertible?_eq_some {g : Grammar} {s : Site} {spans : Span × Span}
    (h : g.invertible? s = some spans) :
    ∃ alternative body consequence,
      s.childrenByField "alternative" = [alternative] ∧
      g.isElif alternative.kind = false ∧ g.isIf alternative.kind = false ∧
      g.elseBody? alternative = some body ∧ g.isIf body.kind = false ∧
      s.childByField? g.consequenceField = some consequence ∧
      g.branchSpan? consequence = some spans.1 ∧ g.branchSpan? body = some spans.2 ∧
      spans.1.overlaps spans.2 = false := by
  unfold invertible? at h
  split at h
  · rename_i alternative hone
    split at h
    · cases h
    · rename_i hkind
      obtain ⟨body, hbody, h⟩ := Option.bind_eq_some_iff.1 h
      split at h
      · cases h
      · rename_i hbodyKind
        obtain ⟨consequence, hconsequence, h⟩ := Option.bind_eq_some_iff.1 h
        obtain ⟨thenSpan, hthen, h⟩ := Option.bind_eq_some_iff.1 h
        obtain ⟨elseSpan, helse, h⟩ := Option.bind_eq_some_iff.1 h
        split at h
        · cases h
        · rename_i hoverlap
          cases h
          simp only [Bool.or_eq_true, not_or, Bool.not_eq_true] at hkind hbodyKind hoverlap
          exact ⟨alternative, body, consequence, hone, hkind.1, hkind.2, hbody, hbodyKind,
            hconsequence, hthen, helse, hoverlap⟩
  · cases h

/-- Branches that can be exchanged belong to an if with an else. In Python this rests on what may
stand as an alternative, since its elses are told by their kind and not by their field. -/
theorem Language.hasElse_of_invertible? (l : Language) {s : Site} {spans : Span × Span}
    (h : l.dialect.grammar.invertible? s = some spans)
    (hpython : l = .python → ∀ a ∈ s.childrenByField "alternative",
      a.kind = "elif_clause" ∨ a.kind = "else_clause") : l.dialect.hasElse s = true := by
  obtain ⟨a, -, -, hone, helif, -⟩ := Grammar.invertible?_eq_some h
  have ha : a ∈ s.childrenByField "alternative" := by simp [hone]
  have halternative : Dialect.hasAlternative s = true := by
    simp [Dialect.hasAlternative, Site.childByField?, hone]
  cases l with
  | python =>
    have hkind : a.kind = "else_clause" := by
      refine (hpython rfl a ha).resolve_left ?_
      intro hk
      rw [hk] at helif
      exact absurd helif (by decide)
    have hany : s.children.any (·.kind == "else_clause") = true :=
      List.any_eq_true.2 ⟨a, Site.mem_children_of_mem_childrenByField ha, by simp [hkind]⟩
    exact hany
  | _ => exact halternative

end Mutagen
