import Mutagen.Proofs.Entity.Extraction
import Mutagen.Proofs.Tree.Nesting

/-!
# Dialects over a base

TypeScript takes over the JavaScript dialect and C++ takes over that of C. One dialect extends
another when it reads a tree in the same way and has at least the marks and the decisions of its
base. Then every entity of the base is one of the extension, at the same place and with the same
texts, with no fewer tags and no smaller complexity. Only whether a class has a parent is asked
of each grammar in its own way.
-/
namespace Mutagen

/-! ## Grammars that read trees alike -/

/-- Two grammars with the same ifs, elses, comments, binary expressions and operators. -/
structure Grammar.Alike (g h : Grammar) : Prop where
  ifKinds : h.ifKinds = g.ifKinds
  elseKinds : h.elseKinds = g.elseKinds
  elifKinds : h.elifKinds = g.elifKinds
  commentKinds : h.commentKinds = g.commentKinds
  binaryKinds : h.binaryKinds = g.binaryKinds
  operators : h.operators = g.operators

namespace Grammar.Alike

variable {g h : Grammar} (alike : g.Alike h)

include alike

theorem isIf_eq : h.isIf = g.isIf := by
  funext kind
  rw [isIf, isIf, alike.ifKinds]

theorem isElif_eq : h.isElif = g.isElif := by
  funext kind
  rw [isElif, isElif, alike.elifKinds]

theorem isBinary_eq : h.isBinary = g.isBinary := by
  funext kind
  rw [isBinary, isBinary, alike.binaryKinds]

theorem binaryProperties_eq (s : Site) (source : Text) :
    h.binaryProperties s source = g.binaryProperties s source := by
  rw [binaryProperties, binaryProperties, alike.operators]

theorem isBranchingBinary_eq (s : Site) (source : Text) :
    h.isBranchingBinary s source = g.isBranchingBinary s source := by
  rw [isBranchingBinary, isBranchingBinary, alike.isBinary_eq, alike.operators]

theorem isPlainElse_eq : h.isPlainElse = g.isPlainElse := by
  have helse : h.isElse = g.isElse := by
    funext kind
    rw [isElse, isElse, alike.elseKinds]
  have hcomment : h.isComment = g.isComment := by
    funext kind
    rw [isComment, isComment, alike.commentKinds]
  funext s
  rw [isPlainElse, isPlainElse, alike.isIf_eq, alike.isElif_eq, helse, hcomment]

theorem elseBranches_eq (s : Site) : h.elseBranches s = g.elseBranches s := by
  rw [elseBranches, elseBranches, alike.isIf_eq, alike.isElif_eq, alike.isPlainElse_eq]

end Grammar.Alike

/-! ## Extensions -/

namespace Dialect

/-- `d` reads trees as `base` does, and adds marks, decisions and kinds of entities to it. An entity
of the base keeps its name and its stub. -/
structure Extends (base d : Dialect) : Prop where
  grammar : base.grammar.Alike d.grammar
  boundFunction? : d.boundFunction? = base.boundFunction?
  bodyKinds : d.bodyKinds = base.bodyKinds
  collapsesSignature : d.collapsesSignature = base.collapsesSignature
  branchKinds : d.branchKinds = base.branchKinds
  hasElse : d.hasElse = base.hasElse
  marksTokens : d.marksTokens = base.marksTokens
  operatorsDecide : d.operatorsDecide = base.operatorsDecide
  decoration : d.decoration = base.decoration
  marks : base.marks ⊆ d.marks
  nameMarks : base.nameMarks ⊆ d.nameMarks
  decisionKinds : base.decisionKinds ⊆ d.decisionKinds
  decisionsUnder : base.decisionsUnder ⊆ d.decisionsUnder
  entityKind? : ∀ s kind, base.entityKind? s = some kind → d.entityKind? s = some kind
  name : ∀ s kind source, base.entityKind? s = some kind → d.name s source = base.name s source
  stub : ∀ s kind signature, base.entityKind? s = some kind →
    d.stub s kind signature = base.stub s kind signature

namespace Extends

variable {base d : Dialect} (h : base.Extends d)

include h

theorem body?_eq (s : Site) : d.body? s = base.body? s := by
  rw [body?, body?, h.boundFunction?, h.bodyKinds]

theorem signature_eq (s : Site) (source : Text) :
    d.signature s source = base.signature s source := by
  rw [signature, signature, h.body?_eq, h.collapsesSignature]

theorem properties_subset (s : Site) (source : Text) :
    base.properties s source ⊆ d.properties s source := by
  unfold properties
  rw [h.marksTokens, h.branchKinds, h.hasElse, h.grammar.isBinary_eq, h.grammar.binaryProperties_eq]
  split
  · intro p hp
    simp only [List.mem_append, List.mem_flatMap] at hp ⊢
    rcases hp with (hp | ⟨m, hm, hp⟩) | ⟨m, hm, hp⟩
    · exact .inl (.inl hp)
    · exact .inl (.inr ⟨m, h.marks hm, hp⟩)
    · exact .inr ⟨m, h.nameMarks hm, hp⟩
  · exact fun _ hp => hp

theorem isDecision_of_base {s : Site} {source : Text} (hs : base.isDecision s source = true) :
    d.isDecision s source = true := by
  simp only [isDecision, Bool.or_eq_true] at hs ⊢
  rw [h.operatorsDecide, h.grammar.isBranchingBinary_eq]
  rcases hs with (hs | hs) | hs
  · exact .inl (.inl (List.contains_iff_mem.2 (h.decisionKinds (List.contains_iff_mem.1 hs))))
  · obtain ⟨e, he, hunder⟩ := List.any_eq_true.1 hs
    exact .inl (.inr (List.any_eq_true.2 ⟨e, h.decisionsUnder he, hunder⟩))
  · exact .inr hs

theorem weight_le (source : Text) (s : Site) : base.weight source s ≤ d.weight source s := by
  rw [weight, weight, h.grammar.elseBranches_eq]
  refine Nat.add_le_add_right ?_ _
  split
  · rename_i hs
    rw [Bool.and_eq_true] at hs
    rw [hs.1, h.isDecision_of_base hs.2]
    exact Nat.le_refl 1
  · exact Nat.zero_le _

theorem complexity_le (s : Site) (source : Text) :
    base.complexity s source ≤ d.complexity s source := by
  unfold complexity
  induction s.preorder with
  | nil => exact Nat.le_refl 1
  | cons t l ih =>
    rw [List.foldr_cons, List.foldr_cons]
    exact Nat.add_le_add (h.weight_le source t) ih

/-- An extension without decisions of its own keeps the complexity. -/
theorem complexity_eq (hkinds : d.decisionKinds = base.decisionKinds)
    (hunder : d.decisionsUnder = base.decisionsUnder) (s : Site) (source : Text) :
    d.complexity s source = base.complexity s source := by
  have hweight : d.weight source = base.weight source := by
    funext t
    rw [weight, weight, isDecision, isDecision, hkinds, hunder, h.operatorsDecide,
      h.grammar.isBranchingBinary_eq, h.grammar.elseBranches_eq]
  rw [complexity, complexity, hweight]

/-- An entity keeps its tags. That a class has a parent may be told otherwise. -/
theorem mem_tags {kind : EntityKind} {s : Site} {source : Text} {p : Property}
    (hp : p ∈ base.tags kind s source) :
    p ∈ d.tags kind s source ∨ (kind = .classLike ∧ p = .hasParent) := by
  rw [tags, Property.mem_normalize] at hp ⊢
  simp only [List.mem_append, List.cons_append, List.mem_cons, h.decoration] at hp ⊢
  rcases hp with hp | (hp | hp) | hp
  · exact .inl (.inl hp)
  · obtain ⟨t, ht, hp⟩ := List.mem_flatMap.1 hp
    exact .inl (.inr (.inl (.inl (List.mem_flatMap.2 ⟨t, ht, h.properties_subset t source hp⟩))))
  · split at hp
    · rename_i hparent
      exact .inr ⟨hparent.1, List.mem_singleton.1 hp⟩
    · cases hp
  · exact .inl (.inr (.inr hp))

end Extends
end Dialect

/-- Two entities of one kind at one place, with the same texts. -/
structure Entity.Matches (e e' : Entity) : Prop where
  kind : e'.kind = e.kind
  name : e'.name = e.name
  signature : e'.signature = e.signature
  stub : e'.stub = e.stub
  lineStart : e'.lineStart = e.lineStart
  lineEnd : e'.lineEnd = e.lineEnd
  code : e'.code = e.code

namespace Dialect

/-- What a node defines for the base it defines for the extension. -/
theorem Extends.entityAt?_eq_some {base d : Dialect} (h : base.Extends d) {file : SourceFile}
    {s : Site} {e : Entity} (he : base.entityAt? file s = some e) :
    ∃ kind, base.entityKind? s = some kind ∧ e = base.build file kind s ∧
      d.entityAt? file s = some (d.build file kind s) ∧ e.Matches (d.build file kind s) := by
  obtain ⟨kind, hkind, hbody, rfl⟩ := (base.entityAt?_eq_some_iff file).1 he
  have hentity : d.entityAt? file s = some (d.build file kind s) := by
    refine (d.entityAt?_eq_some_iff file).2 ⟨kind, h.entityKind? s kind hkind, ?_, rfl⟩
    rwa [h.body?_eq]
  have hstub : d.stub s kind (d.signature s file.source) =
      base.stub s kind (base.signature s file.source) := by
    rw [h.signature_eq, h.stub s kind _ hkind]
  exact ⟨kind, hkind, rfl, hentity, rfl, h.name s kind _ hkind, h.signature_eq s _, hstub, rfl, rfl,
    rfl⟩

/-! ## The two families -/

/-- A node of a kind that only TypeScript has for entities binds no function. -/
theorem scriptFunction?_eq_none {s : Site} (hs : s.kind = "abstract_class_declaration") :
    scriptFunction? s = none := by
  rw [scriptFunction?, hs]
  rfl

theorem javascript_extends (l : Language) :
    javascript.Extends { typescript with language := l } where
  grammar := ⟨rfl, rfl, rfl, rfl, rfl, rfl⟩
  boundFunction? := rfl
  bodyKinds := rfl
  collapsesSignature := rfl
  branchKinds := rfl
  hasElse := rfl
  marksTokens := rfl
  operatorsDecide := rfl
  decoration := rfl
  marks := List.subset_append_left _ _
  nameMarks _ h := h
  decisionKinds _ h := h
  decisionsUnder _ h := h
  entityKind? s kind hkind := by
    have hlookup : ∀ k, typescript.entityKinds.lookup k = (javascript.entityKinds.lookup k).or
        ([("abstract_class_declaration", EntityKind.classLike)].lookup k) :=
      fun k => List.lookup_append
    unfold entityKind? at hkind ⊢
    simp only [hlookup]
    cases hk : javascript.entityKinds.lookup s.kind with
    | some k =>
      rw [hk] at hkind
      exact hkind
    | none =>
      rw [hk] at hkind
      by_cases habstract : s.kind = "abstract_class_declaration"
      · have hnone : javascript.boundFunction? s = none := scriptFunction?_eq_none habstract
        rw [hnone] at hkind
        cases hkind
      · have hadded : [("abstract_class_declaration", EntityKind.classLike)].lookup s.kind = none :=
          List.lookup_eq_none_iff.2 (by simpa using habstract)
        rw [hadded]
        exact hkind
  name _ _ _ _ := rfl
  stub _ _ _ _ := rfl

/-- C has functions only. -/
theorem entityKind?_c {s : Site} {kind : EntityKind} (h : c.entityKind? s = some kind) :
    s.kind = "function_definition" ∧ kind = .callable := by
  have hlookup : c.entityKind? s =
      [("function_definition", EntityKind.callable)].lookup s.kind := by
    have hbound : c.boundFunction? s = none := rfl
    rw [entityKind?, hbound]
    change _ = c.entityKinds.lookup s.kind
    cases c.entityKinds.lookup s.kind <;> rfl
  rw [hlookup, List.lookup_cons] at h
  cases hs : s.kind == "function_definition" with
  | true =>
    rw [hs] at h
    exact ⟨eq_of_beq hs, (Option.some.inj h).symm⟩
  | false =>
    rw [hs] at h
    cases h

theorem c_extends_cpp : c.Extends cpp where
  grammar := ⟨rfl, rfl, rfl, rfl, rfl, rfl⟩
  boundFunction? := rfl
  bodyKinds := rfl
  collapsesSignature := rfl
  branchKinds := rfl
  hasElse := rfl
  marksTokens := rfl
  operatorsDecide := rfl
  decoration := rfl
  marks := List.subset_append_left _ _
  nameMarks _ h := h
  decisionKinds := List.subset_append_left _ _
  decisionsUnder _ h := h
  entityKind? s kind hkind := by
    obtain ⟨hs, rfl⟩ := entityKind?_c hkind
    rw [entityKind?, hs]
    rfl
  name s kind source hkind := by
    change cppName s source = declaratorName s source
    rw [cppName, (entityKind?_c hkind).1]
    rfl
  stub s kind signature hkind := by
    obtain ⟨-, rfl⟩ := entityKind?_c hkind
    rfl

/-- Every entity of JavaScript is one of TypeScript in both its dialects, and every entity of C is
one of C++, of the same kind, at the same place and with the same texts. TypeScript keeps the
complexity and all tags but the one for a parent; C++ keeps all tags and no decision is lost. -/
theorem entityAt?_of_base (file : SourceFile) (s : Site) :
    (∀ d ∈ [typescript, tsx], ∀ e, javascript.entityAt? file s = some e →
      ∃ e', d.entityAt? file s = some e' ∧ e.Matches e' ∧ e'.complexity = e.complexity ∧
        ∀ p ∈ e.tags, p ≠ .hasParent → p ∈ e'.tags) ∧
      ∀ e, c.entityAt? file s = some e →
        ∃ e', cpp.entityAt? file s = some e' ∧ e.Matches e' ∧ e.complexity ≤ e'.complexity ∧
          e.tags ⊆ e'.tags := by
  constructor
  · have hscript : ∀ l, ∀ e, javascript.entityAt? file s = some e →
        ∃ e', Dialect.entityAt? { typescript with language := l } file s = some e' ∧ e.Matches e' ∧
          e'.complexity = e.complexity ∧ ∀ p ∈ e.tags, p ≠ .hasParent → p ∈ e'.tags := by
      intro l e he
      obtain ⟨kind, hkind, rfl, hentity, hmatches⟩ := (javascript_extends l).entityAt?_eq_some he
      refine ⟨_, hentity, hmatches, (javascript_extends l).complexity_eq rfl rfl s _, ?_⟩
      intro p hp hparent
      exact ((javascript_extends l).mem_tags hp).resolve_right fun h => hparent h.2
    intro d hd
    rcases List.mem_pair.1 hd with rfl | rfl
    · exact hscript .typescript
    · exact hscript .tsx
  · intro e he
    obtain ⟨kind, hkind, rfl, hentity, hmatches⟩ := c_extends_cpp.entityAt?_eq_some he
    refine ⟨_, hentity, hmatches, c_extends_cpp.complexity_le s _, ?_⟩
    intro p hp
    refine (c_extends_cpp.mem_tags hp).resolve_right ?_
    rintro ⟨hclass, -⟩
    rw [(entityKind?_c hkind).2] at hclass
    cases hclass

/-- A class of JavaScript with a parent and a method. -/
def heritageFile : SourceFile where
  path := "a.js"
  source := "class A extends B { m() { } }".toList
  root := .ofSpan "class_declaration" true none 0 29 [
    .ofSpan "class" false none 0 5 [],
    .ofSpan "identifier" true (some "name") 6 7 [],
    .ofSpan "class_heritage" true none 8 17 [
      .ofSpan "extends" false none 8 15 [],
      .ofSpan "identifier" true none 16 17 []],
    .ofSpan "class_body" true (some "body") 18 29 [
      .ofSpan "\x7b" false none 18 19 [],
      .ofSpan "method_definition" true none 20 27 [
        .ofSpan "property_identifier" true (some "name") 20 21 [],
        .ofSpan "formal_parameters" true (some "parameters") 21 23 [],
        .ofSpan "statement_block" true (some "body") 24 27 []],
      .ofSpan "\x7d" false none 28 29 []]]

/-- A function of C with an if. -/
def guardedFile : SourceFile where
  path := "a.c"
  source := "int f() \x7b if (a) g(); \x7d".toList
  root := .ofSpan "function_definition" true none 0 23 [
    .ofSpan "primitive_type" true (some "type") 0 3 [],
    .ofSpan "function_declarator" true (some "declarator") 4 7 [
      .ofSpan "identifier" true (some "declarator") 4 5 [],
      .ofSpan "parameter_list" true (some "parameters") 5 7 []],
    .ofSpan "compound_statement" true (some "body") 8 23 [
      .ofSpan "if_statement" true none 10 21 [
        .ofSpan "parenthesized_expression" true (some "condition") 13 16 [
          .ofSpan "identifier" true none 14 15 []],
        .ofSpan "expression_statement" true (some "consequence") 17 21 [
          .ofSpan "call_expression" true none 17 20 []]]]]

/-- The class is one of TypeScript, which looks for the parent in another node and does not tag it
with it. The function is one of C++. -/
theorem entityAt?_of_base_heritage :
    (∃ e e', javascript.entityAt? heritageFile (.top heritageFile.root) = some e ∧
      typescript.entityAt? heritageFile (.top heritageFile.root) = some e' ∧
      e'.signature = e.signature ∧ e'.complexity = e.complexity ∧ e.tags = [.isClass, .hasParent] ∧
      .isClass ∈ e'.tags ∧ .hasParent ∉ e'.tags) ∧
      ∃ e e', c.entityAt? guardedFile (.top guardedFile.root) = some e ∧
        cpp.entityAt? guardedFile (.top guardedFile.root) = some e' ∧
        e'.signature = e.signature ∧ e.complexity = 2 ∧ 2 ≤ e'.complexity ∧ .hasIf ∈ e'.tags := by
  constructor
  · have hsome : (javascript.entityAt? heritageFile (.top heritageFile.root)).map (·.tags) =
        some [.isClass, .hasParent] := by decide +kernel
    have hparent : (typescript.entityAt? heritageFile (.top heritageFile.root)).map (·.tags) =
        some [.isClass] := by decide +kernel
    obtain ⟨e, he, htags⟩ := Option.map_eq_some_iff.1 hsome
    obtain ⟨e', he', hmatches, hcomplexity, hkept⟩ :=
      (entityAt?_of_base heritageFile (.top heritageFile.root)).1 typescript (by simp) e he
    rw [he', Option.map_some, Option.some.injEq] at hparent
    refine ⟨e, e', he, he', hmatches.signature, hcomplexity, htags, ?_, by simp [hparent]⟩
    exact hkept .isClass (by simp [htags]) (by decide)
  · have hsome : (c.entityAt? guardedFile (.top guardedFile.root)).map
        (fun e => (e.complexity, e.tags.contains .hasIf)) = some (2, true) := by decide +kernel
    obtain ⟨e, he, hvalues⟩ := Option.map_eq_some_iff.1 hsome
    obtain ⟨hcomplexity, htags⟩ := Prod.mk.inj hvalues
    obtain ⟨e', he', hmatches, hle, hkept⟩ :=
      (entityAt?_of_base guardedFile (.top guardedFile.root)).2 e he
    rw [hcomplexity] at hle
    exact ⟨e, e', he, he', hmatches.signature, hcomplexity, hle,
      hkept (List.contains_iff_mem.1 htags)⟩

end Dialect
end Mutagen
