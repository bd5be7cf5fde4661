import Mutagen.Proofs.Dialect.Tags
import Mutagen.Proofs.Entity.Extraction
import Mutagen.Proofs.Modifier.Likelihood
import Mutagen.Proofs.Modifier.UntouchedLines

/-!
# Entities without text

An entity with an empty span has no text, and neither has any node in it. The
strategies that look for nodes find nothing to write there: what they would move has
no text, operators without text are in no table, and no statement is smaller than the
entity. So they make no mutant of it.
-/
namespace Mutagen

theorem Text.slice_self (t : Text) (n : Nat) : t.slice n n = [] := by
  rw [slice, slice?, if_pos (Nat.le_refl n), Nat.sub_self]
  cases behind? n t with
  | none => rfl
  | some rest => simp

theorem Text.splice_nil (i j : Nat) : splice [] i j [] = [] := by
  unfold splice
  split
  · rename_i before rest after hstart hstop
    obtain ⟨hstart, -⟩ := splitAt?_eq_some_iff.1 hstart
    obtain ⟨lead, hstop, -⟩ := behind?_eq_some_iff.1 hstop
    simp_all
  · rfl

namespace EditList

/-- No edit writes anything. -/
def Deleting (l : EditList) : Prop := ∀ e ∈ l.toList, e.replacement = []

theorem deleting_empty : empty.Deleting := by
  intro e he
  cases he

theorem Deleting.push {l l' : EditList} {e : Edit} (hl : l.Deleting) (he : e.replacement = [])
    (h : l.push e = .ok l') : l'.Deleting := by
  unfold EditList.push at h
  split at h
  · cases h
  · split at h
    · cases h
    · cases h
      intro x hx
      rcases List.mem_append.1 hx with hx | hx
      · exact hl x hx
      · rw [List.mem_singleton.1 hx]
        exact he

theorem Deleting.offer {l : EditList} {e : Edit} (hl : l.Deleting) (he : e.replacement = []) :
    (l.offer e).Deleting := by
  unfold EditList.offer
  split
  · rename_i l' h
    exact hl.push he h
  · exact hl

/-- Edits that write nothing leave an empty text empty. -/
theorem Deleting.apply_nil {l : EditList} (hl : l.Deleting) (hsep : l.Separated) {r : Text}
    (h : l.apply [] = .ok r) : r = [] := by
  have hmade : ∀ es : List Edit, (∀ e ∈ es, e.replacement = []) → ∀ made,
      es.foldrM (make []) [] = .ok made → made = [] := by
    intro es hes
    induction es with
    | nil =>
      intro made hmade
      cases hmade
      rfl
    | cons e es ih =>
      intro made hmade
      obtain ⟨he, hes⟩ := List.forall_mem_cons.1 hes
      rw [List.foldrM_cons] at hmade
      cases hrest : es.foldrM (make []) [] with
      | error err =>
        rw [hrest] at hmade
        cases hmade
      | ok rest =>
        rw [hrest, ih hes rest hrest] at hmade
        change make [] e [] = .ok made at hmade
        rw [make, he, Text.splice_nil] at hmade
        split at hmade
        · cases hmade
          rfl
        · cases hmade
  rw [hsep.apply_eq l.ascending_perm hsep.ascending] at h
  exact hmade l.ascending (fun e he => hl e (l.ascending_perm.mem_iff.1 he)) r h

end EditList

theorem Entity.mutated?_eq_none {e : Entity} {edits : EditList} (hraw : e.raw = [])
    (hcode : e.code = []) (hedits : edits.Deleting) : e.mutated? edits = none := by
  cases hmutated : e.mutated? edits with
  | none => rfl
  | some code =>
    obtain ⟨-, rebased, raw, hrebase, happly, rfl, hdiff⟩ := mutated?_eq_some_iff.1 hmutated
    obtain ⟨-, hmoved, hsep⟩ := EditList.rebase_eq_ok_iff.1 hrebase
    have hdeleting : rebased.Deleting := by
      intro x hx
      rw [hmoved] at hx
      obtain ⟨y, hy, rfl⟩ := List.mem_map.1 hx
      exact hedits y hy
    rw [hraw] at happly
    rw [hdeleting.apply_nil hsep happly, hcode] at hdiff
    exact absurd rfl hdiff

/-! ## The parts of a subtree -/

namespace Site

theorem mem_children_of_operator? {s op : Site} (h : s.operator? = some op) : op ∈ s.children := by
  unfold operator? at h
  split at h
  · rename_i c hc
    cases h
    exact mem_children_of_childByField? hc
  · split at h
    · rename_i hc
      cases h
      have hmem : op ∈ s.childrenByField "operators" := by simp [hc]
      exact mem_children_of_mem_childrenByField hmem
    · cases h

/-- The parts of a binary expression are children of it. -/
theorem mem_children_of_binaryParts? {s : Site} {parts : BinaryParts}
    (h : s.binaryParts? = some parts) :
    parts.left ∈ s.children ∧ parts.operator ∈ s.children ∧ parts.right ∈ s.children := by
  obtain ⟨op, hop, h⟩ := Option.bind_eq_some_iff.1 h
  have hop := mem_children_of_operator? hop
  split at h
  · rename_i left right hleft hright
    cases h
    exact ⟨mem_children_of_childByField? hleft, hop, mem_children_of_childByField? hright⟩
  · split at h
    · rename_i left right hboth
      cases h
      have hmem : ∀ c ∈ [left, right], c ∈ s.children := by
        intro c hc
        rw [← hboth] at hc
        exact (List.mem_filter.1 (List.mem_filter.1 hc).1).1
      exact ⟨hmem left (by simp), hop, hmem right (by simp)⟩
    · cases h

theorem within_unwrapSole? {parens : List String} {s t : Site} (i : Nat) {ns : List Node}
    (ih : ∀ n ∈ ns, ∀ above, (⟨n, above⟩ : Site).Within (n.unwrapParens parens above))
    (h : Node.unwrapSole? parens s.node s.above i ns = some t) :
    ∃ c ∈ s.childrenFrom i ns, c.Within t := by
  induction ns generalizing i with
  | nil => cases h
  | cons n ns ihns =>
    obtain ⟨hn, hns⟩ := List.forall_mem_cons.1 ih
    rw [Node.unwrapSole?] at h
    split at h
    · split at h
      · cases h
      · cases h
        exact ⟨s.child i n, List.mem_cons_self, hn _⟩
    · obtain ⟨c, hc, ht⟩ := ihns (i + 1) hns h
      exact ⟨c, List.mem_cons_of_mem _ hc, ht⟩

theorem within_unwrapParens (parens : List String) (s : Site) :
    s.Within (s.unwrapParens parens) := by
  obtain ⟨n, above⟩ := s
  induction n using Node.induction generalizing above with
  | step l cs ih =>
    rw [unwrapParens, Node.unwrapParens]
    split
    · cases hsole : Node.unwrapSole? parens (.mk l cs) above 0 cs with
      | none => exact .self
      | some t =>
        obtain ⟨c, hc, ht⟩ :=
          within_unwrapSole? (s := ⟨.mk l cs, above⟩) 0 (fun n hn above => ih n hn above) hsole
        exact (Within.child .self hc).trans ht
    · exact .self

end Site

/-! ## Steps without text -/

namespace Target

variable {t : Target} {p : Float}

theorem mem_binaries {b : Site × BinaryParts} :
    b ∈ t.binaries ↔ t.site.Within b.1 ∧ b.1.named = true ∧ b.1.kind ∈ t.grammar.binaryKinds ∧
      b.1.binaryParts? = some b.2 := by
  rw [binaries, List.mem_filterMap]
  constructor
  · rintro ⟨s, hs, hb⟩
    obtain ⟨parts, hparts, rfl⟩ := Option.map_eq_some_iff.1 hb
    obtain ⟨hwithin, hnamed, hkind⟩ := Site.mem_descendantsOfKinds.1 hs
    exact ⟨hwithin, hnamed, hkind, hparts⟩
  · rintro ⟨hwithin, hnamed, hkind, hparts⟩
    exact ⟨b.1, Site.mem_descendantsOfKinds.2 ⟨hwithin, hnamed, hkind⟩, by rw [hparts]; rfl⟩

theorem within_of_mem_binaries {b : Site × BinaryParts} (hb : b ∈ t.binaries) :
    t.site.Within b.2.left ∧ t.site.Within b.2.operator ∧ t.site.Within b.2.right := by
  obtain ⟨hs, -, -, hparts⟩ := mem_binaries.1 hb
  obtain ⟨hleft, hop, hright⟩ := Site.mem_children_of_binaryParts? hparts
  exact ⟨.child hs hleft, .child hs hop, .child hs hright⟩

/-- What is left of a chain is part of an operand of it. -/
theorem keptOperand?_below {parts : BinaryParts} {kept : Site}
    (h : t.keptOperand? parts = some kept) : parts.left.Within kept ∨ parts.right.Within kept := by
  have hleft := parts.left.within_unwrapParens t.grammar.parenKinds
  have hright := parts.right.within_unwrapParens t.grammar.parenKinds
  unfold keptOperand? at h
  dsimp only at h
  split at h
  · obtain ⟨inner, hinner, rfl⟩ := Option.map_eq_some_iff.1 h
    exact .inl (.child hleft (Site.mem_children_of_binaryParts? hinner).1)
  · split at h
    · obtain ⟨inner, hinner, rfl⟩ := Option.map_eq_some_iff.1 h
      exact .inr (.child hright (Site.mem_children_of_binaryParts? hinner).2.2)
    · cases h

theorem within_of_keptOperand? {parts : BinaryParts} {kept : Site}
    (hleft : t.site.Within parts.left) (hright : t.site.Within parts.right)
    (h : t.keptOperand? parts = some kept) : t.site.Within kept := by
  rcases keptOperand?_below h with hbelow | hbelow
  · exact hleft.trans hbelow
  · exact hright.trans hbelow

section Silent

variable (hsilent : ∀ s, t.site.Within s → t.text s = [])

include hsilent

theorem operatorOf_eq_empty {b : Site × BinaryParts} (hb : b ∈ t.binaries) :
    t.operatorOf b.2 = "" := by
  rw [operatorOf, hsilent _ (within_of_mem_binaries hb).2.1, String.ofList_nil]

theorem always_changeOperators_deleting (hclass : t.grammar.operators.classOf? "" = none) :
    Draw.Always EditList.Deleting (t.changeOperators p) := by
  refine Draw.always_foldlM ?_ EditList.deleting_empty
  intro b hb edits hedits
  unfold changeStep
  rw [operatorOf_eq_empty hsilent hb, alternatives, hclass]
  exact Draw.always_pure hedits

theorem always_flipOperators_deleting (hflip : t.grammar.operators.flip? "" = none) :
    Draw.Always EditList.Deleting (t.flipOperators p) := by
  refine Draw.always_foldlM ?_ EditList.deleting_empty
  intro b hb edits hedits
  unfold flipStep
  rw [operatorOf_eq_empty hsilent hb, hflip]
  exact Draw.always_pure hedits

theorem returns_swapOperands_deleting :
    Attempt.Returns EditList.Deleting (t.swapOperands p) := by
  refine Attempt.returns_foldlM ?_ EditList.deleting_empty
  intro b hb edits hedits
  obtain ⟨hleft, -, hright⟩ := within_of_mem_binaries hb
  have hswap : ∀ e ∈ t.swapEdits b.2, e.replacement = [] := by
    rw [swapEdits, operatorOf_eq_empty hsilent hb, hsilent _ hleft, hsilent _ hright]
    simp [converse?]
  unfold swapStep
  dsimp only
  split
  · exact Attempt.returns_pure hedits
  · refine Attempt.returns_bind_of_forall fun flipped => ?_
    split
    · refine Attempt.returns_foldlM ?_ hedits
      intro e he l hl
      split
      · rename_i l' hpush
        exact Attempt.returns_pure (hl.push (hswap e he) hpush)
      · exact Attempt.returns_failure _
    · exact Attempt.returns_pure hedits

theorem always_breakChains_deleting : Draw.Always EditList.Deleting (t.breakChains p) := by
  refine Draw.always_foldlM ?_ EditList.deleting_empty
  intro b hb edits hedits
  obtain ⟨hleft, -, hright⟩ := within_of_mem_binaries hb
  unfold breakStep
  split
  · exact Draw.always_pure hedits
  · split
    · exact Draw.always_pure hedits
    · rename_i kept hkept
      have hkept := hsilent kept (within_of_keptOperand? hleft hright hkept)
      refine Draw.always_bind_of_forall fun flipped => ?_
      split
      · exact Draw.always_pure (hedits.offer hkept)
      · exact Draw.always_pure hedits

theorem always_changeConstants_deleting : Draw.Always EditList.Deleting (t.changeConstants p) := by
  refine Draw.always_foldlM ?_ EditList.deleting_empty
  intro operand hoperand edits hedits
  obtain ⟨b, hb, hoperand⟩ := List.mem_flatMap.1 hoperand
  obtain ⟨hleft, -, hright⟩ := within_of_mem_binaries hb
  have hwithin : t.site.Within operand := by
    rcases List.mem_cons.1 hoperand with rfl | hoperand
    · exact hleft
    · rw [List.mem_singleton.1 hoperand]
      exact hright
  have htext := hsilent _ (hwithin.trans (operand.within_unwrapParens t.grammar.parenKinds))
  unfold constantStep
  dsimp only
  split
  · exact Draw.always_pure hedits
  · refine Draw.always_bind_of_forall fun flipped => ?_
    split
    · rw [htext]
      exact Draw.always_pure hedits
    · exact Draw.always_pure hedits

end Silent

/-! ## Targets without text -/

theorem returns_invertBranches
    (h : ∀ s ∈ t.site.descendantsOfKinds t.grammar.ifKinds, t.grammar.invertible? s = none) :
    Attempt.Returns (· = .empty) (t.invertBranches p) := by
  refine Attempt.returns_foldlM ?_ rfl
  rintro s hs edits rfl
  rw [invertStep, h s hs]
  exact Attempt.returns_pure rfl

theorem always_removeMatching_of_statementOf? {kinds : List String}
    (h : ∀ s ∈ t.site.descendantsOfKinds kinds, t.statementOf? s = none) :
    Draw.Always (· = .empty) (t.removeMatching kinds p) := by
  refine t.always_removeMatching_of_chosen (Draw.always_foldlM ?_ rfl)
  rintro s hs chosen rfl
  unfold chooseStep
  rw [h s hs]
  split <;> exact Draw.always_pure rfl

theorem returns_removeBase_deleting : Attempt.Returns EditList.Deleting (t.removeBase p) := by
  unfold removeBase
  dsimp only
  split
  · exact Attempt.returns_failure _
  · refine Attempt.returns_bind_of_forall fun flipped => ?_
    split
    · refine Attempt.returns_bind_of_forall fun pick? => ?_
      refine Attempt.returns_bind_of_forall fun pick => ?_
      split
      · rename_i edits hpush
        exact Attempt.returns_pure (EditList.deleting_empty.push rfl hpush)
      · exact Attempt.returns_failure _
    · exact Attempt.returns_failure _

theorem elseBody?_eq_or_child {g : Grammar} {s body : Site} (h : g.elseBody? s = some body) :
    body = s ∨ body ∈ s.children := by
  unfold Grammar.elseBody? at h
  split at h
  · right
    cases hfield : s.childByField? "body" with
    | some c =>
      rw [hfield] at h
      cases h
      exact Site.mem_children_of_childByField? hfield
    | none =>
      rw [hfield, Option.none_or] at h
      exact (List.mem_filter.1 (List.mem_of_find?_eq_some h)).1
  · cases h
    exact .inl rfl

theorem within_elseBody? {g : Grammar} {s body : Site} (h : g.elseBody? s = some body) :
    s.Within body := by
  rcases elseBody?_eq_or_child h with rfl | hchild
  · exact .self
  · exact .child .self hchild

/-- The statement that carries a node is the node or stands around it, and is a proper part of
the entity. -/
theorem statementOf?_eq_some {s statement : Site} (h : t.statementOf? s = some statement) :
    statement ∈ s :: s.ancestors ∧ t.site.span.contains statement.span = true ∧
      statement.span ≠ t.site.span := by
  obtain ⟨block, -, h⟩ := Option.bind_eq_some_iff.1 h
  split at h
  · rename_i hpart
    cases h
    simp only [Bool.and_eq_true, bne_iff_ne] at hpart
    refine ⟨?_, hpart.1.2, hpart.2⟩
    cases hlast : (s.ancestors.takeWhile fun a =>
        t.grammar.statementWrapperKinds.contains a.kind).getLast? with
    | none => exact List.mem_cons_self
    | some a =>
      have hmem := List.mem_of_getLast? hlast
      exact List.mem_cons_of_mem s ((List.takeWhile_sublist _).subset hmem)
  · cases h

section Empty

variable {root : Node} (hroot : root.Nested) (hsite : (Site.top root).Within t.site)
  (hempty : t.site.span.stop ≤ t.site.span.start)

include hroot hsite hempty

theorem text_eq_nil {s : Site} (hs : t.site.Within s) : t.text s = [] := by
  have hle := hroot.start_le_stop hsite
  have hspan := hroot.span_eq_of_empty hsite hs hempty
  have heq : t.site.span.stop = t.site.span.start := by omega
  rw [text, Site.text, hspan, Span.text, heq]
  exact Text.slice_self _ _

theorem branchSpan?_eq {g : Grammar} {s : Site} {span : Span} (hs : t.site.Within s)
    (h : g.branchSpan? s = some span) : span = t.site.span := by
  have heq : ∀ c ∈ s.namedChildren, c.span = t.site.span := by
    intro c hc
    exact hroot.span_eq_of_empty hsite (.child hs (List.mem_filter.1 hc).1) hempty
  unfold Grammar.branchSpan? at h
  split at h
  · split at h
    · rename_i first last hfirst hlast
      cases h
      rw [heq first (List.mem_of_head? hfirst), heq last (List.mem_of_getLast? hlast)]
    · cases h
  · cases h
    exact hroot.span_eq_of_empty hsite hs hempty

/-- Two branches without text stand at the same place. -/
theorem invertible?_eq_none (g : Grammar) {s : Site} (hs : t.site.Within s) :
    g.invertible? s = none := by
  cases hspans : g.invertible? s with
  | none => rfl
  | some spans =>
    obtain ⟨alternative, body, consequence, hone, -, -, hbody, -, hconsequence, hthen, helse,
      hoverlap⟩ := Grammar.invertible?_eq_some hspans
    have halternative : alternative ∈ s.childrenByField "alternative" := by simp [hone]
    have hbody : t.site.Within body :=
      (Site.Within.child hs (Site.mem_children_of_mem_childrenByField halternative)).trans
        (within_elseBody? hbody)
    have hthen := branchSpan?_eq hroot hsite hempty
      (.child hs (Site.mem_children_of_childByField? hconsequence)) hthen
    have helse := branchSpan?_eq hroot hsite hempty hbody helse
    rw [hthen, helse] at hoverlap
    simp [Span.overlaps, Span.isEmpty, Span.len, Nat.sub_eq_zero_of_le hempty] at hoverlap

/-- No statement is smaller than an entity without text. -/
theorem statementOf?_eq_none {s : Site} (hs : t.site.Within s) : t.statementOf? s = none := by
  cases hstatement : t.statementOf? s with
  | none => rfl
  | some statement =>
    obtain ⟨hup, hin, hne⟩ := statementOf?_eq_some hstatement
    have hle := hroot.start_le_stop (Site.within_of_mem_ancestors (hsite.trans hs) hup)
    have hin := Span.contains_iff.1 hin
    have hle' := hroot.start_le_stop hsite
    exact absurd (Span.eq_of_start_of_stop (by omega) (by omega)) hne

end Empty

end Target

theorem Language.classOf?_empty (l : Language) :
    l.dialect.grammar.operators.classOf? "" = none := by
  cases l <;> decide

theorem Language.flip?_empty (l : Language) : l.dialect.grammar.operators.flip? "" = none := by
  cases l <;> decide

namespace Strategy

/-- The property that shows what a strategy looks for, of strategies that look for certain
nodes. -/
def sought? : Strategy → Option Property
  | invertBranches => some .hasIfElse
  | changeOperators | flipOperators | swapOperands | breakChains | changeConstants =>
    some .hasBinaryOp
  | removeLoops => some .hasLoop
  | removeConditionals => some .hasIf
  | removeWrappers => some .hasWrapper
  | removeBase => some .hasParent
  | shuffleStatements | removeAssignments | removeMethods | shuffleMethods => none

/-- These strategies make no mutant of an entity without text. -/
theorem returns_run_of_empty {root : Node} (hroot : root.Nested) {e : Entity} {t : Target}
    (ht : e.target? = some t) (hsite : (Site.top root).Within t.site)
    (hempty : t.site.span.stop ≤ t.site.span.start) (hraw : e.raw = []) (hcode : e.code = [])
    {s : Strategy} (hs : s.sought?.isSome = true) (p : Float) (n : Nat) :
    Attempt.Returns (fun _ => False) (s.run e p n) := by
  have hsilent : ∀ x, t.site.Within x → t.text x = [] :=
    fun x hx => Target.text_eq_nil hroot hsite hempty hx
  have hinvert : ∀ x ∈ t.site.descendantsOfKinds t.grammar.ifKinds,
      t.grammar.invertible? x = none :=
    fun x hx => Target.invertible?_eq_none hroot hsite hempty _ (Site.mem_descendantsOfKinds.1 hx).1
  have hremove : ∀ kinds,
      Attempt.Returns (· = .empty) (OptionT.lift (t.removeMatching kinds p)) := by
    intro kinds
    refine Attempt.returns_lift (Target.always_removeMatching_of_statementOf? ?_)
    intro x hx
    exact Target.statementOf?_eq_none hroot hsite hempty (Site.mem_descendantsOfKinds.1 hx).1
  have hdelete : ∀ {x : Attempt EditList}, Attempt.Returns EditList.Deleting x →
      Attempt.Returns (fun _ => False) (x >>= fun edits => Attempt.ofOption (e.mutated? edits)) :=
    fun hx => returns_unmutated (hx.imp fun _ => Entity.mutated?_eq_none hraw hcode)
  obtain ⟨site, -, hdialect⟩ := Entity.target?_eq_some_iff.1 ht
  have hclass : t.grammar.operators.classOf? "" = none := by
    rw [hdialect]
    exact e.language.classOf?_empty
  have hflip : t.grammar.operators.flip? "" = none := by
    rw [hdialect]
    exact e.language.flip?_empty
  rw [run, ht]
  refine Attempt.returns_bind (P := (· = t)) (Attempt.returns_pure rfl) ?_
  rintro _ rfl
  cases s with
  | invertBranches => exact returns_mutated? e (Target.returns_invertBranches hinvert)
  | changeOperators =>
    exact hdelete (Attempt.returns_lift (Target.always_changeOperators_deleting hsilent hclass))
  | flipOperators =>
    exact hdelete (Attempt.returns_lift (Target.always_flipOperators_deleting hsilent hflip))
  | swapOperands => exact hdelete (Target.returns_swapOperands_deleting hsilent)
  | breakChains =>
    exact hdelete (Attempt.returns_lift (Target.always_breakChains_deleting hsilent))
  | changeConstants =>
    exact hdelete (Attempt.returns_lift (Target.always_changeConstants_deleting hsilent))
  | removeLoops => exact returns_mutated? e (hremove _)
  | removeConditionals => exact returns_mutated? e (hremove _)
  | removeWrappers => exact returns_mutated? e (hremove _)
  | removeBase => exact hdelete Target.returns_removeBase_deleting
  | shuffleStatements => cases hs
  | removeAssignments => cases hs
  | removeMethods => cases hs
  | shuffleMethods => cases hs

end Strategy
end Mutagen
