import Mutagen.Proofs.Modifier.BrokenChains

/-!
# Replaced operators

Two strategies write other operators into binary expressions: one draws them from the
class of the operator, the other takes the opposite. Each expression with such an
operator gets one flip, and the edits are those of the expressions that pass it. The
operators of different expressions stand apart, whatever expressions lie in each other,
so that none of these edits is refused.
-/
namespace Mutagen

/-! ## Tables -/

namespace OperatorTable

variable {t : OperatorTable} {op op' : String} {members : List String}

/-- The classes of operators that can stand for each other, each logical family for itself. -/
def classes (t : OperatorTable) : List (List String) :=
  t.arithmetic :: t.bitwise :: t.comparison :: t.logical

theorem classOf?_eq_some (h : t.classOf? op = some members) :
    members ∈ t.classes ∧ op ∈ members := by
  unfold classOf? at h
  split at h
  · rename_i hmem
    cases h
    exact ⟨by simp [classes], List.contains_iff_mem.1 hmem⟩
  · split at h
    · rename_i hmem
      cases h
      exact ⟨by simp [classes], List.contains_iff_mem.1 hmem⟩
    · split at h
      · rename_i hmem
        cases h
        exact ⟨by simp [classes], List.contains_iff_mem.1 hmem⟩
      · have hfamily := List.mem_of_find?_eq_some h
        have hmem := List.find?_some h
        exact ⟨by simp [classes, hfamily], List.contains_iff_mem.1 hmem⟩

/-- What a table must keep: a class is short enough to draw from, all its operators have one
category, and opposites are each other's. -/
structure Sound (t : OperatorTable) : Prop where
  short : ∀ members ∈ t.classes, members.length ≤ UInt32.size
  category : ∀ members ∈ t.classes, ∀ op ∈ members, ∀ op' ∈ members,
    t.category? op' = t.category? op
  flips : ∀ pair ∈ t.flips,
    pair.1 ≠ pair.2 ∧ t.flip? pair.1 = some pair.2 ∧ t.flip? pair.2 = some pair.1

theorem mem_flips_of_flip? (h : t.flip? op = some op') :
    (op, op') ∈ t.flips ∨ (op', op) ∈ t.flips := by
  obtain ⟨pair, hpair, hmatch⟩ := List.exists_of_findSome?_eq_some h
  dsimp only at hmatch
  split at hmatch
  · rename_i hfirst
    cases hmatch
    rw [← beq_iff_eq.1 hfirst]
    exact .inl hpair
  · split at hmatch
    · rename_i hsecond
      cases hmatch
      rw [← beq_iff_eq.1 hsecond]
      exact .inr hpair
    · cases hmatch

/-- The opposite of the opposite is the operator itself. -/
theorem Sound.flip?_flip? (ht : t.Sound) (h : t.flip? op = some op') :
    t.flip? op' = some op ∧ op' ≠ op := by
  rcases mem_flips_of_flip? h with hmem | hmem
  · obtain ⟨hne, -, hback⟩ := ht.flips _ hmem
    exact ⟨hback, Ne.symm hne⟩
  · obtain ⟨hne, hback, -⟩ := ht.flips _ hmem
    exact ⟨hback, hne⟩

end OperatorTable

theorem Language.operators_sound (l : Language) : l.dialect.grammar.operators.Sound := by
  constructor
  · cases l <;> decide +kernel
  · cases l <;> decide +kernel
  · cases l <;> decide +kernel

namespace Target

variable {t : Target} {s : Strategy} {p : Float} {root : Node}

/-! ## Choices -/

/-- The operators that a strategy may write into an expression. -/
def choices (t : Target) (s : Strategy) (b : Site × BinaryParts) : List String :=
  match s with
  | .changeOperators => t.alternatives (t.operatorOf b.2)
  | .flipOperators => (t.grammar.operators.flip? (t.operatorOf b.2)).toList
  | _ => []

/-- The number of one of `n` choices; an opposite is not drawn. -/
def drawChoice (s : Strategy) (n : Nat) : Draw Nat :=
  match s with
  | .changeOperators => Draw.below n
  | _ => pure 0

/-- The expressions with a choice that pass their flips, each with the number of the choice drawn
for it. -/
def drawOperators (t : Target) (s : Strategy) (p : Float) :
    List (Site × BinaryParts) → Draw (List ((Site × BinaryParts) × Nat))
  | [] => pure []
  | b :: rest =>
    if (t.choices s b).isEmpty then t.drawOperators s p rest
    else do
      if ← Draw.flip p then
        let i ← drawChoice s (t.choices s b).length
        let later ← t.drawOperators s p rest
        pure ((b, i) :: later)
      else t.drawOperators s p rest

/-- The edit that writes the drawn operator over the one of the expression. -/
def operatorEdit (t : Target) (s : Strategy) (d : (Site × BinaryParts) × Nat) : Edit :=
  ⟨d.1.2.operator.span, ((t.choices s d.1)[d.2]?.getD "").toList⟩

theorem length_choices_le (hsound : t.grammar.operators.Sound) (b : Site × BinaryParts) :
    (t.choices s b).length ≤ UInt32.size := by
  unfold choices
  split
  · unfold alternatives
    cases hclass : t.grammar.operators.classOf? (t.operatorOf b.2) with
    | none => simp
    | some members =>
      have hshort := hsound.short _ (OperatorTable.classOf?_eq_some hclass).1
      exact Nat.le_trans (List.length_filter_le _ _) hshort
  · cases t.grammar.operators.flip? (t.operatorOf b.2) <;> simp [UInt32.size]
  · simp

/-- What is drawn is the number of a choice. -/
theorem always_drawOperators (hsound : t.grammar.operators.Sound)
    (items : List (Site × BinaryParts)) :
    Draw.Always (fun drawn => (drawn.map (·.1)).Sublist items ∧
      ∀ d ∈ drawn, d.2 < (t.choices s d.1).length) (t.drawOperators s p items) := by
  induction items with
  | nil => exact Draw.always_pure ⟨.slnil, by simp⟩
  | cons b rest ih =>
    have hskip : Draw.Always (fun drawn => (drawn.map (·.1)).Sublist (b :: rest) ∧
        ∀ d ∈ drawn, d.2 < (t.choices s d.1).length) (t.drawOperators s p rest) :=
      fun g => ⟨(ih g).1.cons b, (ih g).2⟩
    rw [drawOperators]
    split
    · exact hskip
    · rename_i hsome
      have hpos : 0 < (t.choices s b).length := List.length_pos_iff.2 (by simpa using hsome)
      have hchoice : Draw.Always (· < (t.choices s b).length)
          (drawChoice s (t.choices s b).length) := by
        unfold drawChoice
        split
        · exact Draw.always_below hpos (length_choices_le hsound b)
        · exact Draw.always_pure hpos
      refine Draw.always_bind_of_forall fun flipped => ?_
      split
      · refine Draw.always_bind hchoice fun i hi => ?_
        refine Draw.always_bind ih fun drawn hdrawn => Draw.always_pure ?_
        exact ⟨hdrawn.1.cons_cons b, List.forall_mem_cons.2 ⟨hi, hdrawn.2⟩⟩
      · exact hskip

/-- What a strategy writes for an operator: another one of its class, or its opposite. -/
def Replaces (t : Target) (s : Strategy) (op new : String) : Prop :=
  match s with
  | .changeOperators => new ≠ op ∧ ∃ members ∈ t.grammar.operators.classes,
      op ∈ members ∧ new ∈ members ∧
        t.grammar.operators.category? new = t.grammar.operators.category? op
  | .flipOperators => new ≠ op ∧ t.grammar.operators.flip? op = some new ∧
      t.grammar.operators.flip? new = some op
  | _ => False

theorem replaces_of_choice (hsound : t.grammar.operators.Sound) {b : Site × BinaryParts}
    {new : String} (h : new ∈ t.choices s b) : t.Replaces s (t.operatorOf b.2) new := by
  unfold choices at h
  split at h
  · unfold alternatives at h
    obtain ⟨hmem, hne⟩ := List.mem_filter.1 h
    cases hclass : t.grammar.operators.classOf? (t.operatorOf b.2) with
    | none =>
      rw [hclass] at hmem
      cases hmem
    | some members =>
      rw [hclass] at hmem
      obtain ⟨hmembers, hop⟩ := OperatorTable.classOf?_eq_some hclass
      exact ⟨by simpa using hne, members, hmembers, hop, hmem,
        hsound.category members hmembers _ hop _ hmem⟩
  · have hflip := Option.mem_toList.1 h
    obtain ⟨hback, hne⟩ := hsound.flip?_flip? hflip
    exact ⟨hne, hflip, hback⟩
  · cases h

/-! ## The loop -/

/-- The edits of a strategy that replaces operators. -/
def replaceOperators (t : Target) (s : Strategy) (p : Float) : Draw EditList :=
  match s with
  | .changeOperators => t.changeOperators p
  | .flipOperators => t.flipOperators p
  | _ => pure .empty

/-- Replaces one operator by a choice of the strategy. -/
def replaceStep (t : Target) (s : Strategy) (p : Float) (edits : EditList)
    (b : Site × BinaryParts) : Draw EditList := do
  if (t.choices s b).isEmpty then pure edits
  else if ← Draw.flip p then
    let i ← drawChoice s (t.choices s b).length
    pure (edits.offer (t.operatorEdit s (b, i)))
  else pure edits

theorem replaceOperators_eq_foldlM (hs : s = .changeOperators ∨ s = .flipOperators) :
    t.replaceOperators s p = t.binaries.foldlM (t.replaceStep s p) .empty := by
  rcases hs with rfl | rfl
  · rfl
  · have hstep : t.flipStep p = t.replaceStep .flipOperators p := by
      funext edits b
      unfold flipStep replaceStep operatorEdit choices
      dsimp only
      cases t.grammar.operators.flip? (t.operatorOf b.2) <;> rfl
    rw [replaceOperators, flipOperators, hstep]

/-- Where all operators stand apart, the loop makes the edit of every expression that passes. -/
theorem foldlM_replaceStep {items : List (Site × BinaryParts)} {edits : EditList}
    (hsep : edits.Separated)
    (hord : ∀ b ∈ items, b.2.operator.span.start ≤ b.2.operator.span.stop)
    (hitems : items.Pairwise fun a b => a.2.operator.span.Apart b.2.operator.span)
    (hclear : ∀ b ∈ items, ∀ x ∈ edits.toList, x.span.Apart b.2.operator.span) :
    items.foldlM (t.replaceStep s p) edits = (fun drawn =>
      ⟨edits.toList ++ drawn.map (t.operatorEdit s)⟩) <$> t.drawOperators s p items := by
  induction items generalizing edits with
  | nil => simp [drawOperators]
  | cons b rest ih =>
    obtain ⟨hb, hord⟩ := List.forall_mem_cons.1 hord
    obtain ⟨hbrest, hrest⟩ := List.pairwise_cons.1 hitems
    obtain ⟨hbclear, hclear⟩ := List.forall_mem_cons.1 hclear
    rw [List.foldlM_cons, drawOperators, replaceStep]
    by_cases hnone : (t.choices s b).isEmpty = true
    · rw [if_pos hnone, if_pos hnone, pure_bind]
      exact ih hsep hord hrest hclear
    · rw [if_neg hnone, if_neg hnone, bind_assoc, map_bind]
      refine congrArg (Draw.flip p >>= ·) (funext fun flipped => ?_)
      cases flipped with
      | false => exact ih hsep hord hrest hclear
      | true =>
        rw [if_pos rfl, if_pos rfl, bind_assoc, map_bind]
        refine congrArg (drawChoice s _ >>= ·) (funext fun i => ?_)
        -- nothing in the list clashes with the operator, and the new edit with no later one
        have hpush : edits.push (t.operatorEdit s (b, i)) =
            .ok ⟨edits.toList ++ [t.operatorEdit s (b, i)]⟩ :=
          (EditList.push_eq_ok_iff hsep).2
            ⟨rfl, EditList.separated_append_singleton.2 ⟨hsep, hb, hbclear⟩⟩
        have hlater : ∀ c ∈ rest, ∀ x ∈ edits.toList ++ [t.operatorEdit s (b, i)],
            x.span.Apart c.2.operator.span := by
          intro c hc x hx
          rcases List.mem_append.1 hx with hx | hx
          · exact hclear c hc x hx
          · rw [List.mem_singleton.1 hx]
            exact hbrest c hc
        rw [pure_bind, EditList.offer, hpush, ih (hsep.push hpush) hord hrest hlater]
        simp

section Tiled

variable (h : root.Tiled) (hsite : (Site.top root).Within t.site)
  (hops : ∀ b ∈ t.binaries, b.2.operator.span.start < b.2.operator.span.stop)
  (hbare : ∀ a ∈ t.binaries, ∀ b ∈ t.binaries, ¬ a.2.operator.Within b.1)

include h hsite hops hbare

/-- The operators of two expressions stand apart: the later expression is in an operand of the
earlier one, or behind it. -/
theorem operators_apart :
    t.binaries.Pairwise fun a b => a.2.operator.span.Apart b.2.operator.span := by
  refine (binaries_precede h hsite).imp_of_mem ?_
  intro a b ha hb hab
  obtain ⟨hawithin, -, -, haparts⟩ := mem_binaries.1 ha
  obtain ⟨hbwithin, -, -, hbparts⟩ := mem_binaries.1 hb
  obtain ⟨-, haop, -⟩ := Site.mem_children_of_binaryParts? haparts
  obtain ⟨-, hbop, -⟩ := Site.mem_children_of_binaryParts? hbparts
  have haroot := hsite.trans hawithin
  have hane := hops a ha
  have hbne := hops b hb
  have hain := h.start_le_and_stop_le haroot (.child .self haop)
  have hbin := h.start_le_and_stop_le (hsite.trans hbwithin) (.child .self hbop)
  unfold Span.Apart Span.Before
  rcases hab.within_or_behind with hwithin | hbehind
  · rcases hwithin.eq_or_below with heq | ⟨c, hc, hcb⟩
    · exact absurd heq hab.ne
    · have hbc := h.start_le_and_stop_le (.child haroot hc) hcb
      rcases h.children_apart haroot hc haop with rfl | hbefore | hafter
      · exact absurd hcb (hbare a ha b hb)
      · omega
      · omega
  · omega

/-- The edits are those of the expressions that pass. -/
theorem replaceOperators_eq (hs : s = .changeOperators ∨ s = .flipOperators) :
    t.replaceOperators s p =
      (fun drawn => ⟨drawn.map (t.operatorEdit s)⟩) <$> t.drawOperators s p t.binaries := by
  rw [replaceOperators_eq_foldlM hs]
  exact foldlM_replaceStep EditList.separated_empty (fun b hb => Nat.le_of_lt (hops b hb))
    (operators_apart h hsite hops hbare) (fun b hb x hx => nomatch hx)

/-- The edits of some of the expressions do not clash. -/
theorem separated_operatorEdits {drawn : List ((Site × BinaryParts) × Nat)}
    (hdrawn : (drawn.map (·.1)).Sublist t.binaries) :
    (⟨drawn.map (t.operatorEdit s)⟩ : EditList).Separated where
  ordered := by
    intro x hx
    obtain ⟨d, hd, rfl⟩ := List.mem_map.1 hx
    exact Nat.le_of_lt (hops d.1 (hdrawn.subset (List.mem_map_of_mem hd)))
  apart := by
    have hapart := (operators_apart h hsite hops hbare).sublist hdrawn
    rw [List.pairwise_map] at hapart
    exact List.pairwise_map.2 hapart

end Tiled
end Target

/-! ## Modifiers -/

namespace Modifier

theorem modify_replaceOperators {m : Modifier}
    (hm : m.strategy = .changeOperators ∨ m.strategy = .flipOperators) {e : Entity} {t : Target}
    (ht : e.target? = some t) :
    m.modify e = ((e.mutated? (t.replaceOperators m.strategy m.likelihood m.generator).1).map
      fun code => ⟨code, m.strategy⟩,
      { m with generator := (t.replaceOperators m.strategy m.likelihood m.generator).2 }) := by
  refine modify_eq_of_draw (fun t => t.replaceOperators m.strategy m.likelihood) ?_ ht
  rcases hm with hm | hm <;> rw [hm] <;> rfl

/-- Other operators are written over operators only, and each is of the class of the old one or its
opposite. In a nested tree whose operators have text and hold no expression, every expression that
passes its flip gets exactly one edit, whatever the generator: the number that is drawn for it is
that of a choice, and the edit writes this choice over its operator. The entity with these edits
made in it, and nothing else, is what the mutant shows. -/
theorem modify_replaces_operators (m : Modifier)
    (hm : m.strategy = .changeOperators ∨ m.strategy = .flipOperators) (e : Entity) (t : Target)
    (ht : e.target? = some t) (hroot : e.handle.root.Tiled)
    (hboundary : ∀ x, (Site.top e.handle.root).Within x →
      t.source.isBoundary x.span.start = true ∧ t.source.isBoundary x.span.stop = true)
    (hops : ∀ b ∈ t.binaries, b.2.operator.span.start < b.2.operator.span.stop)
    (hbare : ∀ a ∈ t.binaries, ∀ b ∈ t.binaries, ¬ a.2.operator.Within b.1) :
    ∃ drawn edits after r,
      t.drawOperators m.strategy m.likelihood t.binaries m.generator = (drawn, after) ∧
      t.replaceOperators m.strategy m.likelihood m.generator = (edits, after) ∧
      (drawn.map (·.1)).Sublist t.binaries ∧
      (∀ d ∈ drawn, ∃ new, (t.choices m.strategy d.1)[d.2]? = some new ∧
        t.operatorEdit m.strategy d = ⟨d.1.2.operator.span, new.toList⟩ ∧
        t.Replaces m.strategy (t.operatorOf d.1.2) new) ∧
      edits.toList = drawn.map (t.operatorEdit m.strategy) ∧ edits.Separated ∧
      e.Edited edits.toList r ∧
      m.modify e =
        (if edits.isEmpty = true ∨ Text.dedent r e.indent = e.code then none
          else some ⟨Text.dedent r e.indent, m.strategy⟩, { m with generator := after }) := by
  obtain ⟨hsite, hspan, hsource, hdialect⟩ := Entity.of_target?_eq_some ht
  have hsound : t.grammar.operators.Sound := by
    rw [Target.grammar, hdialect]
    exact e.language.operators_sound
  have hfit : ∀ x, (Site.top e.handle.root).Within x → x.span.Fits t.source :=
    fun x hx => ⟨hroot.start_le_stop hx, (hboundary x hx).1, (hboundary x hx).2⟩
  obtain ⟨hsub, hnumber⟩ := t.always_drawOperators (s := m.strategy) (p := m.likelihood) hsound
    t.binaries m.generator
  have hmade := congrFun
    (Target.replaceOperators_eq (p := m.likelihood) hroot hsite hops hbare hm) m.generator
  cases hdraw : t.drawOperators m.strategy m.likelihood t.binaries m.generator with
  | mk drawn after =>
    rw [hdraw] at hsub hnumber
    have hmade : t.replaceOperators m.strategy m.likelihood m.generator =
        (⟨drawn.map (t.operatorEdit m.strategy)⟩, after) := by
      rw [hmade]
      exact congrArg (fun d => (EditList.mk (d.1.map (t.operatorEdit m.strategy)), d.2)) hdraw
    have hsep := Target.separated_operatorEdits (s := m.strategy) hroot hsite hops hbare hsub
    have hspans : ∀ x ∈ drawn.map (t.operatorEdit m.strategy), ∃ c, t.site.Within c ∧
        x.span = c.span := by
      intro x hx
      obtain ⟨d, hd, rfl⟩ := List.mem_map.1 hx
      obtain ⟨hwithin, -, -, hparts⟩ :=
        Target.mem_binaries.1 (hsub.subset (List.mem_map_of_mem hd))
      exact ⟨_, .child hwithin (Site.mem_children_of_binaryParts? hparts).2.1, rfl⟩
    have hraw : e.handle.source.slice? e.span.start e.span.stop = some e.raw := by
      have hslice := (hfit t.site hsite).slice?
      rw [hspan, hsource] at hslice
      exact hslice
    obtain ⟨rebased, r, hrebase, happly, hedited⟩ :=
      Entity.exists_edited hsep hraw (by
        intro x hx
        obtain ⟨c, hc, hxc⟩ := hspans x hx
        rw [← hspan, hxc]
        exact hroot.start_le_and_stop_le hsite hc) (by
        intro x hx
        obtain ⟨c, hc, hxc⟩ := hspans x hx
        rw [← hsource]
        apply EditList.fits_of_fits
        rw [hxc]
        exact hfit c (hsite.trans hc))
    refine ⟨drawn, _, after, r, rfl, hmade, hsub, ?_, rfl, hsep, hedited, ?_⟩
    · intro d hd
      have hnew := List.getElem?_eq_getElem (hnumber d hd)
      refine ⟨_, hnew, ?_, Target.replaces_of_choice hsound (List.mem_of_getElem? hnew)⟩
      rw [Target.operatorEdit, hnew]
      rfl
    · rw [modify_replaceOperators hm ht, hmade, Entity.mutated?_eq_of_apply hrebase happly]
      split <;> rfl

/-- Both sums of a chain become remainders, the one in parentheses as well. -/
theorem modify_replaces_operators_chained :
    ∃ e ∈ Language.python.dialect.extract ⟨"f.py", chainedText, chainedTree⟩ none,
      (((ofStrategy .changeOperators .python 0).setLikelihood 1.0).modify e).1 =
          some ⟨"def f(): return (a % b) % c".toList, .changeOperators⟩ ∧
        ∃ (t : Target) (drawn : List ((Site × BinaryParts) × Nat)) (r : Text),
          e.target? = some t ∧ (drawn.map (·.1)).Sublist t.binaries ∧
          e.Edited (drawn.map (t.operatorEdit .changeOperators)) r ∧
          "def f(): return (a % b) % c".toList = Text.dedent r e.indent := by
  have hfound : ∃ e ∈ Language.python.dialect.extract ⟨"f.py", chainedText, chainedTree⟩ none,
      (((ofStrategy .changeOperators .python 0).setLikelihood 1.0).modify e).1 =
        some ⟨"def f(): return (a % b) % c".toList, .changeOperators⟩ := by
    simp only [modify, Strategy.run, Entity.mutated?_eq_changed?]
    decide +kernel
  have htree : chainedTree.Nested := by decide +kernel
  have hboundary : ∀ x ∈ (Site.top chainedTree).preorder, x.span.start < x.span.stop ∧
      chainedText.isBoundary x.span.start = true ∧ chainedText.isBoundary x.span.stop = true := by
    decide +kernel
  -- the operators are leaves with text
  have hops : ∀ x ∈ (Site.top chainedTree).preorder, ∀ parts ∈ x.binaryParts?,
      parts.operator.span.start < parts.operator.span.stop ∧ parts.operator.children = [] ∧
        parts.operator.binaryParts? = none := by
    decide +kernel
  obtain ⟨e, he, hw⟩ := hfound
  obtain ⟨s, kind, hs, -, rfl⟩ := Dialect.mem_extract _ _ he
  have htarget : (Language.python.dialect.build ⟨"f.py", chainedText, chainedTree⟩ kind s).target? =
      some ⟨s, chainedText, Language.python.dialect⟩ :=
    Dialect.target?_build htree hs (hboundary s (Site.mem_preorder_iff.2 hs)).1
  have hleaf : ∀ b ∈ (⟨s, chainedText, Language.python.dialect⟩ : Target).binaries,
      b.2.operator.span.start < b.2.operator.span.stop ∧ b.2.operator.children = [] ∧
        b.2.operator.binaryParts? = none := by
    intro b hb
    obtain ⟨hwithin, -, -, hparts⟩ := Target.mem_binaries.1 hb
    exact hops b.1 (Site.mem_preorder_iff.2 (hs.trans hwithin)) b.2 hparts
  obtain ⟨drawn, edits, after, r, -, -, hsub, -, hedits, -, hedited, hmade⟩ :=
    modify_replaces_operators ((ofStrategy .changeOperators .python 0).setLikelihood 1.0)
      (.inl rfl) _ _ htarget htree.tiled
      (fun x hx => (hboundary x (Site.mem_preorder_iff.2 hx)).2) (fun b hb => (hleaf b hb).1) (by
        intro a ha b hb hwithin
        obtain ⟨-, hnone, hparts⟩ := hleaf a ha
        rcases hwithin.eq_or_below with heq | ⟨c, hc, -⟩
        · have hbparts := (Target.mem_binaries.1 hb).2.2.2
          rw [heq, hparts] at hbparts
          cases hbparts
        · rw [hnone] at hc
          cases hc)
  rw [hmade] at hw
  refine ⟨_, he, ?_, _, drawn, r, htarget, hsub, hedits ▸ hedited, ?_⟩
  · rw [hmade]
    exact hw
  · dsimp only at hw
    split at hw
    · cases hw
    · exact (congrArg Mutant.code (Option.some.inj hw)).symm

end Modifier
end Mutagen
