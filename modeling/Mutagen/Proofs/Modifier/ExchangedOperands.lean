import Mutagen.Proofs.Edit.Selection
import Mutagen.Proofs.Entity.Edited
import Mutagen.Proofs.Modifier.Eligibility

/-!
# Exchanged operands

The exchange of operands takes some binary expressions and writes each operand in the
place of the other, with the comparison turned around where it is one by order. An
expression is taken whole or not at all, and none that stands in an operand of another.
A comparison and its converse have the same size, so the size of the text is kept.
-/
namespace Mutagen

/-! ## The parts of a binary expression -/

namespace Site

theorem field_of_mem_childrenByField {s c : Site} {field : String}
    (h : c ∈ s.childrenByField field) : c.field = some field := by
  simpa using (List.mem_filter.1 h).2

theorem field_of_childByField? {s c : Site} {field : String}
    (h : s.childByField? field = some c) : c.field = some field :=
  field_of_mem_childrenByField (mem_childrenByField_of_childByField? h)

theorem field_of_operator? {s op : Site} (h : s.operator? = some op) :
    op.field = some "operator" ∨ op.field = some "operators" := by
  unfold operator? at h
  split at h
  · rename_i c hc
    cases h
    exact .inl (field_of_childByField? hc)
  · split at h
    · rename_i hc
      cases h
      have hmem : op ∈ s.childrenByField "operators" := by simp [hc]
      exact .inr (field_of_mem_childrenByField hmem)
    · cases h

/-- The operands of an expression are other children than its operator. -/
theorem operands_ne_operator {s : Site} {parts : BinaryParts} (h : s.binaryParts? = some parts) :
    parts.left ≠ parts.operator ∧ parts.right ≠ parts.operator := by
  obtain ⟨op, hop, h⟩ := Option.bind_eq_some_iff.1 h
  have hfield := field_of_operator? hop
  split at h
  · rename_i left right hleft hright
    cases h
    have hleftField := field_of_childByField? hleft
    have hrightField := field_of_childByField? hright
    have hneLeft : left ≠ op := by
      rintro rfl
      simp [hleftField] at hfield
    have hneRight : right ≠ op := by
      rintro rfl
      simp [hrightField] at hfield
    exact ⟨hneLeft, hneRight⟩
  · split at h
    · rename_i left right hboth
      cases h
      have hother : ∀ c ∈ [left, right], c ≠ op := by
        rintro c hc rfl
        rw [← hboth] at hc
        have hkept := (List.mem_filter.1 hc).2
        simp [same] at hkept
      exact ⟨hother left (by simp), hother right (by simp)⟩
    · cases h

end Site

/-- Whether a site lies in an operand. -/
def BinaryParts.Holds (parts : BinaryParts) (x : Site) : Prop :=
  parts.left.span.contains x.span = true ∨ parts.right.span.contains x.span = true

/-- A comparison is turned around within its place. -/
theorem size_of_converse? {op op' : String} (h : converse? op = some op') :
    Text.size op'.toList = Text.size op.toList := by
  unfold converse? at h
  split at h <;> cases h <;> decide

/-! ## Exchanges -/

namespace Target

variable {t : Target} {a b : Site × BinaryParts} {root : Node}

theorem binaries_precede (h : root.Tiled) (hsite : (Site.top root).Within t.site) :
    t.binaries.Pairwise fun a b => a.1.Precedes b.1 := by
  apply (h.descendantsOfKinds_precedes hsite _).filterMap
  intro s s' hss' b hb b' hb'
  obtain ⟨parts, -, rfl⟩ := Option.map_eq_some_iff.1 hb
  obtain ⟨parts', -, rfl⟩ := Option.map_eq_some_iff.1 hb'
  exact hss'

/-- The edits of an exchange are on the operands, and on the operator of an ordering. -/
theorem span_of_mem_swapEdits {parts : BinaryParts} {x : Edit} (hx : x ∈ t.swapEdits parts) :
    x.span = parts.left.span ∨ x.span = parts.right.span ∨
      x.span = parts.operator.span ∧ (converse? (t.operatorOf parts)).isSome = true := by
  rw [swapEdits] at hx
  rcases List.mem_append.1 hx with hx | hx
  · rcases List.mem_cons.1 hx with rfl | hx
    · exact .inl rfl
    · rw [List.mem_singleton.1 hx]
      exact .inr (.inl rfl)
  · cases hop : converse? (t.operatorOf parts) with
    | none => simp [hop] at hx
    | some op =>
      rw [hop] at hx
      rw [List.mem_singleton.1 hx]
      exact .inr (.inr ⟨rfl, rfl⟩)

theorem exists_child_of_mem_swapEdits (hb : b ∈ t.binaries) {x : Edit}
    (hx : x ∈ t.swapEdits b.2) : ∃ c ∈ b.1.children, x.span = c.span := by
  obtain ⟨hleft, hop, hright⟩ := Site.mem_children_of_binaryParts? (mem_binaries.1 hb).2.2.2
  rcases span_of_mem_swapEdits hx with hx | hx | ⟨hx, -⟩
  · exact ⟨b.2.left, hleft, hx⟩
  · exact ⟨b.2.right, hright, hx⟩
  · exact ⟨b.2.operator, hop, hx⟩

theorem exists_swapEdits_eq (t : Target) (parts : BinaryParts) :
    ∃ rest, t.swapEdits parts = ⟨parts.left.span, t.text parts.right⟩ ::
      ⟨parts.right.span, t.text parts.left⟩ :: rest :=
  ⟨_, rfl⟩

/-- An exchange writes as many bytes as it takes away. -/
theorem size_swapEdits (t : Target) (parts : BinaryParts) :
    ((t.swapEdits parts).map fun x => x.replacement.size).sum =
      ((t.swapEdits parts).map fun x => (x.span.text t.source).size).sum := by
  rw [swapEdits]
  cases hop : converse? (t.operatorOf parts) with
  | none =>
    simp only [List.append_nil, List.map_cons, List.map_nil, List.sum_cons, List.sum_nil]
    change (t.text parts.right).size + ((t.text parts.left).size + 0) =
      (t.text parts.left).size + ((t.text parts.right).size + 0)
    omega
  | some op =>
    have hsize : Text.size op.toList = (t.text parts.operator).size := by
      rw [size_of_converse? hop, operatorOf, String.toList_ofList]
    simp only [List.cons_append, List.nil_append, List.map_cons, List.map_nil, List.sum_cons,
      List.sum_nil, hsize]
    change (t.text parts.right).size + ((t.text parts.left).size +
      ((t.text parts.operator).size + 0)) = (t.text parts.left).size +
      ((t.text parts.right).size + ((t.text parts.operator).size + 0))
    omega

/-! ## The loop -/

theorem returns_swapOperands_selects {p : Float} (h : root.Tiled)
    (hsite : (Site.top root).Within t.site) :
    Attempt.Returns (fun edits => ∃ taken,
      EditList.Selects (fun b => t.swapEdits b.2) (fun a b => a.1.Precedes b.1) False
        t.binaries edits taken) (t.swapOperands p) := by
  apply Attempt.returns_foldlM_selects (binaries_precede h hsite)
  intro b hb done edits taken hearlier hdone
  have hproper : t.swapEdits b.2 ≠ [] := by
    obtain ⟨rest, hrest⟩ := t.exists_swapEdits_eq b.2
    simp [hrest]
  unfold swapStep
  dsimp only
  split
  · exact Attempt.returns_pure ⟨taken, hdone.skip False.elim⟩
  · refine Attempt.returns_bind_of_forall fun flipped => ?_
    split
    · refine (Attempt.returns_pushAll hdone.separated (t.swapEdits b.2)).imp ?_
      rintro edits' ⟨hlist, hsep⟩
      exact ⟨taken ++ [b], hdone.take hproper hlist hsep⟩
    · exact Attempt.returns_pure ⟨taken, hdone.skip False.elim⟩

section Selected

variable {greedy : Prop} {edits : EditList} {taken : List (Site × BinaryParts)}
  (htaken : EditList.Selects (fun b => t.swapEdits b.2) (fun a b => a.1.Precedes b.1) greedy
    t.binaries edits taken)
  (h : root.Tiled) (hsite : (Site.top root).Within t.site)

include htaken h hsite

/-- No edit of an expression that was taken is around another one. -/
theorem not_contains_of_selects (ha : a ∈ taken) (hb : b ∈ taken) (hne : a.1 ≠ b.1) {x : Edit}
    (hx : x ∈ t.swapEdits a.2) : ¬ x.span.contains b.1.span = true := by
  have hbmem := htaken.sublist.subset hb
  have hbwithin := hsite.trans (mem_binaries.1 hbmem).1
  have hpart : ∀ y ∈ t.swapEdits b.2,
      b.1.span.start ≤ y.span.start ∧ y.span.start ≤ y.span.stop ∧
        y.span.stop ≤ b.1.span.stop := by
    intro y hy
    obtain ⟨c, hc, hspan⟩ := exists_child_of_mem_swapEdits hbmem hy
    have hin := h.start_le_and_stop_le hbwithin (.child .self hc)
    have hord := h.start_le_stop (.child hbwithin hc)
    rw [hspan]
    omega
  have hapart : ∀ y ∈ t.swapEdits b.2, x.span.Apart y.span := by
    intro y hy
    rcases eq_or_rel_of_pairwise htaken.apart ha hb with rfl | hab | hba
    · exact absurd rfl hne
    · exact hab x hx y hy
    · exact (hba y hy x hx).symm
  have hself := htaken.apart_self hb
  obtain ⟨rest, hrest⟩ := t.exists_swapEdits_eq b.2
  simp only [hrest, List.forall_mem_cons, List.pairwise_cons] at hpart hapart hself
  exact Span.not_contains_of_apart hpart.1 hpart.2.1 hself.1.1 hapart.1 hapart.2.1

theorem not_holds_of_selects :
    ∀ a ∈ taken, ∀ b ∈ taken, a.1 ≠ b.1 → ¬ a.2.Holds b.1 := by
  intro a ha b hb hne
  obtain ⟨rest, hrest⟩ := t.exists_swapEdits_eq a.2
  have hout : ∀ x ∈ t.swapEdits a.2, ¬ x.span.contains b.1.span = true :=
    fun x hx => not_contains_of_selects htaken h hsite ha hb hne hx
  simp only [hrest, List.forall_mem_cons] at hout
  rintro (hleft | hright)
  · exact hout.1 hleft
  · exact hout.2.1 hright

/-- An operator that is no ordering is clear of all edits, unless an expression inside it was
taken. -/
theorem operator_clear_of_selects (hb : b ∈ taken)
    (hop : converse? (t.operatorOf b.2) = none) (hnone : ∀ a ∈ taken, ¬ b.2.operator.Within a.1) :
    ∀ x ∈ taken.flatMap (fun a => t.swapEdits a.2),
      x.span.stop ≤ b.2.operator.span.start ∨ b.2.operator.span.stop ≤ x.span.start := by
  intro x hx
  obtain ⟨a, ha, hx⟩ := List.mem_flatMap.1 hx
  have hamem := htaken.sublist.subset ha
  obtain ⟨hawithin, -, -, haparts⟩ := mem_binaries.1 hamem
  obtain ⟨hbwithin, -, -, hbparts⟩ := mem_binaries.1 (htaken.sublist.subset hb)
  obtain ⟨hleft, hoperator, hright⟩ := Site.mem_children_of_binaryParts? hbparts
  have haroot := hsite.trans hawithin
  have hbroot := hsite.trans hbwithin
  by_cases heq : a.1 = b.1
  · -- the operands of an expression are beside its operator
    have hparts : a.2 = b.2 := by
      rw [heq, hbparts] at haparts
      exact (Option.some.inj haparts).symm
    obtain ⟨hneLeft, hneRight⟩ := Site.operands_ne_operator hbparts
    rw [hparts] at hx
    rcases span_of_mem_swapEdits hx with hx | hx | ⟨-, hsome⟩
    · rw [hx]
      exact (h.children_apart hbroot hleft hoperator).resolve_left hneLeft
    · rw [hx]
      exact (h.children_apart hbroot hright hoperator).resolve_left hneRight
    · rw [hop] at hsome
      cases hsome
  · obtain ⟨c, hc, hspan⟩ := exists_child_of_mem_swapEdits hamem hx
    have hcin := h.start_le_and_stop_le haroot (.child .self hc)
    have hopin := h.start_le_and_stop_le hbroot (.child .self hoperator)
    rcases h.within_or_apart .self haroot (.child hbroot hoperator) with hup | hdown | hapart
    · have hup : a.1.Within b.1 := by
        rcases hup.eq_or_above hoperator with hsame | hup
        · exact absurd (hsame ▸ .self) (hnone a ha)
        · exact hup
      rcases hup.eq_or_below with hsame | ⟨d, hd, hbelow⟩
      · exact absurd hsame.symm heq
      · -- the child of a with b in it is not the one that the edit is on
        have hdin := h.start_le_and_stop_le (.child haroot hd) hbelow
        rcases h.children_apart haroot hd hc with hdc | hbefore | hbehind
        · have haround : x.span.contains b.1.span = true := by
            rw [hspan, ← hdc]
            exact Span.contains_iff.2 hdin
          exact absurd haround (not_contains_of_selects htaken h hsite ha hb heq hx)
        · rw [hspan]
          omega
        · rw [hspan]
          omega
    · exact absurd hdown (hnone a ha)
    · rw [hspan]
      omega

end Selected
end Target

/-! ## Modifiers -/

namespace Modifier

/-- The exchange of operands is whole or not made at all. What it shows of an entity is, before it
is dedented, the text with the operands of some binary expressions exchanged, none of them in an
operand of another, and the orderings among their operators turned around. Other operators are
clear of all edits, and the size is kept. -/
theorem modify_exchanges_operands (m : Modifier) (hm : m.strategy = .swapOperands) (e : Entity)
    (hroot : e.handle.root.Tiled) (w : Mutant) (hw : (m.modify e).1 = some w) :
    ∃ t taken r, e.target? = some t ∧ taken ≠ [] ∧ taken.Sublist t.binaries ∧
      taken.Pairwise (fun a b => a.1.path < b.1.path) ∧
      (∀ a ∈ taken, ∀ b ∈ taken, a.1 ≠ b.1 → ¬ a.2.Holds b.1) ∧
      w.code = Text.dedent r e.indent ∧
      e.Edited (taken.flatMap fun b => t.swapEdits b.2) r ∧ r.size = e.raw.size ∧
      ∀ b ∈ taken, converse? (t.operatorOf b.2) = none →
        (∀ a ∈ taken, ¬ b.2.operator.Within a.1) →
        ∀ x ∈ taken.flatMap (fun a => t.swapEdits a.2),
          x.span.stop ≤ b.2.operator.span.start ∨ b.2.operator.span.stop ≤ x.span.start := by
  obtain ⟨t, edits, ht, ⟨taken, htaken⟩, hcode⟩ := exists_edits_of_modify (by rw [hm]; rfl)
    (fun t ht => t.returns_swapOperands_selects hroot (Entity.of_target?_eq_some ht).1) hw
  obtain ⟨hsite, hspan, hsource, -⟩ := Entity.of_target?_eq_some ht
  have htwo : ∀ b : Site × BinaryParts, t.swapEdits b.2 ≠ [] → 2 ≤ (t.swapEdits b.2).length := by
    intro b _
    obtain ⟨rest, hrest⟩ := t.exists_swapEdits_eq b.2
    simp [hrest]
  have hstop : ∀ b ∈ t.binaries, ∀ x ∈ t.swapEdits b.2, x.span.stop ≤ e.span.stop := by
    intro b hb x hx
    obtain ⟨c, hc, hxc⟩ := Target.exists_child_of_mem_swapEdits hb hx
    have hin := hroot.start_le_and_stop_le hsite (.child (Target.mem_binaries.1 hb).1 hc)
    rw [hxc, ← hspan]
    exact hin.2
  obtain ⟨hsome, r, hr, hedited⟩ := Entity.edited_of_selects htaken htwo hstop hcode
  have hsize : r.size = e.raw.size := by
    apply hedited.size_eq
    rw [← hsource]
    simp only [List.flatMap_def, List.map_flatten, List.map_map, List.sum_flatten]
    congr 1
    exact List.map_congr_left fun b _ => t.size_swapEdits b.2
  have hpath : taken.Pairwise fun a b => a.1.path < b.1.path :=
    ((Target.binaries_precede hroot hsite).sublist htaken.sublist).imp fun hab => hab.path_lt
  exact ⟨t, taken, r, ht, hsome, htaken.sublist, hpath,
    Target.not_holds_of_selects htaken hroot hsite, hr, hedited, hsize,
    fun b hb hop hnone => Target.operator_clear_of_selects htaken hroot hsite hb hop hnone⟩

/-- A function that compares two names. -/
def comparingText : Text := "def f(): return a < b".toList

/-- The tree of this function, where the operator alone has a field. -/
def comparingTree : Node :=
  .ofSpan "module" true none 0 21 [
    .ofSpan "function_definition" true none 0 21 [
      .ofSpan "identifier" true (some "name") 4 5 [],
      .ofSpan "block" true (some "body") 9 21 [
        .ofSpan "return_statement" true none 9 21 [
          .ofSpan "comparison_operator" true none 16 21 [
            .ofSpan "identifier" true none 16 17 [],
            .ofSpan "<" false (some "operators") 18 19 [],
            .ofSpan "identifier" true none 20 21 []]]]]]

/-- The names change places, and the comparison is turned around. -/
theorem modify_exchanges_operands_comparing :
    ∃ e ∈ Language.python.dialect.extract ⟨"f.py", comparingText, comparingTree⟩ none,
      (((ofStrategy .swapOperands .python 0).setLikelihood 1.0).modify e).1 =
          some ⟨"def f(): return b > a".toList, .swapOperands⟩ ∧
        ∃ t taken r, e.target? = some t ∧ taken ≠ [] ∧ taken.Sublist t.binaries ∧
          "def f(): return b > a".toList = Text.dedent r e.indent ∧
          e.Edited (taken.flatMap fun b => t.swapEdits b.2) r ∧ r.size = e.raw.size := by
  have hfound : ∃ e ∈ Language.python.dialect.extract ⟨"f.py", comparingText, comparingTree⟩ none,
      (((ofStrategy .swapOperands .python 0).setLikelihood 1.0).modify e).1 =
        some ⟨"def f(): return b > a".toList, .swapOperands⟩ := by
    simp only [modify, Strategy.run, Entity.mutated?_eq_changed?]
    decide +kernel
  obtain ⟨e, he, hw⟩ := hfound
  have hroot : e.handle.root.Tiled := by
    rw [(Entity.handle_of_mem_extract he).1]
    decide +kernel
  obtain ⟨t, taken, r, ht, hsome, hsub, -, -, hr, hedited, hsize, -⟩ :=
    modify_exchanges_operands _ rfl e hroot _ hw
  exact ⟨e, he, hw, t, taken, r, ht, hsome, hsub, hr, hedited, hsize⟩

end Modifier
end Mutagen
