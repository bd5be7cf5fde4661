import Mutagen.Proofs.Modifier.RemovedStatements
import Mutagen.Proofs.Modifier.ShuffledSlots

/-!
# Drawn removals

What can be drawn for removal: statements around nodes of some kinds, of which no two
clash, or some of the methods of a class. In a nested tree these are sites of the tree with
a block above them, and they can be removed together.
-/
namespace Mutagen

/-- What a filter of coin flips keeps is a part of the list. -/
theorem Draw.always_filterM_sublist {α : Type} (p : Float) (l : List α) :
    Draw.Always (·.Sublist l) (l.filterM fun _ => Draw.flip p) := by
  have haux : ∀ kept : List α, Draw.Always (fun out => ∃ part : List α, part.Sublist l ∧
      out = part.reverse ++ kept) (l.filterAuxM (fun _ => Draw.flip p) kept) := by
    induction l with
    | nil => exact fun kept => Draw.always_pure ⟨[], .slnil, rfl⟩
    | cons a l ih =>
      intro kept
      refine Draw.always_bind_of_forall fun taken => ?_
      cases taken with
      | false =>
        intro g
        obtain ⟨part, hpart, hout⟩ := ih kept g
        exact ⟨part, hpart.cons a, hout⟩
      | true =>
        intro g
        obtain ⟨part, hpart, hout⟩ := ih (a :: kept) g
        exact ⟨a :: part, hpart.cons_cons a, hout.trans (by simp)⟩
  refine Draw.always_bind (haux []) ?_
  rintro out ⟨part, hpart, rfl⟩
  exact Draw.always_pure (by simpa using hpart)

/-- The body of an entity is part of its node. -/
theorem Entity.within_body? {e : Entity} {t : Target} (ht : e.target? = some t) (body : Site)
    (hbody : t.body? = some body) : t.site.Within body := by
  obtain ⟨-, -, -, hdialect⟩ := of_target?_eq_some ht
  rw [Target.body?, hdialect] at hbody
  exact e.language.within_body? hbody

namespace Target

variable {t : Target} {removed : List Site} {root : Node}

/-- A strategy can draw these statements for removal. -/
def Draws (t : Target) (s : Strategy) (p : Float) (removed : List Site) : Prop :=
  (∃ kinds g, s.removedKinds? = some kinds ∧
    removed = (t.chooseStatements (kinds t.grammar) p g).1) ∨
  (s = .removeMethods ∧ ∃ methods g, t.methods? = some methods ∧
    removed = (drawMethods p methods g).1)

theorem methods?_eq_some {methods : List Site} (h : t.methods? = some methods) :
    ∃ body, t.body? = some body ∧ methods.Sublist body.children ∧
      ∀ s ∈ methods, s.named = true ∧ t.grammar.methodKinds.contains s.kind = true := by
  obtain ⟨body, hbody, hmethods⟩ := Option.bind_eq_some_iff.1 h
  cases hmethods
  refine ⟨body, hbody, List.filter_sublist.trans List.filter_sublist, ?_⟩
  intro s hs
  obtain ⟨hs, hkind⟩ := List.mem_filter.1 hs
  exact ⟨(List.mem_filter.1 hs).2, hkind⟩

theorem parent?_of_statementOf? {s statement : Site} (h : t.statementOf? s = some statement) :
    ∃ block, statement.parent? = some block := by
  obtain ⟨block, hblock, h⟩ := Option.bind_eq_some_iff.1 h
  split at h
  · cases h
    exact ⟨block, hblock⟩
  · cases h

/-- Children of one site can be removed together, when each has text of its own. -/
theorem removable_of_sublist_children (h : root.Tiled) {block : Site}
    (hblock : (Site.top root).Within block) (hsub : removed.Sublist block.children)
    (hfirm : ∀ x ∈ removed, (t.text x).Firm) : t.Removable removed where
  firm := hfirm
  clear := ((h.apart block (Site.mem_preorder_iff.2 hblock)).sublist hsub).imp .inl

section Drawn

variable (hsite : (Site.top root).Within t.site)
  (hbody : ∀ body, t.body? = some body → t.site.Within body) {s : Strategy} {p : Float}
  (hdraws : t.Draws s p removed)

include hsite hbody hdraws

/-- Drawn statements are sites of the tree, each in another site. -/
theorem within_of_draws {x : Site} (hx : x ∈ removed) :
    (Site.top root).Within x ∧ ∃ b : Site, x ∈ b.children := by
  rcases hdraws with ⟨kinds, g, -, rfl⟩ | ⟨-, methods, g, hmethods, rfl⟩
  · obtain ⟨c, hc, hstatement⟩ := (t.always_chooseStatements (kinds t.grammar) p g).2 x hx
    have hup := (statementOf?_eq_some hstatement).1
    have hwithin := Site.within_of_mem_ancestors
      (hsite.trans (Site.mem_descendantsOfKinds.1 hc).1) hup
    obtain ⟨b, hb⟩ := parent?_of_statementOf? hstatement
    exact ⟨hwithin, b, (hwithin.of_parent? hb).2⟩
  · obtain ⟨body, hsome, hsub, -⟩ := methods?_eq_some hmethods
    have hchild := hsub.subset ((Draw.always_filterM_sublist p methods g).subset hx)
    exact ⟨.child (hsite.trans (hbody body hsome)) hchild, body, hchild⟩

/-- Drawn statements can be removed together, when each has text of its own. -/
theorem removable_of_draws (h : root.Tiled) (hfirm : ∀ x ∈ removed, (t.text x).Firm) :
    t.Removable removed := by
  rcases hdraws with ⟨kinds, g, -, rfl⟩ | ⟨-, methods, g, hmethods, rfl⟩
  · exact removable_of_chosen hfirm
  · obtain ⟨body, hsome, hsub, -⟩ := methods?_eq_some hmethods
    exact removable_of_sublist_children h (hsite.trans (hbody body hsome))
      ((Draw.always_filterM_sublist p methods g).trans hsub) hfirm

end Drawn

/-! ## Calls of methods -/

/-- The edit that puts the null literal in the place of a call. -/
def nullEdit (t : Target) (call : Site) : Edit := ⟨call.span, t.grammar.nullLiteral.toList⟩

/-- The calls of the named methods, in document order. -/
def callsOf (t : Target) (names : List Text) : List Site :=
  (t.site.descendantsOfKinds t.grammar.callKinds).filter fun c => t.callsOneOf names (t.text c)

theorem neutralizeCalls_eq (t : Target) (names : List Text) (edits : EditList) :
    t.neutralizeCalls names edits = edits.offerAll ((t.callsOf names).map t.nullEdit) := by
  rw [EditList.offerAll, List.foldl_map, callsOf, List.foldl_filter]
  rfl

end Target
end Mutagen
