import Mutagen.Entity.Handle
import Mutagen.Proofs.Tree.Nesting

/-!
# Handles find their nodes

A handle remembers only the kind and the span of a node. In a nested tree the way
down to the smallest node around a span that is not empty goes through every node
around it, those with that span among them, and on the way up the first one of the
kind and the span is the one remembered.
-/
namespace Mutagen
namespace Site

/-! ## The way down -/

/-- The smallest site around a range. -/
def covering (range : Span) (s : Site) : Site := s.node.covering range s.above

/-- Whether a site ends too early to be around a range. -/
def endsBefore (range : Span) (s : Site) : Bool :=
  decide (s.span.stop < range.stop) ||
    if s.span.start = s.span.stop then decide (s.span.stop < range.start)
    else decide (s.span.stop ≤ range.start)

theorem coveringIn_eq (range : Span) (s : Site) (i : Nat) (ns : List Node) :
    Node.coveringIn range s.node s.above i ns =
      match (s.childrenFrom i ns).find? (!endsBefore range ·) with
      | none => s
      | some c => if range.start < c.span.start then s else c.covering range := by
  induction ns generalizing i with
  | nil => rfl
  | cons n ns ih =>
    rw [Node.coveringIn, childrenFrom, List.find?_cons]
    change (if endsBefore range (s.child i n) = true then _ else _) = _
    cases endsBefore range (s.child i n) with
    | true => exact ih (i + 1)
    | false => rfl

theorem covering_eq (range : Span) (s : Site) :
    s.covering range =
      match s.children.find? (!endsBefore range ·) with
      | none => s
      | some c => if range.start < c.span.start then s else c.covering range := by
  obtain ⟨⟨l, cs⟩, above⟩ := s
  rw [covering, Node.covering]
  exact coveringIn_eq range ⟨.mk l cs, above⟩ 0 cs

/-- The way down stays in the subtree. -/
theorem within_covering (range : Span) (s : Site) : s.Within (s.covering range) := by
  induction s using Site.induction with
  | step s ih =>
    rw [covering_eq]
    split
    · exact .self
    · rename_i c hfind
      split
      · exact .self
      · have hc := List.mem_of_find?_eq_some hfind
        exact (Within.child .self hc).trans (ih c hc)

/-- The way down to a range that is not empty goes through every site around the range. -/
theorem within_covering_of_contains {root : Node} (h : root.Tiled) {range : Span}
    (hne : range.start < range.stop) {s t : Site} (ht : (top root).Within t) (hs : t.Within s)
    (hrange : s.span.contains range = true) : s.Within (t.covering range) := by
  induction t using Site.induction with
  | step t ih =>
    rcases hs.eq_or_below with rfl | ⟨c, hc, hs⟩
    · exact within_covering _ _
    · -- the child on the way is the first that reaches far enough: those before it end
      -- where it starts
      have hcroot : (top root).Within c := .child ht hc
      have hin := h.start_le_and_stop_le hcroot hs
      have haround := Span.contains_iff.1 hrange
      have hfind : t.children.find? (!endsBefore range ·) = some c := by
        obtain ⟨before, after, hsplit⟩ := List.append_of_mem hc
        refine List.find?_eq_some_iff_append.2 ⟨?_, before, after, hsplit, ?_⟩
        · unfold endsBefore
          split <;> simp <;> omega
        · intro b hb
          have hpair := h.apart t (mem_preorder_iff.2 ht)
          rw [hsplit] at hpair
          have hle := (List.pairwise_append.1 hpair).2.2 b hb c List.mem_cons_self
          have hlt : b.span.stop < range.stop := by omega
          simp [endsBefore, hlt]
      rw [covering_eq, hfind]
      dsimp only
      rw [if_neg (by omega)]
      exact ih c hc hcroot hs

/-- The way down to a range stays around the range. -/
theorem contains_covering {range : Span} {s : Site} (hs : s.span.contains range = true) :
    (s.covering range).span.contains range = true := by
  induction s using Site.induction with
  | step s ih =>
    rw [covering_eq]
    split
    · exact hs
    · rename_i c hfind
      split
      · exact hs
      · rename_i hstart
        have hreach := List.find?_some hfind
        refine ih c (List.mem_of_find?_eq_some hfind) (Span.contains_iff.2 ⟨by omega, ?_⟩)
        simp only [endsBefore, Bool.not_eq_true', Bool.or_eq_false_iff, decide_eq_false_iff_not]
          at hreach
        omega

/-- A site of a tree around a range, with no child around it. -/
structure Smallest (root : Node) (range : Span) (s : Site) : Prop where
  within : (top root).Within s
  around : s.span.contains range = true
  below : ∀ c ∈ s.children, c.span.contains range = false

/-- The way down to a range that is not empty ends at the smallest site around it, and there is no
other. -/
theorem smallest_iff {root : Node} (h : root.Tiled) {range : Span}
    (hne : range.start < range.stop) (hroot : (top root).span.contains range = true) {s : Site} :
    Smallest root range s ↔ s = (top root).covering range := by
  constructor
  · intro hs
    have hdown := within_covering_of_contains h hne .self hs.within hs.around
    rcases hdown.eq_or_below with heq | ⟨c, hc, hbelow⟩
    · exact heq.symm
    · -- a child that the way down goes through is around all that is below it
      have hin := h.start_le_and_stop_le (.child hs.within hc) hbelow
      have haround := Span.contains_iff.1 (contains_covering hroot)
      have hcontains : c.span.contains range = true := Span.contains_iff.2 ⟨by omega, by omega⟩
      rw [hs.below c hc] at hcontains
      cases hcontains
  · rintro rfl
    have hwithin := within_covering range (top root)
    refine ⟨hwithin, contains_covering hroot, fun c hc => ?_⟩
    cases haround : c.span.contains range with
    | false => rfl
    | true =>
      -- the way down would have gone through the child
      have hbelow := within_covering_of_contains h hne .self (.child hwithin hc) haround
      exact absurd hbelow (not_within_of_mem_children hc)

/-! ## The way up -/

theorem ancestors_child (s : Site) (i : Nat) (n : Node) :
    (s.child i n).ancestors = s :: s.ancestors := rfl

/-- Going up from a site of a subtree leads through sites below its top, then to the top. -/
theorem Within.exists_ancestors {s t : Site} (h : s.Within t) :
    ∃ below, t :: t.ancestors = below ++ s :: s.ancestors ∧
      ∀ b ∈ below, ∃ c ∈ s.children, c.Within b := by
  induction h with
  | self => exact ⟨[], rfl, by simp⟩
  | @child t c ht hc ih =>
    obtain ⟨below, hup, hbelow⟩ := ih
    refine ⟨c :: below, ?_, List.forall_mem_cons.2 ⟨?_, hbelow⟩⟩
    · obtain ⟨i, n, -, rfl⟩ := exists_child_of_mem hc
      rw [ancestors_child, hup]
      rfl
    · rcases ht.eq_or_below with rfl | ⟨d, hd, ht⟩
      · exact ⟨c, hc, .self⟩
      · exact ⟨d, hd, .child ht hc⟩

/-- Going up from a site of a tree stays in the tree. -/
theorem within_of_mem_ancestors {root : Node} {s t : Site} (ht : (top root).Within t)
    (hs : s ∈ t :: t.ancestors) : (top root).Within s := by
  obtain ⟨below, hup, hbelow⟩ := ht.exists_ancestors
  rw [hup] at hs
  rcases List.mem_append.1 hs with hs | hs
  · obtain ⟨c, hc, hcs⟩ := hbelow s hs
    exact (Within.child .self hc).trans hcs
  · rw [List.mem_singleton.1 hs]
    exact .self

end Site

namespace Handle

/-- A handle whose span is a range is resolved by going up from the smallest site around it. -/
theorem resolve?_eq_find? {h : Handle} (hle : h.span.start ≤ h.span.stop) :
    h.resolve? = (((Site.top h.root).covering h.span) ::
      ((Site.top h.root).covering h.span).ancestors).find? fun t =>
        t.kind == h.kind && t.span == h.span :=
  if_pos hle

/-- What a handle finds is a node of its tree with the kind and the span that it remembers. -/
theorem resolve?_eq_some {h : Handle} {s : Site} (hs : h.resolve? = some s) :
    (Site.top h.root).Within s ∧ s.kind = h.kind ∧ s.span = h.span := by
  unfold resolve? at hs
  split at hs
  · have hmatch := List.find?_some hs
    simp only [Bool.and_eq_true, beq_iff_eq] at hmatch
    refine ⟨?_, hmatch.1, hmatch.2⟩
    exact Site.within_of_mem_ancestors (Site.within_covering h.span (Site.top h.root))
      (List.mem_of_find?_eq_some hs)
  · cases hs

/-- In a nested tree the handle of a site that is not empty finds this site. -/
theorem resolve?_ofSite {root : Node} (hroot : root.Nested) (source : Text) {s : Site}
    (hs : (Site.top root).Within s) (hne : s.span.start < s.span.stop) :
    (ofSite root source s).resolve? = some s := by
  have hcover := Site.within_covering_of_contains hroot.tiled hne .self hs
    (Span.contains_iff.2 ⟨Nat.le_refl _, Nat.le_refl _⟩)
  obtain ⟨below, hup, hbelow⟩ := hcover.exists_ancestors
  rw [resolve?_eq_find? (Nat.le_of_lt hne)]
  refine List.find?_eq_some_iff_append.2 ⟨by simp [ofSite], below, s.ancestors, hup, ?_⟩
  intro b hb
  obtain ⟨c, hc, hcb⟩ := hbelow b hb
  have hdiff := hroot.distinct s (Site.mem_preorder_iff.2 hs) c hc b (Site.mem_preorder_iff.2 hcb)
  cases hmatch : b.kind == s.kind && b.span == s.span with
  | false => exact congrArg not hmatch
  | true => exact absurd (by simpa using hmatch) hdiff

end Handle
end Mutagen
