import Mutagen.Proofs.Tree.DocumentOrder

/-!
# Tiled trees

The spans of a parsed tree are laid out like its text: children lie inside their
parent, from left to right, and share no byte. So of two sites in document order the
later one is in the subtree of the earlier one, or stands behind it.
-/
namespace Mutagen

theorem Span.contains_iff {s t : Span} :
    s.contains t = true ↔ s.start ≤ t.start ∧ t.stop ≤ s.stop := by
  simp [contains]

theorem Span.eq_of_start_of_stop {s t : Span} (hstart : s.start = t.start)
    (hstop : s.stop = t.stop) : s = t := by
  cases s with
  | mk start stop =>
    cases hstart
    cases hstop
    rfl

/-- Every span of a tree is a range, and children lie inside their parent, from left to right and
without sharing a byte. -/
structure Node.Tiled (root : Node) : Prop where
  ordered : ∀ s ∈ (Site.top root).preorder, s.span.start ≤ s.span.stop
  inside : ∀ s ∈ (Site.top root).preorder, ∀ c ∈ s.children, s.span.contains c.span = true
  apart : ∀ s ∈ (Site.top root).preorder,
    s.children.Pairwise fun c d => c.span.stop ≤ d.span.start

instance (root : Node) : Decidable root.Tiled :=
  decidable_of_iff
    ((∀ s ∈ (Site.top root).preorder, s.span.start ≤ s.span.stop) ∧
      (∀ s ∈ (Site.top root).preorder, ∀ c ∈ s.children, s.span.contains c.span = true) ∧
      ∀ s ∈ (Site.top root).preorder, s.children.Pairwise fun c d => c.span.stop ≤ d.span.start)
    ⟨fun h => ⟨h.1, h.2.1, h.2.2⟩, fun h => ⟨h.1, h.2, h.3⟩⟩

/-- Two items of a list stand in it in one order or the other. -/
theorem eq_or_rel_of_pairwise {α : Type} {R : α → α → Prop} {l : List α} (h : l.Pairwise R)
    {a b : α} (ha : a ∈ l) (hb : b ∈ l) : a = b ∨ R a b ∨ R b a := by
  induction l with
  | nil => cases ha
  | cons x l ih =>
    obtain ⟨hx, hl⟩ := List.pairwise_cons.1 h
    rcases List.mem_cons.1 ha with rfl | hal
    · rcases List.mem_cons.1 hb with rfl | hbl
      · exact .inl rfl
      · exact .inr (.inl (hx b hbl))
    · rcases List.mem_cons.1 hb with rfl | hbl
      · exact .inr (.inr (hx a hal))
      · exact ih hl hal hbl

/-! ## Up and down -/

namespace Site

theorem eq_of_mem_children {s t c : Site} (hs : c ∈ s.children) (ht : c ∈ t.children) : s = t := by
  obtain ⟨i, n, -, rfl⟩ := exists_child_of_mem hs
  obtain ⟨j, m, -, hc⟩ := exists_child_of_mem ht
  have hparent : some s = some t := by
    rw [← parent?_child s i n, hc, parent?_child]
  exact Option.some.inj hparent

theorem parent?_of_mem_children {s c : Site} (h : c ∈ s.children) : c.parent? = some s := by
  obtain ⟨i, n, -, rfl⟩ := exists_child_of_mem h
  exact parent?_child s i n

/-- The parent of a site in a tree is in the tree and has the site as a child. -/
theorem Within.of_parent? {root : Node} {s b : Site} (hs : (top root).Within s)
    (h : s.parent? = some b) : (top root).Within b ∧ s ∈ b.children := by
  cases hs with
  | self => cases h
  | child ht hc =>
    rw [parent?_of_mem_children hc] at h
    cases h
    exact ⟨ht, hc⟩

/-- Two sites of one tree with the same address are the same site. -/
theorem eq_of_same {root : Node} {s t : Site} (hs : (top root).Within s)
    (ht : (top root).Within t) (h : s.same t = true) : s = t := by
  have hpath : s.path = t.path := congrArg List.reverse (beq_iff_eq.1 h)
  rcases eq_or_rel_of_pairwise (top root).preorder_pairwise (mem_preorder_iff.2 hs)
    (mem_preorder_iff.2 ht) with heq | hlt | hgt
  · exact heq
  · rw [hpath] at hlt
    exact absurd hlt (List.lt_irrefl _)
  · rw [hpath] at hgt
    exact absurd hgt (List.lt_irrefl _)

theorem mem_children_of_same {root : Node} {s b : Site} (hs : (top root).Within s)
    (hb : (top root).Within b) (h : s.parent?.any (·.same b) = true) : s ∈ b.children := by
  obtain ⟨p, hp, hsame⟩ := (Option.any_eq_true _ _).1 h
  obtain ⟨hpwithin, hchild⟩ := hs.of_parent? hp
  rw [← eq_of_same hpwithin hb hsame]
  exact hchild

theorem nodup_children (s : Site) : s.children.Nodup := by
  refine (s.childrenFrom_pairwise 0 _).imp ?_
  rintro c d ⟨j, k, hjk, hc, hd⟩ rfl
  have hlast := List.append_cancel_left (hc.symm.trans hd)
  cases hlast
  exact Nat.lt_irrefl j hjk

/-- The sites above a child are those above its parent. -/
theorem Within.eq_or_above {s t c : Site} (h : s.Within c) (hc : c ∈ t.children) :
    s = c ∨ s.Within t := by
  cases h with
  | self => exact .inl rfl
  | child ht hc' =>
    rw [eq_of_mem_children hc hc']
    exact .inr ht

theorem not_within_of_mem_children {s c : Site} (h : c ∈ s.children) : ¬ c.Within s := by
  intro hwithin
  obtain ⟨i, n, -, rfl⟩ := exists_child_of_mem h
  obtain ⟨p, hp⟩ := hwithin.exists_path
  have hlength := congrArg List.length hp
  simp only [path_child, List.length_append, List.length_singleton] at hlength
  omega

theorem Within.antisymm {s t : Site} (hst : s.Within t) (hts : t.Within s) : s = t := by
  cases hst with
  | self => rfl
  | child hsu ht => exact absurd (hts.trans hsu) (not_within_of_mem_children ht)

end Site

/-- `s` stands before `t` in a tree, and `t` is in the subtree of `s` or behind it. -/
structure Site.Precedes (s t : Site) : Prop where
  path_lt : s.path < t.path
  within_or_behind : s.Within t ∨ s.span.stop ≤ t.span.start

theorem Site.Precedes.ne {s t : Site} (h : s.Precedes t) : t ≠ s := by
  rintro rfl
  exact List.lt_irrefl _ h.path_lt

/-! ## Spans in document order -/

namespace Node.Tiled

variable {root : Node} (h : root.Tiled)

include h

theorem start_le_stop {s : Site} (hs : (Site.top root).Within s) : s.span.start ≤ s.span.stop :=
  h.ordered s (Site.mem_preorder_iff.2 hs)

/-- The sites of a subtree lie inside its top. -/
theorem start_le_and_stop_le {s t : Site} (hs : (Site.top root).Within s) (ht : s.Within t) :
    s.span.start ≤ t.span.start ∧ t.span.stop ≤ s.span.stop := by
  induction ht with
  | self => exact ⟨Nat.le_refl _, Nat.le_refl _⟩
  | child ht hc ih =>
    have hin := Span.contains_iff.1 (h.inside _ (Site.mem_preorder_iff.2 (hs.trans ht)) _ hc)
    omega

/-- Below an empty span all spans are the same. -/
theorem span_eq_of_empty {s t : Site} (hs : (Site.top root).Within s) (ht : s.Within t)
    (hempty : s.span.stop ≤ s.span.start) : t.span = s.span := by
  have hin := h.start_le_and_stop_le hs ht
  have hs' := h.start_le_stop hs
  have ht' := h.start_le_stop (hs.trans ht)
  exact Span.eq_of_start_of_stop (by omega) (by omega)

/-- Two children of a site share no byte. -/
theorem children_apart {s c d : Site} (hs : (Site.top root).Within s) (hc : c ∈ s.children)
    (hd : d ∈ s.children) :
    c = d ∨ c.span.stop ≤ d.span.start ∨ d.span.stop ≤ c.span.start :=
  eq_or_rel_of_pairwise (h.apart s (Site.mem_preorder_iff.2 hs)) hc hd

/-- In document order a site is in the subtree of an earlier one, or behind it. -/
theorem preorder_within_or_behind {s : Site} (hs : (Site.top root).Within s) :
    s.preorder.Pairwise fun a b => a.Within b ∨ a.span.stop ≤ b.span.start := by
  induction s using Site.induction with
  | step s ih =>
    rw [Site.preorder_eq]
    apply List.pairwise_cons.2
    constructor
    · intro t ht
      obtain ⟨c, hc, ht⟩ := List.mem_flatMap.1 ht
      exact .inl ((Site.Within.child .self hc).trans (Site.mem_preorder_iff.1 ht))
    · apply List.pairwise_flatMap.2
      constructor
      · intro c hc
        exact ih c hc (.child hs hc)
      · -- the subtrees of two children stand behind each other as the children do
        apply (h.apart s (Site.mem_preorder_iff.2 hs)).imp_of_mem
        intro c d hc hd hcd a ha b hb
        have hca := h.start_le_and_stop_le (.child hs hc) (Site.mem_preorder_iff.1 ha)
        have hdb := h.start_le_and_stop_le (.child hs hd) (Site.mem_preorder_iff.1 hb)
        exact .inr (by omega)

theorem descendantsOfKinds_precedes {s : Site} (hs : (Site.top root).Within s)
    (kinds : List String) : (s.descendantsOfKinds kinds).Pairwise Site.Precedes := by
  rw [Site.descendantsOfKinds_eq_filter]
  have hboth : s.preorder.Pairwise Site.Precedes :=
    (s.preorder_pairwise.and (h.preorder_within_or_behind hs)).imp fun hab => ⟨hab.1, hab.2⟩
  exact hboth.sublist List.filter_sublist

/-- Of two sites one is in the subtree of the other, or they share no byte. -/
theorem within_or_apart {s a b : Site} (hs : (Site.top root).Within s) (ha : s.Within a)
    (hb : s.Within b) :
    a.Within b ∨ b.Within a ∨ a.span.stop ≤ b.span.start ∨ b.span.stop ≤ a.span.start := by
  rcases eq_or_rel_of_pairwise (h.preorder_within_or_behind hs) (Site.mem_preorder_iff.2 ha)
    (Site.mem_preorder_iff.2 hb) with rfl | (hab | hab) | (hba | hba)
  · exact .inl .self
  · exact .inl hab
  · exact .inr (.inr (.inl hab))
  · exact .inr (.inl hba)
  · exact .inr (.inr (.inr hba))

end Node.Tiled
end Mutagen
