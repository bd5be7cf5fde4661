import Mutagen.Proofs.Edit.Separation
import Mutagen.Proofs.Random.Draw

/-!
# Edits of selected items

Many mutations are loops. They go through the items of a list, each with edits of its
own, and make the edits of an item unless they clash with edits made before or a flip
decides against it. What such a loop has made are the edits of some of the items, all
the edits of each. If no flip decides against an item, the items left out are those
that clash with one taken earlier.
-/
namespace Mutagen

variable {α : Type}

/-- A span that clashes with neither of two parts of another one is not around it: it would leave
both parts its end only, and they start at two places. -/
theorem Span.not_contains_of_apart {around s x y : Span}
    (hx : s.start ≤ x.start ∧ x.start ≤ x.stop ∧ x.stop ≤ s.stop)
    (hy : s.start ≤ y.start ∧ y.start ≤ y.stop ∧ y.stop ≤ s.stop)
    (hxy : x.Apart y) (hax : around.Apart x) (hay : around.Apart y) :
    ¬ around.contains s = true := by
  simp only [contains, Bool.and_eq_true, decide_eq_true_eq]
  unfold Apart Before at hxy hax hay
  omega

namespace EditList

theorem overlaps_eq_true_iff {l : EditList} {s : Span} :
    l.overlaps s = true ↔ ∃ x ∈ l.toList, x.span.overlaps s = true :=
  List.any_eq_true

/-- A range that clashes with no edit can be pushed. -/
theorem Separated.push_of_clear {l : EditList} {e : Edit} (hl : l.Separated)
    (he : e.span.start ≤ e.span.stop) (hclear : l.overlaps e.span = false) :
    l.push e = .ok ⟨l.toList ++ [e]⟩ := by
  have hapart : ∀ x ∈ l.toList, x.span.Apart e.span := by
    intro x hx
    have hx' : x.span.overlaps e.span = false := by
      simpa using List.any_eq_false.1 hclear x hx
    exact (Span.overlaps_eq_false_iff (hl.ordered x hx) he).1 hx'
  exact (push_eq_ok_iff hl).2 ⟨rfl, separated_append_singleton.2 ⟨hl, he, hapart⟩⟩

/-! ## Offers -/

/-- The list after edits were offered to it in turn. -/
def offerAll (l : EditList) (es : List Edit) : EditList := es.foldl offer l

theorem Separated.offerAll {l : EditList} (hl : l.Separated) (es : List Edit) :
    (l.offerAll es).Separated := by
  induction es generalizing l with
  | nil => exact hl
  | cons e es ih => exact ih (hl.offer e)

/-- Some of the offered edits are put behind those that were there. -/
theorem exists_kept_of_offerAll (l : EditList) (es : List Edit) :
    ∃ kept, kept.Sublist es ∧ (l.offerAll es).toList = l.toList ++ kept := by
  induction es generalizing l with
  | nil => exact ⟨[], .slnil, by simp [offerAll]⟩
  | cons e es ih =>
    obtain ⟨kept, hsub, hlist⟩ := ih (l.offer e)
    change (l.offerAll (e :: es)).toList = _ at hlist
    rcases l.offer_eq_or e with hsame | hmore
    · rw [hsame] at hlist
      exact ⟨kept, hsub.cons e, hlist⟩
    · rw [hmore, List.append_assoc] at hlist
      exact ⟨e :: kept, hsub.cons_cons e, hlist⟩

theorem mem_offer_or_clash {l : EditList} {e : Edit} (he : e.span.start ≤ e.span.stop) :
    e ∈ (l.offer e).toList ∨ ∃ x ∈ l.toList, x.span.overlaps e.span = true := by
  cases hfind : l.toList.find? (·.span.overlaps e.span) with
  | some x => exact .inr ⟨x, List.mem_of_find?_eq_some hfind, by simpa using List.find?_some hfind⟩
  | none =>
    left
    rw [offer, push, if_neg (by omega), hfind]
    exact List.mem_append_right _ List.mem_cons_self

/-- A refused edit clashes with one in the list that was there before, or was offered earlier. -/
theorem mem_offerAll_or_clash {l : EditList} {earlier later : List Edit} {e : Edit}
    (he : e.span.start ≤ e.span.stop) :
    e ∈ (l.offerAll (earlier ++ e :: later)).toList ∨
      ∃ x ∈ (l.offerAll (earlier ++ e :: later)).toList,
        (x ∈ l.toList ∨ x ∈ earlier) ∧ x.span.overlaps e.span = true := by
  have hturn : l.offerAll (earlier ++ e :: later) =
      ((l.offerAll earlier).offer e).offerAll later := by
    simp [EditList.offerAll]
  obtain ⟨kept, -, hlater⟩ := exists_kept_of_offerAll ((l.offerAll earlier).offer e) later
  rw [hturn, hlater]
  rcases mem_offer_or_clash (l := l.offerAll earlier) he with hmem | ⟨x, hx, hclash⟩
  · exact .inl (List.mem_append_left _ hmem)
  · obtain ⟨kept', hsub, hearlier⟩ := exists_kept_of_offerAll l earlier
    have hstays : x ∈ ((l.offerAll earlier).offer e).toList := by
      rcases (l.offerAll earlier).offer_eq_or e with hsame | hmore
      · rw [hsame]
        exact hx
      · rw [hmore]
        exact List.mem_append_left _ hx
    refine .inr ⟨x, List.mem_append_left _ hstays, ?_, hclash⟩
    rw [hearlier] at hx
    rcases List.mem_append.1 hx with hx | hx
    · exact .inl hx
    · exact .inr (hsub.subset hx)

/-! ## Loops over items -/

/-- What a loop over items has made: the edits of the items it took, in turn. A greedy loop leaves
an item out only if it has no edits, or clashes with an earlier one that was taken. -/
structure Selects (block : α → List Edit) (earlier : α → α → Prop) (greedy : Prop)
    (items : List α) (edits : EditList) (taken : List α) : Prop where
  sublist : taken.Sublist items
  proper : ∀ a ∈ taken, block a ≠ []
  toList_eq : edits.toList = taken.flatMap block
  separated : edits.Separated
  maximal : greedy → ∀ a ∈ items, a ∈ taken ∨ block a = [] ∨
    ∃ b ∈ taken, earlier b a ∧ ∃ x ∈ block b, ∃ y ∈ block a, x.span.overlaps y.span = true

section Selects

variable {block : α → List Edit} {earlier : α → α → Prop} {greedy : Prop}
  {items taken : List α} {edits edits' : EditList} {a : α}

theorem selects_nil : Selects block earlier greedy [] .empty [] where
  sublist := .slnil
  proper := by simp
  toList_eq := rfl
  separated := separated_empty
  maximal := by simp

theorem Selects.skip (h : Selects block earlier greedy items edits taken)
    (hskip : greedy → block a = [] ∨
      ∃ b ∈ taken, earlier b a ∧ ∃ x ∈ block b, ∃ y ∈ block a, x.span.overlaps y.span = true) :
    Selects block earlier greedy (items ++ [a]) edits taken where
  sublist := h.sublist.trans (List.sublist_append_left items [a])
  proper := h.proper
  toList_eq := h.toList_eq
  separated := h.separated
  maximal := by
    intro hgreedy b hb
    rcases List.mem_append.1 hb with hb | hb
    · exact h.maximal hgreedy b hb
    · rw [List.mem_singleton.1 hb]
      exact .inr (hskip hgreedy)

theorem Selects.take (h : Selects block earlier greedy items edits taken) (ha : block a ≠ [])
    (hlist : edits'.toList = edits.toList ++ block a) (hsep : edits'.Separated) :
    Selects block earlier greedy (items ++ [a]) edits' (taken ++ [a]) where
  sublist := h.sublist.append (List.Sublist.refl [a])
  proper := by
    intro b hb
    rcases List.mem_append.1 hb with hb | hb
    · exact h.proper b hb
    · rw [List.mem_singleton.1 hb]
      exact ha
  toList_eq := by simp [hlist, h.toList_eq]
  separated := hsep
  maximal := by
    intro hgreedy b hb
    rcases List.mem_append.1 hb with hb | hb
    · rcases h.maximal hgreedy b hb with htaken | hnone | ⟨c, hc, hclash⟩
      · exact .inl (List.mem_append_left _ htaken)
      · exact .inr (.inl hnone)
      · exact .inr (.inr ⟨c, List.mem_append_left _ hc, hclash⟩)
    · exact .inl (List.mem_append_right _ hb)

theorem Selects.toList_eq_nil_iff (h : Selects block earlier greedy items edits taken) :
    edits.toList = [] ↔ taken = [] := by
  rw [h.toList_eq, List.flatMap_eq_nil_iff]
  constructor
  · intro hnone
    cases taken with
    | nil => rfl
    | cons a rest => exact absurd (hnone a List.mem_cons_self) (h.proper a List.mem_cons_self)
  · rintro rfl
    simp

/-- A clash with an edit in the list is a clash with an item that was taken. -/
theorem Selects.exists_clash (h : Selects block earlier greedy items edits taken)
    (hearlier : ∀ b ∈ items, earlier b a) {y : Edit} (hy : y ∈ block a)
    (hclash : edits.overlaps y.span = true) :
    ∃ b ∈ taken, earlier b a ∧ ∃ x ∈ block b, ∃ y ∈ block a, x.span.overlaps y.span = true := by
  obtain ⟨x, hx, hxy⟩ := overlaps_eq_true_iff.1 hclash
  rw [h.toList_eq] at hx
  obtain ⟨b, hb, hx⟩ := List.mem_flatMap.1 hx
  exact ⟨b, hb, hearlier b (h.sublist.subset hb), x, hx, y, hy, hxy⟩

/-- The edits of two items that were taken do not clash. -/
theorem Selects.apart (h : Selects block earlier greedy items edits taken) :
    taken.Pairwise fun a b => ∀ x ∈ block a, ∀ y ∈ block b, x.span.Apart y.span := by
  have hapart := h.separated.apart
  rw [h.toList_eq] at hapart
  exact (List.pairwise_flatMap.1 hapart).2

theorem Selects.apart_self (h : Selects block earlier greedy items edits taken) (ha : a ∈ taken) :
    (block a).Pairwise fun x y => x.span.Apart y.span := by
  have hapart := h.separated.apart
  rw [h.toList_eq] at hapart
  exact (List.pairwise_flatMap.1 hapart).1 a ha

end Selects
end EditList

namespace Attempt

/-- At likelihood 1 a flip comes out true. -/
theorem returns_flip (p : Float) : Returns (fun b => (p == 1.0) = true → b = true) (flip p) := by
  apply returns_lift
  by_cases h : (p == 1.0) = true
  · rw [Draw.flip_eq_pure_true h]
    exact Draw.always_pure fun _ => rfl
  · intro g hp
    exact absurd hp h

/-- A loop of draws is a loop of attempts that never give up. -/
theorem lift_foldlM {β : Type} (f : β → α → Draw β) (l : List α) (b : β) :
    (OptionT.lift (l.foldlM f b) : Attempt β) = l.foldlM (fun b a => OptionT.lift (f b a)) b := by
  induction l generalizing b with
  | nil => rfl
  | cons a l ih =>
    have htail : (fun b' => (OptionT.lift (l.foldlM f b') : Attempt β)) =
        fun b' => l.foldlM (fun b a => OptionT.lift (f b a)) b' := funext ih
    rw [List.foldlM_cons, List.foldlM_cons, ← htail]
    rfl

/-- Pushing edits in turn, giving up at the first that is refused, makes all of them or nothing. -/
theorem returns_pushAll {edits : EditList} (hedits : edits.Separated) (es : List Edit) :
    Returns (fun edits' => edits'.toList = edits.toList ++ es ∧ edits'.Separated)
      (es.foldlM (fun l e => match l.push e with
        | .ok l' => pure l'
        | .error _ => failure) edits) := by
  induction es generalizing edits with
  | nil => exact returns_pure ⟨by simp, hedits⟩
  | cons e es ih =>
    rw [List.foldlM_cons]
    cases hpush : edits.push e with
    | error err => exact returns_failure _
    | ok next =>
      obtain ⟨hnext, hsep⟩ := (EditList.push_eq_ok_iff hedits).1 hpush
      have hrest := ih hsep
      rw [hnext] at hrest
      simpa using hrest

variable {block : α → List Edit} {earlier : α → α → Prop} {greedy : Prop}
  {step : EditList → α → Attempt EditList}

/-- When each step takes its item or skips it, the whole loop selects items. -/
theorem returns_foldlM_selects {items : List α} (hitems : items.Pairwise earlier)
    (hstep : ∀ a ∈ items, ∀ done edits taken, (∀ b ∈ done, earlier b a) →
      EditList.Selects block earlier greedy done edits taken →
      Returns (fun edits' => ∃ taken',
        EditList.Selects block earlier greedy (done ++ [a]) edits' taken') (step edits a)) :
    Returns (fun edits => ∃ taken, EditList.Selects block earlier greedy items edits taken)
      (items.foldlM step .empty) := by
  -- the items behind those that are done stand behind them in the list
  have hrun : ∀ rest done edits, items = done ++ rest →
      (∃ taken, EditList.Selects block earlier greedy done edits taken) →
      Returns (fun edits => ∃ taken, EditList.Selects block earlier greedy items edits taken)
        (rest.foldlM step edits) := by
    intro rest
    induction rest with
    | nil =>
      intro done edits hsplit hdone
      rw [List.append_nil] at hsplit
      exact returns_pure (hsplit ▸ hdone)
    | cons a rest ih =>
      rintro done edits hsplit ⟨taken, hdone⟩
      have hpair := hitems
      rw [hsplit] at hpair
      have hearlier : ∀ b ∈ done, earlier b a := by
        intro b hb
        exact (List.pairwise_append.1 hpair).2.2 b hb a List.mem_cons_self
      have ha : a ∈ items := by simp [hsplit]
      rw [List.foldlM_cons]
      refine returns_bind (hstep a ha done edits taken hearlier hdone) ?_
      intro edits' hselects
      exact ih (done ++ [a]) edits' (by simp [hsplit]) hselects
  exact hrun items [] .empty rfl ⟨[], EditList.selects_nil⟩

end Attempt

/-- The same for a loop that cannot give up. -/
theorem Draw.always_foldlM_selects {block : α → List Edit} {earlier : α → α → Prop}
    {greedy : Prop} {step : EditList → α → Draw EditList} {items : List α}
    (hitems : items.Pairwise earlier)
    (hstep : ∀ a ∈ items, ∀ done edits taken, (∀ b ∈ done, earlier b a) →
      EditList.Selects block earlier greedy done edits taken →
      Draw.Always (fun edits' => ∃ taken',
        EditList.Selects block earlier greedy (done ++ [a]) edits' taken') (step edits a)) :
    Draw.Always (fun edits => ∃ taken, EditList.Selects block earlier greedy items edits taken)
      (items.foldlM step .empty) := by
  have hlift := Attempt.returns_foldlM_selects hitems
    fun a ha done edits taken hearlier hdone =>
      Attempt.returns_lift (hstep a ha done edits taken hearlier hdone)
  rw [← Attempt.lift_foldlM] at hlift
  intro g
  exact hlift g _ rfl

end Mutagen
