import Mutagen.Edit

/-!
# Separated edits

The invariant of edit lists: spans are not inverted, and of any two one ends where
the other starts, or earlier, without starting at the same place. Pushing keeps it,
so it holds of every list that a run of actions can reach.
-/
namespace Mutagen
namespace Span

/-- One span starts earlier than another and ends no later than its start. -/
def Before (s t : Span) : Prop := s.start < t.start ∧ s.stop ≤ t.start

/-- One of two spans is before the other. -/
def Apart (s t : Span) : Prop := s.Before t ∨ t.Before s

theorem Before.asymm {s t : Span} (h : s.Before t) : ¬ t.Before s := by
  intro h'
  have h₁ := h.1
  have h₂ := h'.1
  omega

theorem Apart.symm {s t : Span} (h : s.Apart t) : t.Apart s := Or.symm h

/-- Spans clash exactly when neither is before the other. -/
theorem overlaps_eq_false_iff {s t : Span} (hs : s.start ≤ s.stop) (ht : t.start ≤ t.stop) :
    s.overlaps t = false ↔ s.Apart t := by
  unfold overlaps Apart Before
  split
  · rename_i he
    simp only [isEmpty, len, Bool.or_eq_true, beq_iff_eq] at he
    simp only [Bool.or_eq_false_iff, beq_eq_false_iff_ne, Bool.and_eq_false_iff,
      decide_eq_false_iff_not]
    omega
  · rename_i he
    simp only [isEmpty, len, Bool.or_eq_true, beq_iff_eq] at he
    simp only [Bool.and_eq_false_iff, decide_eq_false_iff_not]
    omega

end Span

namespace EditList

/-- The invariant of edit lists. -/
structure Separated (l : EditList) : Prop where
  ordered : ∀ e ∈ l.toList, e.span.start ≤ e.span.stop
  apart : l.toList.Pairwise fun a b => a.span.Apart b.span

theorem separated_empty : empty.Separated where
  ordered := by
    intro e he
    cases he
  apart := List.Pairwise.nil

theorem separated_append_singleton {l : EditList} {e : Edit} :
    (⟨l.toList ++ [e]⟩ : EditList).Separated ↔
      l.Separated ∧ e.span.start ≤ e.span.stop ∧ ∀ x ∈ l.toList, x.span.Apart e.span := by
  constructor
  · intro h
    have hpair := List.pairwise_append.1 h.apart
    refine ⟨⟨?_, hpair.1⟩, ?_, ?_⟩
    · intro x hx
      exact h.ordered x (List.mem_append_left _ hx)
    · exact h.ordered e (by simp)
    · intro x hx
      exact hpair.2.2 x hx e (by simp)
  · rintro ⟨hl, he, hx⟩
    constructor
    · intro x hx
      rcases List.mem_append.1 hx with hx | hx
      · exact hl.ordered x hx
      · rw [List.mem_singleton.1 hx]
        exact he
    · refine List.pairwise_append.2 ⟨hl.apart, List.pairwise_singleton .., ?_⟩
      intro x hmem y hy
      rw [List.mem_singleton.1 hy]
      exact hx x hmem

/-- The order of the edits does not matter to the invariant. -/
theorem Separated.perm {l l' : EditList} (h : l.Separated) (hp : l'.toList.Perm l.toList) :
    l'.Separated where
  ordered := by
    intro e he
    exact h.ordered e (hp.mem_iff.1 he)
  apart := h.apart.perm hp.symm (fun hab => hab.symm)

/-- A part of a separated list is separated. -/
theorem Separated.sublist {l : EditList} {es : List Edit} (h : l.Separated)
    (hsub : es.Sublist l.toList) : (⟨es⟩ : EditList).Separated where
  ordered := fun e he => h.ordered e (hsub.subset he)
  apart := h.apart.sublist hsub

/-- Pushing onto a separated list succeeds exactly when the longer list is separated. -/
theorem push_eq_ok_iff {l l' : EditList} {e : Edit} (hl : l.Separated) :
    l.push e = .ok l' ↔ l'.toList = l.toList ++ [e] ∧ l'.Separated := by
  obtain ⟨es⟩ := l'
  have hclash : ∀ x ∈ l.toList, e.span.start ≤ e.span.stop →
      (x.span.overlaps e.span = false ↔ x.span.Apart e.span) := by
    intro x hx he
    exact Span.overlaps_eq_false_iff (hl.ordered x hx) he
  constructor
  · intro h
    unfold push at h
    split at h
    · cases h
    · rename_i hstop
      have he : e.span.start ≤ e.span.stop := by omega
      split at h
      · cases h
      · rename_i hfind
        cases h
        refine ⟨rfl, separated_append_singleton.2 ⟨hl, he, ?_⟩⟩
        intro x hx
        apply (hclash x hx he).1
        simpa using List.find?_eq_none.1 hfind x hx
  · rintro ⟨hes, hsep⟩
    simp only at hes
    subst hes
    obtain ⟨-, he, hapart⟩ := separated_append_singleton.1 hsep
    have hfind : l.toList.find? (fun x => x.span.overlaps e.span) = none := by
      rw [List.find?_eq_none]
      intro x hx
      simp [(hclash x hx he).2 (hapart x hx)]
    unfold push
    rw [if_neg (by omega), hfind]

theorem Separated.push {l l' : EditList} {e : Edit} (hl : l.Separated) (h : l.push e = .ok l') :
    l'.Separated :=
  ((push_eq_ok_iff hl).1 h).2

/-- Pushing edits one after another succeeds exactly when they are separated from each other and
from those before them. -/
theorem foldlM_push_eq_ok_iff {l l' : EditList} {es : List Edit} (hl : l.Separated) :
    es.foldlM EditList.push l = .ok l' ↔ l'.toList = l.toList ++ es ∧ l'.Separated := by
  induction es generalizing l with
  | nil =>
    rw [List.foldlM_nil, List.append_nil]
    constructor
    · intro h
      cases h
      exact ⟨rfl, hl⟩
    · rintro ⟨h, -⟩
      obtain ⟨xs⟩ := l
      obtain ⟨ys⟩ := l'
      cases h
      rfl
  | cons e es ih =>
    rw [List.foldlM_cons]
    constructor
    · intro h
      cases hp : l.push e with
      | error err =>
        rw [hp] at h
        cases h
      | ok m =>
        rw [hp] at h
        obtain ⟨hm, hsep⟩ := (push_eq_ok_iff hl).1 hp
        obtain ⟨hl', hsep'⟩ := (ih hsep).1 h
        exact ⟨by rw [hl', hm]; simp, hsep'⟩
    · rintro ⟨hl', hsep'⟩
      have hm : (⟨l.toList ++ [e]⟩ : EditList).Separated := by
        apply hsep'.sublist
        rw [hl', List.append_cons l.toList e es]
        exact List.sublist_append_left _ _
      have hp : l.push e = .ok ⟨l.toList ++ [e]⟩ := (push_eq_ok_iff hl).2 ⟨rfl, hm⟩
      rw [hp]
      exact (ih hm).2 ⟨by rw [hl']; simp, hsep'⟩

/-- An edit that starts at `offset` or later, in the coordinates of a text that starts there and
has `length` bytes. -/
def moved (offset length : Nat) (e : Edit) : Edit :=
  ⟨⟨min (e.span.start - offset) (min (e.span.stop - offset) length),
    min (e.span.stop - offset) length⟩, e.replacement⟩

theorem shift_eq_ok_iff {offset length : Nat} {e e' : Edit} :
    shift offset length e = .ok e' ↔ offset ≤ e.span.start ∧ e' = moved offset length e := by
  unfold shift
  split
  · constructor
    · intro h
      cases h
    · rintro ⟨h, -⟩
      omega
  · constructor
    · intro h
      cases h
      exact ⟨by omega, rfl⟩
    · rintro ⟨-, rfl⟩
      rfl

/-- Moving and pushing in turn is moving all the edits and then pushing them. -/
theorem foldlM_shift_push_eq_ok_iff {offset length : Nat} {es : List Edit} {l l' : EditList} :
    es.foldlM (fun acc e => do acc.push (← shift offset length e)) l = .ok l' ↔
      (∀ e ∈ es, offset ≤ e.span.start) ∧
        (es.map (moved offset length)).foldlM EditList.push l = .ok l' := by
  induction es generalizing l with
  | nil => simp
  | cons e es ih =>
    rw [List.foldlM_cons, List.map_cons, List.foldlM_cons, List.forall_mem_cons]
    cases hs : shift offset length e with
    | error err =>
      have hlt : ¬ offset ≤ e.span.start := by
        intro hle
        rw [shift_eq_ok_iff.2 ⟨hle, rfl⟩] at hs
        cases hs
      constructor
      · intro h
        cases h
      · rintro ⟨⟨hle, -⟩, -⟩
        exact absurd hle hlt
    | ok e' =>
      obtain ⟨hle, rfl⟩ := shift_eq_ok_iff.1 hs
      change (l.push (moved offset length e) >>= _) = _ ↔ _
      cases hp : l.push (moved offset length e) with
      | error err =>
        constructor
        · intro h
          cases h
        · rintro ⟨-, h⟩
          cases h
      | ok m =>
        change List.foldlM _ m es = _ ↔ _ ∧ List.foldlM _ m _ = _
        rw [ih]
        exact ⟨fun h => ⟨⟨hle, h.1⟩, h.2⟩, fun h => ⟨h.1.2, h.2⟩⟩

/-- A list can be rebased exactly when no edit starts before the offset and the moved edits are
separated. -/
theorem rebase_eq_ok_iff {l l' : EditList} {offset length : Nat} :
    l.rebase offset length = .ok l' ↔
      (∀ e ∈ l.toList, offset ≤ e.span.start) ∧
        l'.toList = l.toList.map (moved offset length) ∧ l'.Separated := by
  rw [rebase, foldlM_shift_push_eq_ok_iff, foldlM_push_eq_ok_iff separated_empty]
  rfl

theorem separated_of_rebase {l l' : EditList} {offset length : Nat}
    (h : l.rebase offset length = .ok l') : l'.Separated :=
  (rebase_eq_ok_iff.1 h).2.2

/-- What can be done to an edit list. -/
inductive Action where
  | push (e : Edit)
  | offer (e : Edit)
  | rebase (offset length : Nat)

/-- The list that an action makes, or why it is refused. -/
def attempt (l : EditList) : Action → Except EditError EditList
  | .push e => l.push e
  | .offer e => .ok (l.offer e)
  | .rebase offset length => l.rebase offset length

/-- The list after an action; a refused action leaves it as it is. -/
def perform (l : EditList) (a : Action) : EditList :=
  match l.attempt a with
  | .ok l' => l'
  | .error _ => l

/-- The list after actions in turn, from the empty one on. -/
def history (actions : List Action) : EditList := actions.foldl perform empty

/-- An offered edit is put behind the others, or nothing changes. -/
theorem offer_eq_or (l : EditList) (e : Edit) :
    l.offer e = l ∨ l.offer e = ⟨l.toList ++ [e]⟩ := by
  unfold EditList.offer push
  split
  · rename_i l' hpush
    split at hpush
    · cases hpush
    · split at hpush
      · cases hpush
      · cases hpush
        exact .inr rfl
  · exact .inl rfl

theorem Separated.offer {l : EditList} (hl : l.Separated) (e : Edit) : (l.offer e).Separated := by
  unfold EditList.offer
  split
  · rename_i l' hp
    exact hl.push hp
  · exact hl

theorem Separated.perform {l : EditList} (hl : l.Separated) (a : Action) :
    (l.perform a).Separated := by
  unfold EditList.perform
  split
  · rename_i l' ha
    cases a with
    | push e => exact hl.push ha
    | offer e =>
      cases ha
      exact hl.offer e
    | rebase offset length => exact separated_of_rebase ha
  · exact hl

theorem Separated.foldl_perform {l : EditList} (hl : l.Separated) (actions : List Action) :
    (actions.foldl EditList.perform l).Separated := by
  induction actions generalizing l with
  | nil => exact hl
  | cons a actions ih => exact ih (hl.perform a)

/-- Every list that actions reach is separated. -/
theorem history_separated (actions : List Action) : (history actions).Separated :=
  separated_empty.foldl_perform actions

theorem history_append_cons (before after : List Action) (a : Action) :
    history (before ++ a :: after) = after.foldl perform ((history before).perform a) := by
  rw [history, List.foldl_append, List.foldl_cons]
  rfl

/-- An action that changes nothing may be left out of a history. -/
theorem history_skip {before : List Action} {a : Action} (after : List Action)
    (h : (history before).perform a = history before) :
    history (before ++ a :: after) = history (before ++ after) := by
  rw [history_append_cons, h, history, history, List.foldl_append]

end EditList
end Mutagen
