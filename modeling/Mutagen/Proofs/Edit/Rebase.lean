import Mutagen.Proofs.Edit.Substitution

/-!
# Rebasing and splicing commute

Edits of a part of a text can be made in the whole text, or moved to the
coordinates of the part and made there. Both give the same part between the same
surroundings; an edit that runs past the part counts up to its end.
-/
namespace Mutagen
namespace Text

theorem isBoundary_append {before body after : Text} {n : Nat} (h : body.isBoundary n = true) :
    (before ++ body ++ after).isBoundary (before.size + n) = true := by
  obtain ⟨a, b, rfl, rfl⟩ := isBoundary_iff.1 h
  exact isBoundary_iff.2 ⟨before ++ a, b ++ after, by simp, size_append before a⟩

theorem isBoundary_of_append {before body after : Text} {n : Nat}
    (h : (before ++ body ++ after).isBoundary (before.size + n) = true) (hn : n ≤ body.size) :
    body.isBoundary n = true := by
  rw [List.append_assoc] at h
  obtain ⟨m, c, hm, hsize⟩ := exists_cut h (by omega)
  obtain ⟨d, hbody, -⟩ := append_eq_append_of_le hm.symm (by omega)
  exact isBoundary_iff.2 ⟨m, d, hbody, by omega⟩

/-- A slice of a part is a slice of the whole. -/
theorem slice?_append_of_eq_some {body m : Text} {i j : Nat} (before after : Text)
    (h : body.slice? i j = some m) :
    (before ++ body ++ after).slice? (before.size + i) (before.size + j) = some m := by
  obtain ⟨a, b, rfl, rfl, rfl⟩ := slice?_eq_some_iff.1 h
  exact slice?_eq_some_iff.2
    ⟨before ++ a, b ++ after, by simp, size_append before a, by rw [size_append]; omega⟩

/-- A slice that starts earlier has the run from there in front. -/
theorem slice?_extend {a m b g : Text} {j : Nat}
    (h : (a ++ m ++ b).slice? (a.size + m.size) j = some g) :
    (a ++ m ++ b).slice? a.size j = some (m ++ g) := by
  obtain ⟨p, q, ht, hp, rfl⟩ := slice?_eq_some_iff.1 h
  rw [List.append_assoc p] at ht
  obtain ⟨rfl, rfl⟩ := append_inj_of_size ht (by rw [size_append, hp])
  exact slice?_eq_some_iff.2 ⟨a, q, by simp, rfl, by simp [Nat.add_assoc]⟩

/-- A slice of a part that reaches the end of it goes on to the end of the whole. -/
theorem slice?_append_to_end {before body after m : Text} {i : Nat}
    (h : body.slice? i body.size = some m) :
    (before ++ body ++ after).slice? (before.size + i) (before ++ body ++ after).size =
      some (m ++ after) := by
  obtain ⟨a, b, hbody, rfl, hsize⟩ := slice?_eq_some_iff.1 h
  have hb : b = [] := by
    apply eq_nil_of_size
    rw [hbody, size_append, size_append] at hsize
    omega
  subst hb
  subst hbody
  have ht : before ++ (a ++ m ++ []) ++ after = (before ++ a) ++ (m ++ after) := by simp
  rw [ht, ← size_append]
  exact slice?_size_append (before ++ a) (m ++ after)

end Text

namespace Edit

/-- The edit when `offset` more bytes stand in front of the text. -/
def translate (offset : Nat) (e : Edit) : Edit :=
  ⟨⟨offset + e.span.start, offset + e.span.stop⟩, e.replacement⟩

/-- The edit as far as it stands before `stop`. -/
def cutAt (stop : Nat) (e : Edit) : Edit := ⟨⟨e.span.start, min e.span.stop stop⟩, e.replacement⟩

/-- The edit lies within the `length` bytes from `offset` on, or at least starts before their
end. -/
def Enters (offset length : Nat) (e : Edit) : Prop :=
  offset ≤ e.span.start ∧ (e.span.stop ≤ offset + length ∨ e.span.start < offset + length)

instance (offset length : Nat) (e : Edit) : Decidable (e.Enters offset length) :=
  inferInstanceAs (Decidable (_ ∧ _))

/-- Moving an edit undoes the translation of it, up to the cut. -/
theorem translate_moved {offset length : Nat} {e : Edit} (he : e.span.start ≤ e.span.stop)
    (h : e.Enters offset length) :
    (EditList.moved offset length e).translate offset = e.cutAt (offset + length) := by
  obtain ⟨h₁, h₂⟩ := h
  simp only [translate, cutAt, EditList.moved, Edit.mk.injEq, Span.mk.injEq, and_true]
  omega

theorem before_translate {a b : Edit} (offset : Nat) (h : a.span.Before b.span) :
    (a.translate offset).span.Before (b.translate offset).span :=
  ⟨Nat.add_lt_add_left h.1 offset, Nat.add_le_add_left h.2 offset⟩

/-- The cut does not make two edits clash: neither starts behind it. -/
theorem before_moved {offset length : Nat} {a b : Edit} (ha : a.Enters offset length)
    (hb : b.Enters offset length) (hord : b.span.start ≤ b.span.stop)
    (h : a.span.Before b.span) :
    (EditList.moved offset length a).span.Before (EditList.moved offset length b).span := by
  obtain ⟨ha₁, -⟩ := ha
  obtain ⟨hb₁, hb₂⟩ := hb
  obtain ⟨h₁, h₂⟩ := h
  have hstart : (EditList.moved offset length b).span.start = b.span.start - offset := by
    simp only [EditList.moved]
    omega
  rw [Span.Before, hstart]
  simp only [EditList.moved]
  omega

end Edit

namespace Text

/-- Edits made in a part of a text are made in the whole, from the same place on. -/
theorem substitute?_translate {body r : Text} {es : List Edit} {n : Nat} (before after : Text)
    (h : body.substitute? n es = some r) :
    (before ++ body ++ after).substitute? (before.size + n)
      (es.map (Edit.translate before.size)) = some (r ++ after) := by
  induction es generalizing n r with
  | nil => exact slice?_append_to_end h
  | cons e es ih =>
    obtain ⟨gap, hgap, hrest⟩ := Option.bind_eq_some_iff.1 h
    obtain ⟨rest, hsub, hr⟩ := Option.bind_eq_some_iff.1 hrest
    cases hr
    have hgap' := slice?_append_of_eq_some before after hgap
    rw [List.map_cons, substitute?]
    simp only [Edit.translate]
    rw [hgap', ih hsub]
    simp

/-- Substituting from an earlier place on puts the run from there in front. -/
theorem substitute?_extend {a m b : Text} {es : List Edit} {r : Text}
    (h : (a ++ m ++ b).substitute? (a.size + m.size) es = some r) :
    (a ++ m ++ b).substitute? a.size es = some (m ++ r) := by
  cases es with
  | nil => exact slice?_extend h
  | cons e es =>
    obtain ⟨gap, hgap, hrest⟩ := Option.bind_eq_some_iff.1 h
    obtain ⟨rest, hsub, hr⟩ := Option.bind_eq_some_iff.1 hrest
    cases hr
    rw [substitute?, slice?_extend hgap, hsub]
    simp

/-- Edits made in a part of a text leave what stands around it. -/
theorem substitute?_translate_zero {body r : Text} {es : List Edit} (before after : Text)
    (h : body.substitute? 0 es = some r) :
    (before ++ body ++ after).substitute? 0 (es.map (Edit.translate before.size)) =
      some (before ++ r ++ after) := by
  have hpart := substitute?_translate before after h
  rw [List.append_assoc] at hpart ⊢
  have hwhole := substitute?_extend (a := []) (m := before) (b := body ++ after)
    (by simpa using hpart)
  simpa using hwhole

end Text

namespace EditList

/-- The list with every edit cut at `stop`. -/
def cutAt (l : EditList) (stop : Nat) : EditList := ⟨l.toList.map (Edit.cutAt stop)⟩

/-- Nothing is cut from edits that end in time. -/
theorem cutAt_eq_self {l : EditList} {stop : Nat} (h : ∀ e ∈ l.toList, e.span.stop ≤ stop) :
    l.cutAt stop = l := by
  obtain ⟨es⟩ := l
  have hmap : es.map (Edit.cutAt stop) = es.map id := by
    apply List.map_congr_left
    intro e he
    simp [Edit.cutAt, Nat.min_eq_left (h e he)]
  rw [cutAt, hmap, List.map_id]

/-- The list when `offset` more bytes stand in front of the text. -/
def translate (l : EditList) (offset : Nat) : EditList := ⟨l.toList.map (Edit.translate offset)⟩

theorem ascending_map_translate {es : List Edit} (offset : Nat) (h : Ascending es) :
    Ascending (es.map (Edit.translate offset)) := by
  refine List.Pairwise.map _ ?_ h
  intro a b hab
  exact Edit.before_translate offset hab

theorem Separated.translate {l : EditList} (hl : l.Separated) (offset : Nat) :
    (l.translate offset).Separated where
  ordered := by
    intro e he
    obtain ⟨x, hx, rfl⟩ := List.mem_map.1 he
    exact Nat.add_le_add_left (hl.ordered x hx) offset
  apart := by
    refine List.Pairwise.map _ ?_ hl.apart
    rintro a b (hab | hba)
    · exact .inl (Edit.before_translate offset hab)
    · exact .inr (Edit.before_translate offset hba)

theorem fits_translate {before body after : Text} {e : Edit} (h : fits body e = true) :
    fits (before ++ body ++ after) (e.translate before.size) = true := by
  simp only [fits, Bool.and_eq_true, decide_eq_true_eq] at h ⊢
  refine ⟨⟨?_, Text.isBoundary_append h.1.2⟩, Text.isBoundary_append h.2⟩
  simp only [Edit.translate, Text.size_append]
  omega

/-- Edits of a part of a text, made in the whole of it, change the part as they would change it
alone. -/
theorem Separated.apply_translate {l : EditList} (hl : l.Separated) {body : Text}
    (hfit : ∀ e ∈ l.toList, fits body e = true) (before after : Text) :
    ∃ r, l.apply body = .ok r ∧
      (l.translate before.size).apply (before ++ body ++ after) = .ok (before ++ r ++ after) := by
  obtain ⟨r, hr, hbody⟩ := hl.apply_eq_substitute l.ascending_perm hl.ascending hfit
  obtain ⟨w, hw, hwhole⟩ := (hl.translate before.size).apply_eq_substitute
    (l.ascending_perm.map (Edit.translate before.size))
    (ascending_map_translate before.size hl.ascending) (t := before ++ body ++ after) (by
      intro e he
      obtain ⟨x, hx, rfl⟩ := List.mem_map.1 he
      exact fits_translate (hfit x hx))
  rw [Text.substitute?_translate_zero before after hr] at hw
  cases hw
  exact ⟨r, hbody, hwhole⟩

/-- Edits that enter a part of a text can be rebased to it, and are then the same edits, cut at
its end and seen from its start. -/
theorem Separated.rebase_eq_ok {l : EditList} (hl : l.Separated) {offset length : Nat}
    (hin : ∀ e ∈ l.toList, e.Enters offset length) :
    ∃ l', l.rebase offset length = .ok l' ∧
      l'.translate offset = l.cutAt (offset + length) := by
  refine ⟨⟨l.toList.map (moved offset length)⟩, ?_, ?_⟩
  · refine rebase_eq_ok_iff.2 ⟨fun e he => (hin e he).1, rfl, ?_, ?_⟩
    · intro e he
      obtain ⟨x, hx, rfl⟩ := List.mem_map.1 he
      exact Nat.min_le_right ..
    · refine List.pairwise_map.2 (hl.apart.imp_of_mem ?_)
      rintro a b ha hb (hab | hba)
      · exact .inl (Edit.before_moved (hin a ha) (hin b hb) (hl.ordered b hb) hab)
      · exact .inr (Edit.before_moved (hin b hb) (hin a ha) (hl.ordered a ha) hba)
  · rw [EditList.translate, EditList.cutAt, List.map_map]
    congr 1
    apply List.map_congr_left
    intro e he
    exact Edit.translate_moved (hl.ordered e he) (hin e he)

/-- An edit that enters a part of a text at boundaries falls on the part when it is moved there. -/
theorem fits_moved {before body after : Text} {e : Edit} (he : e.span.start ≤ e.span.stop)
    (hin : e.Enters before.size body.size)
    (hstart : (before ++ body ++ after).isBoundary e.span.start = true)
    (hstop : e.span.stop ≤ before.size + body.size →
      (before ++ body ++ after).isBoundary e.span.stop = true) :
    fits body (moved before.size body.size e) = true := by
  have hmoved := Edit.translate_moved he hin
  simp only [Edit.translate, Edit.cutAt, Edit.mk.injEq, Span.mk.injEq] at hmoved
  obtain ⟨⟨hs, ht⟩, -⟩ := hmoved
  obtain ⟨-, hend⟩ := hin
  have hfirst : (moved before.size body.size e).span.start ≤ body.size := by omega
  have hlast : (moved before.size body.size e).span.stop ≤ body.size := by omega
  rw [← hs] at hstart
  simp only [fits, Bool.and_eq_true, decide_eq_true_eq]
  refine ⟨⟨hlast, Text.isBoundary_of_append hstart hfirst⟩, ?_⟩
  by_cases hinside : e.span.stop ≤ before.size + body.size
  · have hb := hstop hinside
    rw [← Nat.min_eq_left hinside, ← ht] at hb
    exact Text.isBoundary_of_append hb hlast
  · have hall : (moved before.size body.size e).span.stop = body.size := by omega
    rw [hall]
    exact Text.isBoundary_iff.2 ⟨body, [], by simp, rfl⟩

/-- Edits that enter a part of a text at boundaries can be moved to the part and made there; what
comes out stands, between the same surroundings, in the text with the cut edits made. -/
theorem Separated.apply_rebased {l : EditList} (hl : l.Separated) {before body after : Text}
    (hin : ∀ e ∈ l.toList, e.Enters before.size body.size)
    (hcut : ∀ e ∈ l.toList, (before ++ body ++ after).isBoundary e.span.start = true ∧
      (e.span.stop ≤ before.size + body.size →
        (before ++ body ++ after).isBoundary e.span.stop = true)) :
    ∃ rebased r, l.rebase before.size body.size = .ok rebased ∧
      rebased.translate before.size = l.cutAt (before.size + body.size) ∧
      rebased.apply body = .ok r ∧
      (l.cutAt (before.size + body.size)).apply (before ++ body ++ after) =
        .ok (before ++ r ++ after) := by
  obtain ⟨rebased, hrebase, hcuts⟩ := hl.rebase_eq_ok hin
  obtain ⟨-, hmoved, hsep⟩ := rebase_eq_ok_iff.1 hrebase
  have hfit : ∀ e ∈ rebased.toList, fits body e = true := by
    intro e he
    rw [hmoved] at he
    obtain ⟨x, hx, rfl⟩ := List.mem_map.1 he
    exact fits_moved (hl.ordered x hx) (hin x hx) (hcut x hx).1 (hcut x hx).2
  obtain ⟨r, hpart, hwhole⟩ := hsep.apply_translate hfit before after
  rw [hcuts] at hwhole
  exact ⟨rebased, r, hrebase, hcuts, hpart, hwhole⟩

/-- Edits inside a part of a text can be moved to the part and made there, with the same outcome
as in the whole text. -/
theorem Separated.apply_inside {l : EditList} (hl : l.Separated) {before body after : Text}
    (hin : ∀ e ∈ l.toList, before.size ≤ e.span.start ∧ e.span.stop ≤ before.size + body.size)
    (hfit : ∀ e ∈ l.toList, fits (before ++ body ++ after) e = true) :
    ∃ rebased r, l.rebase before.size body.size = .ok rebased ∧ rebased.apply body = .ok r ∧
      l.apply (before ++ body ++ after) = .ok (before ++ r ++ after) := by
  have hcut : ∀ e ∈ l.toList, (before ++ body ++ after).isBoundary e.span.start = true ∧
      (e.span.stop ≤ before.size + body.size →
        (before ++ body ++ after).isBoundary e.span.stop = true) := by
    intro e he
    have hbounds := hfit e he
    simp only [fits, Bool.and_eq_true] at hbounds
    exact ⟨hbounds.1.2, fun _ => hbounds.2⟩
  obtain ⟨rebased, r, hrebase, -, happly, hwhole⟩ :=
    hl.apply_rebased (fun e he => ⟨(hin e he).1, .inl (hin e he).2⟩) hcut
  rw [cutAt_eq_self (fun e he => (hin e he).2)] at hwhole
  exact ⟨rebased, r, hrebase, happly, hwhole⟩

/-- Edits inside a part of a text leave what stands around it. -/
theorem Separated.apply_around {l : EditList} (hl : l.Separated) {before body after : Text}
    (hin : ∀ e ∈ l.toList, before.size ≤ e.span.start ∧ e.span.stop ≤ before.size + body.size)
    (hfit : ∀ e ∈ l.toList, fits (before ++ body ++ after) e = true) :
    ∃ r, l.apply (before ++ body ++ after) = .ok (before ++ r ++ after) := by
  obtain ⟨-, r, -, -, hwhole⟩ := hl.apply_inside hin hfit
  exact ⟨r, hwhole⟩

/-- Rebasing the edits of a history to the part of a file that they enter, and making them there,
gives that part of what the file becomes when they are made in all of it. Edits that run past the
part count up to its end. -/
theorem rebase_apply_eq_splice (actions : List Action) (file body : Text) (offset length : Nat)
    (hbody : file.slice? offset (offset + length) = some body)
    (hin : ∀ e ∈ (history actions).toList, e.Enters offset length)
    (hcut : ∀ e ∈ (history actions).toList, file.isBoundary e.span.start = true ∧
      (e.span.stop ≤ offset + length → file.isBoundary e.span.stop = true)) :
    ∃ before after rebased r,
      file.slice? 0 offset = some before ∧
      file.slice? (offset + length) file.size = some after ∧
      (history actions).rebase offset length = .ok rebased ∧
      rebased.translate offset = (history actions).cutAt (offset + length) ∧
      rebased.apply body = .ok r ∧
      ((history actions).cutAt (offset + length)).apply file = .ok (before ++ r ++ after) ∧
      ((∀ e ∈ (history actions).toList, e.span.stop ≤ offset + length) →
        (history actions).apply file = .ok (before ++ r ++ after)) := by
  obtain ⟨before, after, rfl, rfl, hlength⟩ := Text.slice?_eq_some_iff.1 hbody
  have hsize : body.size = length := by omega
  subst hsize
  obtain ⟨rebased, r, hrebase, hcuts, hpart, hwhole⟩ :=
    (history_separated actions).apply_rebased hin hcut
  refine ⟨before, after, rebased, r, ?_, ?_, hrebase, hcuts, hpart, hwhole, ?_⟩
  · rw [List.append_assoc]
    exact Text.slice?_zero_append before (body ++ after)
  · rw [← Text.size_append]
    exact Text.slice?_size_append (before ++ body) after
  · intro hinside
    rw [cutAt_eq_self hinside] at hwhole
    exact hwhole

/-- An insertion at the start of a part, and an edit from inside it to the end of the file. -/
theorem rebase_apply_eq_splice_past_end :
    ∃ rebased r,
      (history [.push ⟨⟨1, 1⟩, ['+']⟩, .push ⟨⟨4, 7⟩, ['!']⟩]).rebase 1 4 = .ok rebased ∧
      rebased.apply ['é', 'a', 'b'] = .ok r ∧
      ((history [.push ⟨⟨1, 1⟩, ['+']⟩, .push ⟨⟨4, 7⟩, ['!']⟩]).cutAt 5).apply
        ['x', 'é', 'a', 'b', 'y', 'z'] = .ok (['x'] ++ r ++ ['y', 'z']) := by
  obtain ⟨before, after, rebased, r, hbefore, hafter, hrebase, -, hpart, hwhole, -⟩ :=
    rebase_apply_eq_splice [.push ⟨⟨1, 1⟩, ['+']⟩, .push ⟨⟨4, 7⟩, ['!']⟩]
      ['x', 'é', 'a', 'b', 'y', 'z'] ['é', 'a', 'b'] 1 4 (by decide) (by decide) (by decide)
  have hx : Text.slice? ['x', 'é', 'a', 'b', 'y', 'z'] 0 1 = some ['x'] := by decide
  have hyz : Text.slice? ['x', 'é', 'a', 'b', 'y', 'z'] 5 7 = some ['y', 'z'] := by decide
  cases hx.symm.trans hbefore
  cases hyz.symm.trans hafter
  exact ⟨rebased, r, hrebase, hpart, hwhole⟩

end EditList
end Mutagen
