import Mutagen.Proofs.Edit.Selection
import Mutagen.Proofs.Entity.Edited
import Mutagen.Proofs.Modifier.Eligibility

/-!
# Exchanged branches

The inversion of conditionals takes some of the ifs that have two plain branches and
exchanges the texts of the branches of each. An if inside a branch that moves is not
taken: its own branches would clash with the one around it. So all bytes are kept, and
those outside the branches stay where they are.
-/
namespace Mutagen

theorem eq_or_rel_of_head? {α : Type} {R : α → α → Prop} {l : List α} (h : l.Pairwise R)
    {first x : α} (hfirst : l.head? = some first) (hx : x ∈ l) : x = first ∨ R first x := by
  cases l with
  | nil => cases hx
  | cons a l =>
    cases hfirst
    rcases List.mem_cons.1 hx with rfl | hx
    · exact .inl rfl
    · exact .inr ((List.pairwise_cons.1 h).1 x hx)

/-! ## Branches -/

namespace Grammar

variable {g : Grammar} {root : Node} {s x : Site} {span : Span} {spans : Span × Span}

theorem branchSpan?_eq_some (h : g.branchSpan? s = some span) :
    (g.inlineBranchKinds.contains s.kind = false ∧ span = s.span) ∨
      (g.inlineBranchKinds.contains s.kind = true ∧ ∃ first last,
        s.namedChildren.head? = some first ∧ s.namedChildren.getLast? = some last ∧
          span = ⟨first.span.start, last.span.stop⟩) := by
  unfold branchSpan? at h
  split at h
  · rename_i hinline
    split at h
    · rename_i first last hfirst hlast
      cases h
      exact .inr ⟨hinline, first, last, hfirst, hlast, rfl⟩
    · cases h
  · rename_i hinline
    cases h
    exact .inl ⟨by simpa using hinline, rfl⟩

theorem namedChildren_pairwise (h : root.Tiled) (hs : (Site.top root).Within s) :
    s.namedChildren.Pairwise fun c d => c.span.stop ≤ d.span.start :=
  (h.apart s (Site.mem_preorder_iff.2 hs)).sublist List.filter_sublist

theorem mem_children_of_namedChildren (h : x ∈ s.namedChildren) : x ∈ s.children :=
  (List.mem_filter.1 h).1

/-- The span of a branch is a range inside the branch. -/
theorem branchSpan?_bounds (h : root.Tiled) (hs : (Site.top root).Within s)
    (hspan : g.branchSpan? s = some span) :
    s.span.start ≤ span.start ∧ span.start ≤ span.stop ∧ span.stop ≤ s.span.stop := by
  rcases branchSpan?_eq_some hspan with ⟨-, rfl⟩ | ⟨-, first, last, hfirst, hlast, rfl⟩
  · exact ⟨Nat.le_refl _, h.start_le_stop hs, Nat.le_refl _⟩
  · have hfc := mem_children_of_namedChildren (List.mem_of_head? hfirst)
    have hlc := mem_children_of_namedChildren (List.mem_of_getLast? hlast)
    have hfin := h.start_le_and_stop_le hs (.child .self hfc)
    have hlin := h.start_le_and_stop_le hs (.child .self hlc)
    have hford := h.start_le_stop (.child hs hfc)
    have hlord := h.start_le_stop (.child hs hlc)
    rcases eq_or_rel_of_head? (namedChildren_pairwise h hs) hfirst
      (List.mem_of_getLast? hlast) with rfl | hbefore
    · simp only
      omega
    · simp only
      omega

/-- Whether a site lies inside a span or shares no byte with it. -/
def Frames (span : Span) (x : Site) : Prop :=
  span.contains x.span = true ∨ x.span.stop ≤ span.start ∨ span.stop ≤ x.span.start

/-- The sites below a branch lie inside its span, or share no byte with it. -/
theorem branchSpan?_frames (h : root.Tiled) (hs : (Site.top root).Within s)
    (hspan : g.branchSpan? s = some span) (hx : s.Within x)
    (hinline : x = s → g.inlineBranchKinds.contains s.kind = false) : Frames span x := by
  rcases branchSpan?_eq_some hspan with ⟨-, rfl⟩ | ⟨hkind, first, last, hfirst, hlast, rfl⟩
  · exact .inl (Span.contains_iff.2 (h.start_le_and_stop_le hs hx))
  · rcases hx.eq_or_below with rfl | ⟨d, hd, hdx⟩
    · rw [hinline rfl] at hkind
      cases hkind
    · -- the child on the way down is before the first named one, behind the last, or between
      have hfc := mem_children_of_namedChildren (List.mem_of_head? hfirst)
      have hlc := mem_children_of_namedChildren (List.mem_of_getLast? hlast)
      have hdin := h.start_le_and_stop_le (.child hs hd) hdx
      have hford := h.start_le_stop (.child hs hfc)
      have hlord := h.start_le_stop (.child hs hlc)
      unfold Frames
      rw [Span.contains_iff]
      simp only
      rcases h.children_apart hs hd hfc with rfl | hbefore | hbehind
      · rcases h.children_apart hs hd hlc with rfl | hleft | hright <;> omega
      · omega
      · rcases h.children_apart hs hd hlc with rfl | hleft | hright <;> omega

/-- A site that shares no byte with a branch shares none with its span. -/
theorem frames_of_apart (h : root.Tiled) (hs : (Site.top root).Within s)
    (hspan : g.branchSpan? s = some span)
    (hx : s.span.stop ≤ x.span.start ∨ x.span.stop ≤ s.span.start) : Frames span x := by
  have hbounds := branchSpan?_bounds h hs hspan
  unfold Frames
  omega

/-- The branches of an if that can be exchanged are parts of two of its children, one of them the
alternative, and do not clash. -/
theorem invertible?_bounds (h : root.Tiled) (hs : (Site.top root).Within s)
    (hspans : g.invertible? s = some spans) :
    (s.span.start ≤ spans.1.start ∧ spans.1.start ≤ spans.1.stop ∧ spans.1.stop ≤ s.span.stop) ∧
      (s.span.start ≤ spans.2.start ∧ spans.2.start ≤ spans.2.stop ∧
        spans.2.stop ≤ s.span.stop) ∧
      spans.1.Apart spans.2 := by
  obtain ⟨alternative, body, consequence, hone, -, -, hbody, -, hconsequence, hthen, helse,
    hoverlap⟩ := invertible?_eq_some hspans
  have hfield : alternative ∈ s.childrenByField "alternative" := by simp [hone]
  have halternative := Site.mem_children_of_mem_childrenByField hfield
  have hthenChild : s.Within consequence :=
    .child .self (Site.mem_children_of_childByField? hconsequence)
  have helseChild : s.Within body :=
    (Site.Within.child .self halternative).trans (Target.within_elseBody? hbody)
  have hthenIn := h.start_le_and_stop_le hs hthenChild
  have helseIn := h.start_le_and_stop_le hs helseChild
  have hthenSpan := branchSpan?_bounds h (hs.trans hthenChild) hthen
  have helseSpan := branchSpan?_bounds h (hs.trans helseChild) helse
  refine ⟨by omega, by omega, ?_⟩
  exact (Span.overlaps_eq_false_iff hthenSpan.2.1 helseSpan.2.1).1 hoverlap

/-- A further if below an if that can be exchanged is inside a branch of it, or shares no byte
with the branch. -/
theorem invertible?_frames (h : root.Tiled) (hs : (Site.top root).Within s)
    (hspans : g.invertible? s = some spans) (hx : s.Within x) (hne : x ≠ s)
    (hif : g.isIf x.kind = true) (hinline : g.inlineBranchKinds.contains x.kind = false) :
    Frames spans.1 x ∧ Frames spans.2 x := by
  obtain ⟨alternative, body, consequence, hone, -, hnoIf, hbody, hbodyNoIf, hconsequence, hthen,
    helse, -⟩ := invertible?_eq_some hspans
  have hfield : alternative ∈ s.childrenByField "alternative" := by simp [hone]
  have halternative := Site.mem_children_of_mem_childrenByField hfield
  have hthenChild := Site.mem_children_of_childByField? hconsequence
  have helseBody := Target.within_elseBody? hbody
  -- nothing but s itself and what is above it stands above a child of s
  have habove : ∀ c ∈ s.children, x.Within c → x = c := by
    intro c hc hxc
    rcases hxc.eq_or_above hc with hxc | hxs
    · exact hxc
    · exact absurd (hxs.antisymm hx) hne
  constructor
  · have hroot : (Site.top root).Within consequence := .child hs hthenChild
    rcases h.within_or_apart hs (.child .self hthenChild) hx with hbelow | hup | hapart
    · apply branchSpan?_frames h hroot hthen hbelow
      rintro rfl
      exact hinline
    · rw [habove consequence hthenChild hup] at hinline ⊢
      exact branchSpan?_frames h hroot hthen .self fun _ => hinline
    · exact frames_of_apart h hroot hthen hapart
  · have hroot : (Site.top root).Within body := hs.trans ((Site.Within.child .self
      halternative).trans helseBody)
    have hnotBody : x ≠ body := by
      rintro rfl
      rw [hif] at hbodyNoIf
      cases hbodyNoIf
    have hnotAlternative : x ≠ alternative := by
      rintro rfl
      rw [hif] at hnoIf
      cases hnoIf
    rcases h.within_or_apart hs ((Site.Within.child .self halternative).trans helseBody) hx with
      hbelow | hup | hapart
    · exact branchSpan?_frames h hroot helse hbelow fun heq => absurd heq hnotBody
    · -- the body is the alternative or a child of it, and neither is an if
      rcases Target.elseBody?_eq_or_child hbody with rfl | hchild
      · exact absurd (habove _ halternative hup) hnotBody
      · rcases hup.eq_or_above hchild with heq | hup
        · exact absurd heq hnotBody
        · exact absurd (habove _ halternative hup) hnotAlternative
    · exact frames_of_apart h hroot helse hapart

/-! ## Exchanges -/

/-- The edits that exchange the branches of an if, when it has two plain ones. -/
def exchange (g : Grammar) (source : Text) (s : Site) : List Edit :=
  match g.invertible? s with
  | some (thenSpan, elseSpan) =>
    [⟨thenSpan, elseSpan.text source⟩, ⟨elseSpan, thenSpan.text source⟩]
  | none => []

/-- Whether a site lies in one of the branches of an if that can be exchanged. -/
def InBranch (g : Grammar) (s x : Site) : Prop :=
  ∃ spans, g.invertible? s = some spans ∧
    (spans.1.contains x.span = true ∨ spans.2.contains x.span = true)

section Exchange

variable {a b : Site} {source : Text}

theorem exchange_eq (source : Text) (h : g.invertible? s = some spans) :
    g.exchange source s = [⟨spans.1, spans.2.text source⟩, ⟨spans.2, spans.1.text source⟩] := by
  rw [exchange, h]

theorem exists_of_exchange_ne_nil (h : g.exchange source s ≠ []) :
    ∃ spans, g.invertible? s = some spans := by
  cases hspans : g.invertible? s with
  | some spans => exact ⟨spans, rfl⟩
  | none =>
    rw [exchange, hspans] at h
    exact absurd rfl h

/-- An exchange writes what it takes away. -/
theorem exchange_perm (g : Grammar) (source : Text) (s : Site) :
    ((g.exchange source s).map fun x => x.replacement).Perm
      ((g.exchange source s).map fun x => x.span.text source) := by
  cases hspans : g.invertible? s with
  | some spans =>
    rw [exchange_eq source hspans]
    exact .swap _ _ _
  | none =>
    rw [exchange, hspans]
    exact .nil

theorem span_of_mem_exchange {x : Edit} (hx : x ∈ g.exchange source s) :
    ∃ spans, g.invertible? s = some spans ∧ (x.span = spans.1 ∨ x.span = spans.2) := by
  obtain ⟨spans, hspans⟩ := exists_of_exchange_ne_nil (List.ne_nil_of_mem hx)
  rw [exchange_eq source hspans] at hx
  refine ⟨spans, hspans, ?_⟩
  rcases List.mem_cons.1 hx with rfl | hx
  · exact .inl rfl
  · rw [List.mem_singleton.1 hx]
    exact .inr rfl

theorem exchange_inside (h : root.Tiled) (hs : (Site.top root).Within s) {x : Edit}
    (hx : x ∈ g.exchange source s) :
    s.span.start ≤ x.span.start ∧ x.span.start ≤ x.span.stop ∧ x.span.stop ≤ s.span.stop := by
  obtain ⟨spans, hspans, hx⟩ := span_of_mem_exchange hx
  obtain ⟨hthen, helse, -⟩ := invertible?_bounds h hs hspans
  rcases hx with hx | hx
  · rw [hx]
    exact hthen
  · rw [hx]
    exact helse

/-- Where the exchanges of two ifs do not clash, neither if is in a branch of the other. -/
theorem not_inBranch (h : root.Tiled) (hb : (Site.top root).Within b)
    (hspans : g.invertible? b = some spans)
    (hapart : ∀ x ∈ g.exchange source a, ∀ y ∈ g.exchange source b, x.span.Apart y.span) :
    ¬ g.InBranch a b := by
  obtain ⟨hthen, helse, hdistinct⟩ := invertible?_bounds h hb hspans
  rintro ⟨around, haround, hin⟩
  rw [exchange_eq source haround, exchange_eq source hspans] at hapart
  simp only [List.forall_mem_cons] at hapart
  obtain ⟨⟨hone, htwo, -⟩, ⟨hthree, hfour, -⟩, -⟩ := hapart
  rcases hin with hin | hin
  · exact Span.not_contains_of_apart hthen helse hdistinct hone htwo hin
  · exact Span.not_contains_of_apart hthen helse hdistinct hthree hfour hin

/-- An exchange clashes with an earlier one only if it is in a branch of it, when no branch is
empty. -/
theorem inBranch_of_overlaps (h : root.Tiled) (ha : (Site.top root).Within a)
    (hb : (Site.top root).Within b) (hab : a.Precedes b) (hif : g.isIf b.kind = true)
    (hinline : g.inlineBranchKinds.contains b.kind = false) {x y : Edit}
    (hx : x ∈ g.exchange source a) (hy : y ∈ g.exchange source b)
    (hxne : x.span.start < x.span.stop) (hyne : y.span.start < y.span.stop)
    (hclash : x.span.overlaps y.span = true) : g.InBranch a b := by
  obtain ⟨around, haround, hspan⟩ := span_of_mem_exchange hx
  have hxin := exchange_inside h ha hx
  have hyin := exchange_inside h hb hy
  have hclash : ¬ x.span.Apart y.span := by
    intro hapart
    rw [(Span.overlaps_eq_false_iff hxin.2.1 hyin.2.1).2 hapart] at hclash
    cases hclash
  unfold Span.Apart Span.Before at hclash
  rcases hab.within_or_behind with hbelow | hbehind
  · obtain ⟨hthen, helse⟩ := invertible?_frames h ha haround hbelow hab.ne hif hinline
    refine ⟨around, haround, ?_⟩
    rcases hspan with hspan | hspan
    · rw [← hspan] at hthen ⊢
      unfold Frames at hthen
      exact .inl (hthen.resolve_right (by omega))
    · rw [← hspan] at helse ⊢
      unfold Frames at helse
      exact .inr (helse.resolve_right (by omega))
  · omega

end Exchange
end Grammar

/-- No if of a language is a branch that starts with a keyword. -/
theorem Language.inlineBranchKinds_of_isIf (l : Language) :
    ∀ k ∈ l.dialect.grammar.ifKinds,
      l.dialect.grammar.inlineBranchKinds.contains k = false := by
  cases l <;> decide

/-! ## The loop -/

namespace Target

variable {t : Target} {p : Float} {root : Node}

/-- One step takes an if whole, or leaves it. -/
theorem returns_invertStep (h : root.Tiled) {s : Site} (hs : (Site.top root).Within s)
    {done taken : List Site} {edits : EditList} (hearlier : ∀ b ∈ done, b.Precedes s)
    (hdone : EditList.Selects (t.grammar.exchange t.source) Site.Precedes ((p == 1.0) = true)
      done edits taken) :
    Attempt.Returns (fun edits' => ∃ taken',
      EditList.Selects (t.grammar.exchange t.source) Site.Precedes ((p == 1.0) = true)
        (done ++ [s]) edits' taken') (t.invertStep p edits s) := by
  unfold invertStep
  cases hspans : t.grammar.invertible? s with
  | none =>
    have hnone : t.grammar.exchange t.source s = [] := by rw [Grammar.exchange, hspans]
    exact Attempt.returns_pure ⟨taken, hdone.skip fun _ => .inl hnone⟩
  | some spans =>
    have hblock := Grammar.exchange_eq t.source hspans
    obtain ⟨hthen, helse, hdistinct⟩ := Grammar.invertible?_bounds h hs hspans
    dsimp only
    split
    · rename_i hclash
      apply Attempt.returns_pure
      refine ⟨taken, hdone.skip fun _ => .inr ?_⟩
      rcases Bool.or_eq_true_iff.1 hclash with hclash | hclash
      · have hmem : ⟨spans.1, spans.2.text t.source⟩ ∈ t.grammar.exchange t.source s := by
          simp [hblock]
        exact hdone.exists_clash hearlier hmem hclash
      · have hmem : ⟨spans.2, spans.1.text t.source⟩ ∈ t.grammar.exchange t.source s := by
          simp [hblock]
        exact hdone.exists_clash hearlier hmem hclash
    · rename_i hclear
      simp only [Bool.or_eq_true, not_or, Bool.not_eq_true] at hclear
      refine Attempt.returns_bind (Attempt.returns_flip p) ?_
      intro flipped hflipped
      split
      · -- what does not clash is pushed, and the second branch does not clash with the first
        have hone := hdone.separated.push_of_clear (e := ⟨spans.1, spans.2.text t.source⟩)
          hthen.2.1 hclear.1
        have hsep := hdone.separated.push hone
        have hclear' : (⟨edits.toList ++ [⟨spans.1, spans.2.text t.source⟩]⟩ :
            EditList).overlaps spans.2 = false := by
          have hoverlap := (Span.overlaps_eq_false_iff hthen.2.1 helse.2.1).2 hdistinct
          have hedits : edits.toList.any (fun x => x.span.overlaps spans.2) = false := hclear.2
          rw [EditList.overlaps, List.any_append, hedits]
          simpa using hoverlap
        have hboth := hsep.push_of_clear (e := ⟨spans.2, spans.1.text t.source⟩)
          helse.2.1 hclear'
        rw [hone]
        dsimp only
        rw [hboth]
        apply Attempt.returns_pure
        exact ⟨taken ++ [s], hdone.take (by simp [hblock]) (by simp [hblock]) (hsep.push hboth)⟩
      · rename_i hnot
        exact Attempt.returns_pure ⟨taken, hdone.skip fun hone => absurd (hflipped hone) hnot⟩

theorem returns_invertBranches_selects (h : root.Tiled) (hsite : (Site.top root).Within t.site) :
    Attempt.Returns (fun edits => ∃ taken,
      EditList.Selects (t.grammar.exchange t.source) Site.Precedes ((p == 1.0) = true)
        (t.site.descendantsOfKinds t.grammar.ifKinds) edits taken) (t.invertBranches p) := by
  apply Attempt.returns_foldlM_selects (h.descendantsOfKinds_precedes hsite _)
  intro s hs done edits taken hearlier hdone
  have hwithin := hsite.trans (Site.mem_descendantsOfKinds.1 hs).1
  exact returns_invertStep h hwithin hearlier hdone

/-- An if of the target with two branches that can be exchanged. -/
structure Invertible (t : Target) (s : Site) : Prop where
  within : t.site.Within s
  named : s.named = true
  kind : s.kind ∈ t.grammar.ifKinds
  branches : ∃ spans, t.grammar.invertible? s = some spans

section Selected

variable {greedy : Prop} {edits : EditList} {ifs : List Site}
  (hifs : EditList.Selects (t.grammar.exchange t.source) Site.Precedes greedy
    (t.site.descendantsOfKinds t.grammar.ifKinds) edits ifs)

include hifs

theorem invertible_of_selects : ∀ s ∈ ifs, t.Invertible s := by
  intro s hs
  obtain ⟨hwithin, hnamed, hkind⟩ := Site.mem_descendantsOfKinds.1 (hifs.sublist.subset hs)
  exact ⟨hwithin, hnamed, hkind, Grammar.exists_of_exchange_ne_nil (hifs.proper s hs)⟩

variable (h : root.Tiled) (hsite : (Site.top root).Within t.site)

include h hsite

theorem not_inBranch_of_selects :
    ∀ a ∈ ifs, ∀ b ∈ ifs, a ≠ b → ¬ t.grammar.InBranch a b := by
  intro a ha b hb hne
  have hib := invertible_of_selects hifs b hb
  obtain ⟨spans, hspans⟩ := hib.branches
  apply Grammar.not_inBranch h (hsite.trans hib.within) hspans
  rcases eq_or_rel_of_pairwise hifs.apart ha hb with heq | hab | hba
  · exact absurd heq hne
  · exact hab
  · intro x hx y hy
    exact (hba y hy x hx).symm

/-- Without flips that decide against it, an if is left only for a branch around it. -/
theorem mem_iff_of_selects {l : Language} (hl : t.grammar = l.dialect.grammar) (hgreedy : greedy)
    (hbranches : ∀ s, t.Invertible s → ∀ spans, t.grammar.invertible? s = some spans →
      spans.1.start < spans.1.stop ∧ spans.2.start < spans.2.stop) (s : Site) :
    s ∈ ifs ↔ t.Invertible s ∧ ∀ a ∈ ifs, a.path < s.path → ¬ t.grammar.InBranch a s := by
  have hnonempty : ∀ a, t.Invertible a → ∀ x ∈ t.grammar.exchange t.source a,
      x.span.start < x.span.stop := by
    intro a ha x hx
    obtain ⟨spans, hspans, hx⟩ := Grammar.span_of_mem_exchange hx
    obtain ⟨hthen, helse⟩ := hbranches a ha spans hspans
    rcases hx with hx | hx
    · rw [hx]
      exact hthen
    · rw [hx]
      exact helse
  constructor
  · intro hs
    refine ⟨invertible_of_selects hifs s hs, ?_⟩
    intro a ha hlt
    apply not_inBranch_of_selects hifs h hsite a ha s hs
    rintro rfl
    exact List.lt_irrefl _ hlt
  · rintro ⟨hs, hout⟩
    obtain ⟨spans, hspans⟩ := hs.branches
    have hmem : s ∈ t.site.descendantsOfKinds t.grammar.ifKinds :=
      Site.mem_descendantsOfKinds.2 ⟨hs.within, hs.named, hs.kind⟩
    rcases hifs.maximal hgreedy s hmem with htaken | hnone | ⟨a, ha, has, x, hx, y, hy, hclash⟩
    · exact htaken
    · rw [Grammar.exchange_eq t.source hspans] at hnone
      cases hnone
    · have hia := invertible_of_selects hifs a ha
      have hif : t.grammar.isIf s.kind = true := by simpa [Grammar.isIf] using hs.kind
      have hinline : t.grammar.inlineBranchKinds.contains s.kind = false := by
        have hkind := hs.kind
        rw [hl] at hkind ⊢
        exact l.inlineBranchKinds_of_isIf s.kind hkind
      have hin := Grammar.inBranch_of_overlaps h (hsite.trans hia.within) (hsite.trans hs.within)
        has hif hinline hx hy (hnonempty a hia x hx) (hnonempty s hs y hy) hclash
      exact absurd hin (hout a ha has.path_lt)

end Selected
end Target

/-! ## Modifiers -/

namespace Modifier

/-- The inversion of conditionals makes whole exchanges only. What it shows of an entity is, before
it is dedented, the text with the branches of some ifs exchanged, none of them in a branch of
another, so that all bytes are kept. At likelihood 1, when no branch is empty, these are all ifs
but those in a branch of one before them. -/
theorem modify_exchanges_branches (m : Modifier) (hm : m.strategy = .invertBranches) (e : Entity)
    (hroot : e.handle.root.Tiled) (w : Mutant) (hw : (m.modify e).1 = some w) :
    ∃ t ifs r, e.target? = some t ∧ ifs ≠ [] ∧ (∀ s ∈ ifs, t.Invertible s) ∧
      ifs.Pairwise (fun a b => a.path < b.path) ∧
      (∀ a ∈ ifs, ∀ b ∈ ifs, a ≠ b → ¬ t.grammar.InBranch a b) ∧
      w.code = Text.dedent r e.indent ∧
      e.Edited (ifs.flatMap (t.grammar.exchange t.source)) r ∧
      r.size = e.raw.size ∧ r.bytes.Perm e.raw.bytes ∧
      ((m.likelihood == 1.0) = true →
        (∀ s, t.Invertible s → ∀ spans, t.grammar.invertible? s = some spans →
          spans.1.start < spans.1.stop ∧ spans.2.start < spans.2.stop) →
        ∀ s, s ∈ ifs ↔ t.Invertible s ∧
          ∀ a ∈ ifs, a.path < s.path → ¬ t.grammar.InBranch a s) := by
  obtain ⟨t, edits, ht, ⟨ifs, hifs⟩, hcode⟩ := exists_edits_of_modify (by rw [hm]; rfl)
    (fun t ht => t.returns_invertBranches_selects hroot (Entity.of_target?_eq_some ht).1) hw
  obtain ⟨hsite, hspan, hsource, hdialect⟩ := Entity.of_target?_eq_some ht
  have hgrammar : t.grammar = e.language.dialect.grammar := congrArg Dialect.grammar hdialect
  have htwo : ∀ s, t.grammar.exchange t.source s ≠ [] →
      2 ≤ (t.grammar.exchange t.source s).length := by
    intro s hs
    obtain ⟨spans, hspans⟩ := Grammar.exists_of_exchange_ne_nil hs
    simp [Grammar.exchange_eq t.source hspans]
  have hstop : ∀ s ∈ t.site.descendantsOfKinds t.grammar.ifKinds,
      ∀ x ∈ t.grammar.exchange t.source s, x.span.stop ≤ e.span.stop := by
    intro s hs x hx
    have hwithin := (Site.mem_descendantsOfKinds.1 hs).1
    have hin := hroot.start_le_and_stop_le hsite hwithin
    have hxin := Grammar.exchange_inside hroot (hsite.trans hwithin) hx
    rw [← hspan]
    omega
  obtain ⟨hsome, r, hr, hedited⟩ := Entity.edited_of_selects hifs htwo hstop hcode
  have hperm : r.Perm e.raw := by
    apply hedited.perm
    rw [List.map_flatMap, List.map_flatMap, ← hsource]
    exact List.Perm.flatMap_left _ fun s _ => t.grammar.exchange_perm t.source s
  have hpath : ifs.Pairwise fun a b => a.path < b.path :=
    ((hroot.descendantsOfKinds_precedes hsite _).sublist hifs.sublist).imp fun hab => hab.path_lt
  exact ⟨t, ifs, r, ht, hsome, Target.invertible_of_selects hifs, hpath,
    Target.not_inBranch_of_selects hifs hroot hsite, hr, hedited,
    Text.size_eq_of_perm hperm, Text.bytes_perm hperm,
    fun hone hbranches => Target.mem_iff_of_selects hifs hroot hsite hgrammar hone hbranches⟩

/-- The if of a function shows its else branch first. -/
theorem modify_exchanges_branches_branching :
    ∃ e ∈ Language.python.dialect.extract ⟨"f.py", branchingText, .branching⟩ none,
      (((ofStrategy .invertBranches .python 0).setLikelihood 1.0).modify e).1 =
          some ⟨"def f():\n if x:\n  b\n else:\n  a".toList, .invertBranches⟩ ∧
        ∃ t ifs r, e.target? = some t ∧ ifs ≠ [] ∧ (∀ s ∈ ifs, t.Invertible s) ∧
          "def f():\n if x:\n  b\n else:\n  a".toList = Text.dedent r e.indent ∧
          e.Edited (ifs.flatMap (t.grammar.exchange t.source)) r ∧ r.bytes.Perm e.raw.bytes := by
  have hfound : ∃ e ∈ Language.python.dialect.extract ⟨"f.py", branchingText, .branching⟩ none,
      (((ofStrategy .invertBranches .python 0).setLikelihood 1.0).modify e).1 =
        some ⟨"def f():\n if x:\n  b\n else:\n  a".toList, .invertBranches⟩ := by
    simp only [modify, Strategy.run, Entity.mutated?_eq_changed?]
    decide +kernel
  obtain ⟨e, he, hw⟩ := hfound
  have hroot : e.handle.root.Tiled := by
    rw [(Entity.handle_of_mem_extract he).1]
    exact Node.nested_branching.tiled
  obtain ⟨t, ifs, r, ht, hsome, hifs, -, -, hr, hedited, -, hbytes, -⟩ :=
    modify_exchanges_branches _ rfl e hroot _ hw
  exact ⟨e, he, hw, t, ifs, r, ht, hsome, hifs, hr, hedited, hbytes⟩

end Modifier
end Mutagen
