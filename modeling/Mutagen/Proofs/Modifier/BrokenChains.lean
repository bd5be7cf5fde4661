import Mathlib.Algebra.Order.BigOperators.Group.List
import Mathlib.Algebra.Order.Group.Nat
import Mutagen.Proofs.Modifier.ExchangedOperands
import Mutagen.Proofs.Text.Solid

/-!
# Broken chains

A chain is a binary expression with an operand that is one too. Breaking it leaves an
operand of the operand, so that the operator of the chain is dropped, and with it a
character that is not blank. Dedenting cannot bring it back. So at likelihood 1 every
entity with a chain has a mutant, in which the outermost chains are broken.
-/
namespace Mutagen

/-- Edits that write fewer characters that are not blank than they take away leave fewer. -/
theorem Entity.Edited.solid_lt {e : Entity} {es : List Edit} {r : Text} (h : e.Edited es r)
    (hne : es ≠ [])
    (hless : ∀ x ∈ es, x.replacement.solid < (x.span.text e.handle.source).solid) :
    r.solid < e.raw.solid := by
  have hsolid := Text.solid_eq_of_perm h.conserves
  simp only [Text.solid_append, Text.solid_flatten, List.map_map] at hsolid
  have hsum := List.sum_lt_sum_of_ne_nil hne _ _ hless
  change r.solid + (es.map fun x => (x.span.text e.handle.source).solid).sum =
    e.raw.solid + (es.map fun x => x.replacement.solid).sum at hsolid
  omega

/-- Fewer characters that are not blank show after dedenting, so there is a mutant. -/
theorem Entity.mutated?_of_solid_lt {e : Entity} {edits rebased : EditList} {r : Text}
    (hindent : ∀ c ∈ e.indent, isBlank c = true) (hcode : e.code = Text.dedent e.raw e.indent)
    (hne : edits.toList ≠ []) (hrebase : edits.rebase e.span.start e.span.len = .ok rebased)
    (happly : rebased.apply e.raw = .ok r) (hlt : r.solid < e.raw.solid) :
    e.mutated? edits = some (Text.dedent r e.indent) ∧
      (Text.dedent r e.indent).solid < e.code.solid := by
  have hshown : (Text.dedent r e.indent).solid < e.code.solid := by
    rw [hcode, Text.solid_dedent hindent, Text.solid_dedent hindent]
    exact hlt
  refine ⟨?_, hshown⟩
  rw [mutated?_eq_of_apply hrebase happly, if_neg]
  rintro (hempty | hsame)
  · exact hne (List.isEmpty_iff.1 hempty)
  · rw [hsame] at hshown
    exact Nat.lt_irrefl _ hshown

namespace Target

variable {t : Target} {a b : Site × BinaryParts} {root : Node}

/-! ## Chains -/

/-- The expression has an operand that is a binary expression with parts, whatever parentheses are
around it. The right one counts only beside a left one that is no binary expression. -/
def Chained (t : Target) (parts : BinaryParts) : Prop :=
  let left := parts.left.unwrapParens t.grammar.parenKinds
  let right := parts.right.unwrapParens t.grammar.parenKinds
  (t.grammar.isBinary left.kind = true ∧ ∃ inner, left.binaryParts? = some inner) ∨
    (t.grammar.isBinary left.kind = false ∧ t.grammar.isBinary right.kind = true ∧
      ∃ inner, right.binaryParts? = some inner)

/-- What is left of a chain is there exactly when it is one. -/
theorem chained_iff {parts : BinaryParts} :
    t.Chained parts ↔ ∃ kept, t.keptOperand? parts = some kept := by
  unfold Chained keptOperand?
  dsimp only
  cases t.grammar.isBinary (parts.left.unwrapParens t.grammar.parenKinds).kind with
  | true => simp
  | false =>
    cases t.grammar.isBinary (parts.right.unwrapParens t.grammar.parenKinds).kind with
    | true => simp
    | false => simp

/-- The edit that breaks a chain. -/
def breakEdits (t : Target) (b : Site × BinaryParts) : List Edit :=
  match t.keptOperand? b.2 with
  | some kept => [⟨b.1.span, t.text kept⟩]
  | none => []

theorem breakEdits_eq {kept : Site} (h : t.keptOperand? b.2 = some kept) :
    t.breakEdits b = [⟨b.1.span, t.text kept⟩] := by
  rw [breakEdits, h]

theorem exists_kept_of_breakEdits (h : t.breakEdits b ≠ []) :
    ∃ kept, t.keptOperand? b.2 = some kept := by
  cases hkept : t.keptOperand? b.2 with
  | some kept => exact ⟨kept, rfl⟩
  | none =>
    rw [breakEdits, hkept] at h
    exact absurd rfl h

section Tiled

variable (h : root.Tiled) (hsite : (Site.top root).Within t.site)
  (hfit : ∀ x, (Site.top root).Within x → x.span.Fits t.source)
  (hops : ∀ b ∈ t.binaries, ∃ c ∈ t.text b.2.operator, isBlank c = false)

include h hsite hfit hops

/-- What is left of a chain has fewer characters that are not blank: the operator stands outside
of it. -/
theorem solid_kept_lt (hb : b ∈ t.binaries) {kept : Site}
    (hkept : t.keptOperand? b.2 = some kept) : (t.text kept).solid < (t.text b.1).solid := by
  obtain ⟨hwithin, -, -, hparts⟩ := mem_binaries.1 hb
  obtain ⟨hleft, hoperator, hright⟩ := Site.mem_children_of_binaryParts? hparts
  obtain ⟨hneLeft, hneRight⟩ := Site.operands_ne_operator hparts
  have hroot := hsite.trans hwithin
  obtain ⟨operand, hoperand, hne, hbelow⟩ :
      ∃ operand ∈ b.1.children, operand ≠ b.2.operator ∧ operand.Within kept := by
    rcases keptOperand?_below hkept with hbelow | hbelow
    · exact ⟨b.2.left, hleft, hneLeft, hbelow⟩
    · exact ⟨b.2.right, hright, hneRight, hbelow⟩
  obtain ⟨c, hc, hblank⟩ := hops b hb
  have hsolid : 0 < (b.2.operator.span.text t.source).solid := Text.solid_pos hc hblank
  have hin := h.start_le_and_stop_le hroot (.child .self hoperand)
  have hopin := h.start_le_and_stop_le hroot (.child .self hoperator)
  have hkin := h.start_le_and_stop_le (.child hroot hoperand) hbelow
  have hkfit := hfit kept ((Site.Within.child hroot hoperand).trans hbelow)
  have hofit := hfit b.2.operator (.child hroot hoperator)
  change (kept.span.text t.source).solid < (b.1.span.text t.source).solid
  rcases (h.children_apart hroot hoperand hoperator).resolve_left hne with hbefore | hbehind
  · have hle := hkfit.solid_add_le hofit (hfit b.1 hroot) (by omega) (by omega) hopin.2
    omega
  · have hle := hofit.solid_add_le hkfit (hfit b.1 hroot) hopin.1 (by omega) (by omega)
    omega

/-- What is left of a chain lies strictly inside of it. -/
theorem kept_inside (hb : b ∈ t.binaries) {kept : Site} (hkept : t.keptOperand? b.2 = some kept) :
    b.1.span.contains kept.span = true ∧ kept.span ≠ b.1.span := by
  have hlt := solid_kept_lt h hsite hfit hops hb hkept
  obtain ⟨hwithin, -, -, hparts⟩ := mem_binaries.1 hb
  obtain ⟨hleft, -, hright⟩ := Site.mem_children_of_binaryParts? hparts
  have hbelow : b.1.Within kept := by
    rcases keptOperand?_below hkept with hbelow | hbelow
    · exact (Site.Within.child .self hleft).trans hbelow
    · exact (Site.Within.child .self hright).trans hbelow
  refine ⟨Span.contains_iff.2 (h.start_le_and_stop_le (hsite.trans hwithin) hbelow), ?_⟩
  intro heq
  rw [text, text, Site.text, Site.text, heq] at hlt
  omega

theorem start_lt_stop_of_chained (hb : b ∈ t.binaries) (hchain : t.Chained b.2) :
    b.1.span.start < b.1.span.stop := by
  obtain ⟨kept, hkept⟩ := chained_iff.1 hchain
  have hlt := solid_kept_lt h hsite hfit hops hb hkept
  have hord := h.start_le_stop (hsite.trans (mem_binaries.1 hb).1)
  rcases Nat.lt_or_ge b.1.span.start b.1.span.stop with hne | hempty
  · exact hne
  · have hnone : t.text b.1 = [] := by
      rw [text, Site.text, Span.text, Nat.le_antisymm hempty hord]
      exact Text.slice_self _ _
    rw [hnone] at hlt
    cases hlt

end Tiled

/-! ## The loop -/

/-- At likelihood 1 a step breaks a chain, unless it clashes with one that is broken. -/
theorem always_breakStep {p : Float} (hp : (p == 1.0) = true) (h : root.Tiled)
    (hroot : (Site.top root).Within b.1) {done taken : List (Site × BinaryParts)}
    {edits : EditList} (hearlier : ∀ a ∈ done, a.1.Precedes b.1)
    (hdone : EditList.Selects t.breakEdits (fun a b => a.1.Precedes b.1) True done edits taken) :
    Draw.Always (fun edits' => ∃ taken',
      EditList.Selects t.breakEdits (fun a b => a.1.Precedes b.1) True (done ++ [b]) edits' taken')
      (t.breakStep p edits b) := by
  unfold breakStep
  cases hkept : t.keptOperand? b.2 with
  | none =>
    have hnone : t.breakEdits b = [] := by rw [breakEdits, hkept]
    have hskip := hdone.skip (a := b) fun _ => .inl hnone
    split <;> exact Draw.always_pure ⟨taken, hskip⟩
  | some kept =>
    have hblock := breakEdits_eq hkept
    split
    · rename_i hclash
      have hmem : ⟨b.1.span, t.text kept⟩ ∈ t.breakEdits b := by simp [hblock]
      apply Draw.always_pure
      exact ⟨taken, hdone.skip fun _ => .inr (hdone.exists_clash hearlier hmem hclash)⟩
    · rename_i hclear
      have hpush := hdone.separated.push_of_clear (e := ⟨b.1.span, t.text kept⟩)
        (h.start_le_stop hroot) (by simpa using hclear)
      dsimp only
      rw [Draw.flip_eq_pure_true hp, EditList.offer, hpush]
      apply Draw.always_pure
      exact ⟨taken ++ [b],
        hdone.take (by simp [hblock]) (by simp [hblock]) (hdone.separated.push hpush)⟩

theorem always_breakChains_selects {p : Float} (hp : (p == 1.0) = true) (h : root.Tiled)
    (hsite : (Site.top root).Within t.site) :
    Draw.Always (fun edits => ∃ chains,
      EditList.Selects t.breakEdits (fun a b => a.1.Precedes b.1) True t.binaries edits chains)
      (t.breakChains p) := by
  apply Draw.always_foldlM_selects (binaries_precede h hsite)
  intro b hb done edits taken hearlier hdone
  exact always_breakStep hp h (hsite.trans (mem_binaries.1 hb).1) hearlier hdone

section Selected

variable (h : root.Tiled) (hsite : (Site.top root).Within t.site)
  (hfit : ∀ x, (Site.top root).Within x → x.span.Fits t.source)
  (hops : ∀ b ∈ t.binaries, ∃ c ∈ t.text b.2.operator, isBlank c = false)
  {edits : EditList} {chains : List (Site × BinaryParts)}
  (hchains : EditList.Selects t.breakEdits (fun a b => a.1.Precedes b.1) True t.binaries
    edits chains)

include hchains in
theorem chained_of_selects (hb : b ∈ chains) : b ∈ t.binaries ∧ t.Chained b.2 :=
  ⟨hchains.sublist.subset hb, chained_iff.2 (exists_kept_of_breakEdits (hchains.proper b hb))⟩

include hchains in
/-- Every edit breaks a chain. -/
theorem exists_chain_of_mem {x : Edit} (hx : x ∈ edits.toList) :
    ∃ b ∈ t.binaries, ∃ kept, t.keptOperand? b.2 = some kept ∧
      x = ⟨b.1.span, t.text kept⟩ := by
  rw [hchains.toList_eq] at hx
  obtain ⟨b, hb, hx⟩ := List.mem_flatMap.1 hx
  obtain ⟨hbmem, hbchain⟩ := chained_of_selects hchains hb
  obtain ⟨kept, hkept⟩ := chained_iff.1 hbchain
  rw [breakEdits_eq hkept, List.mem_singleton] at hx
  exact ⟨b, hbmem, kept, hkept, hx⟩

include h hsite hfit hops hchains

/-- No chain that is broken is in another one. -/
theorem not_within_of_selects (ha : a ∈ chains) (hb : b ∈ chains) (hne : a.1 ≠ b.1) :
    ¬ a.1.Within b.1 := by
  intro hwithin
  obtain ⟨hamem, hachain⟩ := chained_of_selects hchains ha
  obtain ⟨hbmem, hbchain⟩ := chained_of_selects hchains hb
  obtain ⟨akept, hakept⟩ := chained_iff.1 hachain
  obtain ⟨bkept, hbkept⟩ := chained_iff.1 hbchain
  have hin := h.start_le_and_stop_le (hsite.trans (mem_binaries.1 hamem).1) hwithin
  have hnonempty := start_lt_stop_of_chained h hsite hfit hops hbmem hbchain
  have hax : (⟨a.1.span, t.text akept⟩ : Edit) ∈ t.breakEdits a := by simp [breakEdits_eq hakept]
  have hbx : (⟨b.1.span, t.text bkept⟩ : Edit) ∈ t.breakEdits b := by simp [breakEdits_eq hbkept]
  have hapart : a.1.span.Apart b.1.span := by
    rcases eq_or_rel_of_pairwise hchains.apart ha hb with rfl | hab | hba
    · exact absurd rfl hne
    · exact hab _ hax _ hbx
    · exact (hba _ hbx _ hax).symm
  unfold Span.Apart Span.Before at hapart
  omega

/-- A chain that is not broken is in one that is. -/
theorem exists_around_of_selects (hb : b ∈ t.binaries) (hchain : t.Chained b.2)
    (hnot : b ∉ chains) : ∃ a ∈ chains, a.1.Within b.1 ∧ a.1 ≠ b.1 := by
  obtain ⟨kept, hkept⟩ := chained_iff.1 hchain
  rcases hchains.maximal trivial b hb with hmem | hnone | ⟨a, ha, hab, x, hx, y, hy, hclash⟩
  · exact absurd hmem hnot
  · rw [breakEdits_eq hkept] at hnone
    cases hnone
  · obtain ⟨hamem, hachain⟩ := chained_of_selects hchains ha
    obtain ⟨akept, hakept⟩ := chained_iff.1 hachain
    have hanonempty := start_lt_stop_of_chained h hsite hfit hops hamem hachain
    have hord := h.start_le_stop (hsite.trans (mem_binaries.1 hb).1)
    rw [breakEdits_eq hakept, List.mem_singleton] at hx
    rw [breakEdits_eq hkept, List.mem_singleton] at hy
    rw [hx, hy] at hclash
    refine ⟨a, ha, ?_, hab.ne.symm⟩
    rcases hab.within_or_behind with hwithin | hbehind
    · exact hwithin
    · have hapart : a.1.span.Apart b.1.span := .inl ⟨by omega, hbehind⟩
      rw [(Span.overlaps_eq_false_iff (Nat.le_of_lt hanonempty) hord).2 hapart] at hclash
      cases hclash

/-- A chain is broken as soon as there is one. -/
theorem ne_nil_iff_of_selects : chains ≠ [] ↔ ∃ b ∈ t.binaries, t.Chained b.2 := by
  constructor
  · intro hsome
    obtain ⟨b, rest, rfl⟩ := List.exists_cons_of_ne_nil hsome
    exact ⟨b, chained_of_selects hchains List.mem_cons_self⟩
  · rintro ⟨b, hb, hchain⟩ rfl
    obtain ⟨a, ha, -⟩ :=
      exists_around_of_selects h hsite hfit hops hchains hb hchain List.not_mem_nil
    cases ha

/-- The chains that are broken are the outermost ones. -/
theorem mem_chains_iff_of_selects (b : Site × BinaryParts) :
    b ∈ chains ↔ b ∈ t.binaries ∧ t.Chained b.2 ∧
      ∀ a ∈ t.binaries, t.Chained a.2 → a.1.Within b.1 → a.1 = b.1 := by
  constructor
  · intro hb
    obtain ⟨hbmem, hbchain⟩ := chained_of_selects hchains hb
    refine ⟨hbmem, hbchain, ?_⟩
    intro a hamem hachain hwithin
    by_contra hne
    by_cases ha : a ∈ chains
    · exact not_within_of_selects h hsite hfit hops hchains ha hb hne hwithin
    · -- what is around a is around b as well, and another chain than b
      obtain ⟨c, hc, hca, hneca⟩ :=
        exists_around_of_selects h hsite hfit hops hchains hamem hachain ha
      apply not_within_of_selects h hsite hfit hops hchains hc hb _ (hca.trans hwithin)
      intro heq
      rw [heq] at hca
      exact hne (hwithin.antisymm hca)
  · rintro ⟨hb, hchain, houter⟩
    by_contra hnot
    obtain ⟨a, ha, hwithin, hne⟩ :=
      exists_around_of_selects h hsite hfit hops hchains hb hchain hnot
    obtain ⟨hamem, hachain⟩ := chained_of_selects hchains ha
    exact hne (houter a hamem hachain hwithin)

end Selected
end Target

/-! ## Modifiers -/

theorem EditList.fits_of_fits {t : Text} {x : Edit} (h : x.span.Fits t) : fits t x = true := by
  obtain ⟨a, b, ht, ha⟩ := Text.isBoundary_iff.1 h.stop
  have hle : x.span.stop ≤ t.size := by
    rw [ht, Text.size_append]
    omega
  simp [fits, hle, h.start, h.stop]

/-- Chains can be broken in an entity, and it shows in the dedented text. -/
theorem Entity.exists_broken {e : Entity} {t : Target} (ht : e.target? = some t)
    (h : e.handle.root.Tiled)
    (hfit : ∀ x, (Site.top e.handle.root).Within x → x.span.Fits t.source)
    (hops : ∀ b ∈ t.binaries, ∃ c ∈ t.text b.2.operator, isBlank c = false)
    (hindent : ∀ c ∈ e.indent, isBlank c = true) (hcode : e.code = Text.dedent e.raw e.indent)
    {edits : EditList} {chains : List (Site × BinaryParts)}
    (hchains : EditList.Selects t.breakEdits (fun a b => a.1.Precedes b.1) True t.binaries
      edits chains) (hsome : chains ≠ []) :
    ∃ r, e.mutated? edits = some (Text.dedent r e.indent) ∧
      e.Edited (chains.flatMap t.breakEdits) r ∧ r.solid < e.raw.solid ∧
      (Text.dedent r e.indent).solid < e.code.solid := by
  obtain ⟨hsite, hspan, hsource, -⟩ := of_target?_eq_some ht
  have hraw : e.handle.source.slice? e.span.start e.span.stop = some e.raw := by
    have hslice := (hfit t.site hsite).slice?
    rw [hspan, hsource] at hslice
    exact hslice
  have hin : ∀ x ∈ edits.toList, e.span.start ≤ x.span.start ∧ x.span.stop ≤ e.span.stop := by
    intro x hx
    obtain ⟨b, hb, kept, -, rfl⟩ := Target.exists_chain_of_mem hchains hx
    rw [← hspan]
    exact h.start_le_and_stop_le hsite (Target.mem_binaries.1 hb).1
  have hfits : ∀ x ∈ edits.toList, EditList.fits e.handle.source x = true := by
    intro x hx
    obtain ⟨b, hb, kept, -, rfl⟩ := Target.exists_chain_of_mem hchains hx
    rw [← hsource]
    exact EditList.fits_of_fits (hfit b.1 (hsite.trans (Target.mem_binaries.1 hb).1))
  obtain ⟨rebased, r, hrebase, happly, hedited⟩ :=
    exists_edited hchains.separated hraw hin hfits
  have hedits : edits.toList ≠ [] := fun hnone => hsome (hchains.toList_eq_nil_iff.1 hnone)
  have hlt : r.solid < e.raw.solid := by
    apply hedited.solid_lt hedits
    intro x hx
    obtain ⟨b, hb, kept, hkept, rfl⟩ := Target.exists_chain_of_mem hchains hx
    rw [← hsource]
    exact Target.solid_kept_lt h hsite hfit hops hb hkept
  obtain ⟨hmutated, hshown⟩ := mutated?_of_solid_lt hindent hcode hedits hrebase happly hlt
  rw [hchains.toList_eq] at hedited
  exact ⟨r, hmutated, hedited, hlt, hshown⟩

namespace Modifier

theorem modify_breakChains {m : Modifier} (hm : m.strategy = .breakChains) {e : Entity}
    {t : Target} (ht : e.target? = some t) :
    (m.modify e).1 = (e.mutated? (t.breakChains m.likelihood m.generator).1).map
      fun code => ⟨code, m.strategy⟩ := by
  rw [modify_eq_of_draw (fun t => t.breakChains m.likelihood) (by rw [hm]; rfl) ht]

/-- Breaking chains always drops a term. In a nested tree whose operators have a character that is
not blank, at likelihood 1, an entity has a mutant exactly when it has a chain. It shows, before it
is dedented, the text with each outermost chain replaced by an operand strictly inside it, and so
fewer characters that are not blank. -/
theorem modify_breaks_chains (m : Modifier) (hm : m.strategy = .breakChains)
    (hp : (m.likelihood == 1.0) = true) (l : Language) (file : SourceFile)
    (hroot : file.root.Nested)
    (hboundary : ∀ x, (Site.top file.root).Within x →
      file.source.isBoundary x.span.start = true ∧ file.source.isBoundary x.span.stop = true)
    (s : Site) (hs : (Site.top file.root).Within s) (kind : EntityKind) (e : Entity)
    (he : e = l.dialect.build file kind s) (t : Target) (ht : t = ⟨s, file.source, l.dialect⟩)
    (hops : ∀ b ∈ t.binaries, ∃ c ∈ t.text b.2.operator, isBlank c = false) :
    ((m.modify e).1.isSome = true ↔ ∃ b ∈ t.binaries, t.Chained b.2) ∧
      ∀ w, (m.modify e).1 = some w → ∃ (chains : List (Site × BinaryParts)) (r : Text),
        (∀ b, b ∈ chains ↔ b ∈ t.binaries ∧ t.Chained b.2 ∧
          ∀ a ∈ t.binaries, t.Chained a.2 → a.1.Within b.1 → a.1 = b.1) ∧
        (∀ b ∈ chains, ∃ kept, t.keptOperand? b.2 = some kept ∧
          b.1.span.contains kept.span = true ∧ kept.span ≠ b.1.span) ∧
        w.code = Text.dedent r e.indent ∧ e.Edited (chains.flatMap t.breakEdits) r ∧
        r.solid < e.raw.solid ∧ w.code.solid < e.code.solid := by
  subst he ht
  have hfit : ∀ x, (Site.top file.root).Within x → x.span.Fits file.source :=
    fun x hx => ⟨hroot.start_le_stop hx, (hboundary x hx).1, (hboundary x hx).2⟩
  rcases Nat.lt_or_ge s.span.start s.span.stop with hne | hempty
  · have htarget : (l.dialect.build file kind s).target? = some ⟨s, file.source, l.dialect⟩ :=
      Dialect.target?_build hroot hs hne
    obtain ⟨chains, hchains⟩ := Target.always_breakChains_selects (t := ⟨s, file.source, l.dialect⟩)
      hp hroot.tiled hs m.generator
    have houter := Target.mem_chains_iff_of_selects hroot.tiled hs hfit hops hchains
    have hiff := Target.ne_nil_iff_of_selects hroot.tiled hs hfit hops hchains
    rw [modify_breakChains hm htarget, ← hiff]
    by_cases hsome : chains = []
    · have hnone : (l.dialect.build file kind s).mutated?
          ((⟨s, file.source, l.dialect⟩ : Target).breakChains m.likelihood m.generator).1 =
            none := by
        rw [Entity.mutated?, if_pos (by simp [EditList.isEmpty, hchains.toList_eq_nil_iff.2 hsome])]
      simp [hnone, hsome]
    · obtain ⟨r, hmutated, hedited, hlt, hshown⟩ := Entity.exists_broken htarget hroot.tiled hfit
        hops (fun c hc => Text.isBlank_of_mem_lineIndent hc) rfl hchains hsome
      rw [hmutated]
      refine ⟨⟨fun _ => hsome, fun _ => rfl⟩, ?_⟩
      intro w hw
      cases hw
      refine ⟨chains, r, houter, ?_, rfl, hedited, hlt, hshown⟩
      intro b hb
      obtain ⟨hbmem, hbchain⟩ := Target.chained_of_selects hchains hb
      obtain ⟨kept, hkept⟩ := Target.chained_iff.1 hbchain
      exact ⟨kept, hkept, Target.kept_inside hroot.tiled hs hfit hops hbmem hkept⟩
  · -- an empty entity has no operators with text, and no mutant
    have hnone : (m.modify (l.dialect.build file kind s)).1 = none := by
      apply modify_eq_none_of_returns
      rw [hm]
      exact Dialect.returns_run_build_of_empty hroot hs hempty rfl _ _
    have hbare : ∀ b, b ∉ (⟨s, file.source, l.dialect⟩ : Target).binaries := by
      intro b hb
      obtain ⟨c, hc, -⟩ := hops b hb
      rw [Target.text_eq_nil hroot hs hempty (Target.within_of_mem_binaries hb).2.1] at hc
      cases hc
    simp [hnone, hbare]

/-- A function with a sum of three terms, two of them in parentheses. -/
def chainedText : Text := "def f(): return (a + b) + c".toList

/-- The tree of this function. -/
def chainedTree : Node :=
  .ofSpan "module" true none 0 27 [
    .ofSpan "function_definition" true none 0 27 [
      .ofSpan "identifier" true (some "name") 4 5 [],
      .ofSpan "block" true (some "body") 9 27 [
        .ofSpan "return_statement" true none 9 27 [
          .ofSpan "binary_operator" true none 16 27 [
            .ofSpan "parenthesized_expression" true (some "left") 16 23 [
              .ofSpan "(" false none 16 17 [],
              .ofSpan "binary_operator" true none 17 22 [
                .ofSpan "identifier" true (some "left") 17 18 [],
                .ofSpan "+" false (some "operator") 19 20 [],
                .ofSpan "identifier" true (some "right") 21 22 []],
              .ofSpan ")" false none 22 23 []],
            .ofSpan "+" false (some "operator") 24 25 [],
            .ofSpan "identifier" true (some "right") 26 27 []]]]]]

/-- Of the three terms only the first is left. -/
theorem modify_breaks_chains_chained :
    ∃ e ∈ Language.python.dialect.extract ⟨"f.py", chainedText, chainedTree⟩ none,
      (((ofStrategy .breakChains .python 0).setLikelihood 1.0).modify e).1 =
          some ⟨"def f(): return a".toList, .breakChains⟩ ∧
        ∃ (t : Target) (chains : List (Site × BinaryParts)) (r : Text),
          (∃ b ∈ t.binaries, t.Chained b.2) ∧
          "def f(): return a".toList = Text.dedent r e.indent ∧
          e.Edited (chains.flatMap t.breakEdits) r ∧ r.solid < e.raw.solid := by
  have hfound : ∃ e ∈ Language.python.dialect.extract ⟨"f.py", chainedText, chainedTree⟩ none,
      (((ofStrategy .breakChains .python 0).setLikelihood 1.0).modify e).1 =
        some ⟨"def f(): return a".toList, .breakChains⟩ := by
    decide +kernel
  have hlikelihood :
      (((ofStrategy .breakChains .python 0).setLikelihood 1.0).likelihood == 1.0) = true := by
    decide +kernel
  have htree : chainedTree.Nested := by decide +kernel
  have hboundary : ∀ x ∈ (Site.top chainedTree).preorder,
      chainedText.isBoundary x.span.start = true ∧ chainedText.isBoundary x.span.stop = true := by
    decide +kernel
  have hops : ∀ x ∈ (Site.top chainedTree).preorder, ∀ parts ∈ x.binaryParts?,
      (parts.operator.text chainedText).any (fun c => !isBlank c) = true := by
    decide +kernel
  obtain ⟨e, he, hw⟩ := hfound
  obtain ⟨s, kind, hs, -, rfl⟩ := Dialect.mem_extract _ _ he
  obtain ⟨hiff, hmade⟩ := modify_breaks_chains _ rfl hlikelihood .python
    ⟨"f.py", chainedText, chainedTree⟩ htree
    (fun x hx => hboundary x (Site.mem_preorder_iff.2 hx)) s hs kind _ rfl _ rfl (by
      intro b hb
      obtain ⟨hwithin, -, -, hparts⟩ := Target.mem_binaries.1 hb
      have hsome := hops b.1 (Site.mem_preorder_iff.2 (hs.trans hwithin)) b.2 hparts
      simpa [Target.text] using List.any_eq_true.1 hsome)
  obtain ⟨chains, r, -, -, hr, hedited, hlt, -⟩ := hmade _ hw
  exact ⟨_, he, hw, _, chains, r, hiff.1 (by rw [hw]; rfl), hr, hedited, hlt⟩

end Modifier
end Mutagen
