import Mutagen.Proofs.Modifier.FilledBlocks

/-!
# Neutralized calls

With the methods of a class go the calls of them on the same object, which become the null
literal. The edits for the calls are offered after the removals and in document order, so
that one is refused only if it clashes with a removal or with an earlier call. A call that
clashes with the lines of a removed method is in the method, and one that clashes with an
earlier call is in that call. Either way it is covered.
-/
namespace Mutagen

/-- In every language, what means the object itself is not empty and begins with no `;`. -/
theorem Language.head?_selfPrefix (l : Language) :
    ∀ lead ∈ l.dialect.grammar.selfPrefixes, ∃ c ∈ lead.toList.head?, c ≠ ';' := by
  have hall : ∀ lead ∈ l.dialect.grammar.selfPrefixes,
      lead.toList.head?.any (fun c => c != ';') = true := by
    cases l <;> decide +kernel
  intro lead hlead
  obtain ⟨c, hc, hne⟩ := (Option.any_eq_true _ _).1 (hall lead hlead)
  exact ⟨c, hc, bne_iff_ne.1 hne⟩

namespace Target

variable {t : Target} {removed : List Site} {root : Node}

/-! ## Calls -/

/-- A text is a call of a method of the same object: what means the object, the name of the method,
and then nothing or, behind blanks, a parenthesis. -/
def Calls (t : Target) (method : Site) (text : Text) : Prop :=
  ∃ lead ∈ t.grammar.selfPrefixes, ∃ name ∈ t.memberName? method, ∃ rest,
    text = lead.toList ++ name ++ rest ∧ (rest = [] ∨ (Text.trimStart rest).head? = some '(')

theorem callsOneOf_iff {text : Text} :
    t.callsOneOf (removed.filterMap t.memberName?) text = true ↔
      ∃ method ∈ removed, t.Calls method text := by
  unfold callsOneOf Calls
  simp only [List.any_eq_true, List.mem_filterMap]
  constructor
  · rintro ⟨lead, hlead, name, ⟨method, hmethod, hname⟩, hmatch⟩
    split at hmatch
    · rename_i rest hrest
      obtain ⟨behind, hbehind, hname'⟩ := Option.bind_eq_some_iff.1 hrest
      refine ⟨method, hmethod, lead, hlead, name, hname, rest, ?_, by simpa using hmatch⟩
      rw [Text.eq_append_of_dropLead? hbehind, Text.eq_append_of_dropLead? hname',
        List.append_assoc]
    · cases hmatch
  · rintro ⟨method, hmethod, lead, hlead, name, hname, rest, rfl, hend⟩
    refine ⟨lead, hlead, name, ⟨method, hmethod, hname⟩, ?_⟩
    rw [List.append_assoc, Text.dropLead?_append, Option.bind_some, Text.dropLead?_append]
    simpa using hend

/-- A call on the same object begins with no `;`. -/
theorem firm_of_calls {l : Language} (hdialect : t.dialect = l.dialect) {method : Site}
    {text : Text} (hcalls : t.Calls method text) (hfirst : ∃ c ∈ text.head?, isBlank c = false)
    (hlast : ∃ c ∈ text.getLast?, isBlank c = false) : text.Firm := by
  obtain ⟨lead, hlead, name, -, rest, rfl, -⟩ := hcalls
  rw [grammar, hdialect] at hlead
  obtain ⟨d, hd, hne⟩ := l.head?_selfPrefix lead hlead
  obtain ⟨c, hc, hblank⟩ := hfirst
  refine ⟨⟨c, hc, hblank, ?_⟩, hlast⟩
  obtain ⟨tail, htail⟩ := List.head?_eq_some_iff.1 hd
  rw [htail] at hc
  cases hc
  exact hne

/-! ## Clashes -/

section Clash

variable (h : root.Tiled) (hsite : (Site.top root).Within t.site)

include h hsite

/-- A call that clashes with the lines of a method is in the method: it cannot be around it, because
what is around a method is the body or the class. -/
theorem within_of_clash {body m c : Site} (hbody : body ∈ t.site.children)
    (hsiteKind : t.site.kind ∉ t.grammar.callKinds) (hbodyKind : body.kind ∉ t.grammar.callKinds)
    (hm : m ∈ body.children)
    (hmfirm : (t.text m).Firm) (hc : c ∈ t.site.descendantsOfKinds t.grammar.callKinds)
    (hcfirm : (t.text c).Firm)
    (hclash : (t.source.wholeLines m.span).overlaps c.span = true) : m.Within c := by
  obtain ⟨hcwithin, -, hkind⟩ := Site.mem_descendantsOfKinds.1 hc
  have hmpos := hmfirm.start_lt_stop
  have hcpos := hcfirm.start_lt_stop
  obtain ⟨before, after, hmargins⟩ := Text.exists_margins hmfirm.fits
  have hlines := hmargins.contains
  have hnot : ¬ (t.source.wholeLines m.span).Apart c.span := by
    intro hapart
    rw [(Span.overlaps_eq_false_iff (Text.fits_wholeLines hmfirm.fits).ordered
      (Nat.le_of_lt hcpos)).2 hapart] at hclash
    cases hclash
  rcases h.within_or_apart hsite (.child (.child .self hbody) hm) hcwithin with
    hin | haround | hbehind | hbefore
  · exact hin
  · rcases haround.eq_or_above hm with rfl | haround
    · exact .self
    · rcases haround.eq_or_above hbody with rfl | haround
      · exact absurd hkind hbodyKind
      · rw [hcwithin.antisymm haround] at hsiteKind
        exact absurd hkind hsiteKind
  · have hstop := Text.stop_wholeLines_le_start hmfirm.fits hcfirm.first hbehind
    exact absurd (.inl ⟨by omega, hstop⟩) hnot
  · have hstart := Text.stop_le_start_wholeLines hmfirm.fits hcfirm.last hbefore
    exact absurd (.inr ⟨by omega, hstart⟩) hnot

/-- An earlier call that clashes with a call is around it. -/
theorem within_of_earlier {names : List Text} {earlier later : List Site} {a c : Site}
    (hcalls : t.callsOf names = earlier ++ c :: later) (ha : a ∈ earlier)
    (hapos : a.span.start < a.span.stop) (hcpos : c.span.start < c.span.stop)
    (hclash : a.span.overlaps c.span = true) : a.Within c := by
  have hprecede : (t.callsOf names).Pairwise Site.Precedes :=
    (h.descendantsOfKinds_precedes hsite t.grammar.callKinds).sublist List.filter_sublist
  rw [hcalls] at hprecede
  have hac := (List.pairwise_append.1 hprecede).2.2 a ha c List.mem_cons_self
  refine hac.within_or_behind.resolve_right fun hbehind => ?_
  rw [(Span.overlaps_eq_false_iff (Nat.le_of_lt hapos) (Nat.le_of_lt hcpos)).2
    (.inl ⟨by omega, hbehind⟩)] at hclash
  cases hclash

end Clash

/-! ## Removed methods -/

/-- A call of one of the removed methods. -/
def Orphans (t : Target) (removed : List Site) (call : Site) : Prop :=
  call ∈ t.site.descendantsOfKinds t.grammar.callKinds ∧
    ∃ method ∈ removed, t.Calls method (t.text call)

theorem mem_callsOf_iff {call : Site} :
    call ∈ t.callsOf (removed.filterMap t.memberName?) ↔ t.Orphans removed call := by
  rw [callsOf, List.mem_filter, callsOneOf_iff]
  rfl

/-- The edits remove methods or replace calls of them. -/
theorem of_mem_methodRemoval {x : Edit} (hx : x ∈ (t.methodRemoval removed).toList) :
    x ∈ (t.removalEdits removed).toList ∨ ∃ c, t.Orphans removed c ∧ x = t.nullEdit c := by
  rw [methodRemoval, neutralizeCalls_eq] at hx
  obtain ⟨kept, hsub, hlist⟩ := EditList.exists_kept_of_offerAll (t.removalEdits removed)
    ((t.callsOf (removed.filterMap t.memberName?)).map t.nullEdit)
  rw [hlist] at hx
  rcases List.mem_append.1 hx with hx | hx
  · exact .inl hx
  · obtain ⟨c, hc, rfl⟩ := List.mem_map.1 (hsub.subset hx)
    exact .inr ⟨c, mem_callsOf_iff.1 hc, rfl⟩

/-- An edit takes a method away, and at most puts the filler of an empty block in its place. -/
structure Deletes (t : Target) (x : Edit) (method : Site) : Prop where
  covers : t.Covers x method
  replacement : x.replacement = [] ∨
    ∃ filler ∈ t.grammar.emptyBlockFiller, x.replacement = t.filled filler.toList method

theorem deletes_of_removal {all later : List Removal} {r : Removal} {b : Site}
    (hfirm : (t.text r.statement).Firm) (hspan : r.span = t.source.wholeLines r.statement.span)
    (hb : r.statement ∈ b.children) :
    t.Deletes ⟨r.span, t.replacement all r later⟩ r.statement where
  covers := covers_of_wholeLines hfirm.fits hspan
  replacement := by
    cases hfiller : t.grammar.emptyBlockFiller with
    | none => exact .inl (replacement_eq_nil hfiller all r later)
    | some filler =>
      dsimp only
      rw [replacement_eq_filled hfiller hb hspan hfirm]
      split
      · exact .inr ⟨filler, rfl, rfl⟩
      · exact .inl rfl

section Methods

variable (hremovable : t.Removable removed) {body : Site}
  (hchildren : ∀ s ∈ removed, s ∈ body.children)

include hremovable hchildren

omit hchildren in
theorem separated_methodRemoval : (t.methodRemoval removed).Separated := by
  rw [methodRemoval, neutralizeCalls_eq]
  exact (separated_removalEdits hremovable).offerAll _

theorem exists_deletion {s : Site} (hs : s ∈ removed) :
    ∃ x ∈ (t.methodRemoval removed).toList, t.Deletes x s := by
  obtain ⟨r, hr, rfl⟩ := List.mem_map.1 ((t.map_statement_removals removed).mem_iff.2 hs)
  obtain ⟨earlier, later, hrs⟩ := List.append_of_mem hr
  obtain ⟨calls, hlist, -⟩ := t.methodRemoval_append removed
  refine ⟨⟨r.span, t.replacement (t.removals removed) r later⟩, ?_,
    deletes_of_removal (hremovable.firm _ hs) (of_mem_removals hr).2 (hchildren _ hs)⟩
  rw [hlist, removalEdits_eq hremovable]
  refine List.mem_append_left _ ?_
  have hmem := @mem_editsFrom t (t.removals removed) earlier later r
  rw [← hrs] at hmem
  exact hmem

theorem exists_deleted {x : Edit} (hx : x ∈ (t.removalEdits removed).toList) :
    ∃ s ∈ removed, x.span = t.source.wholeLines s.span ∧ t.Deletes x s := by
  rw [removalEdits_eq hremovable] at hx
  obtain ⟨earlier, r, later, hrs, rfl⟩ := exists_removal_of_mem hx
  obtain ⟨hs, hspan⟩ := of_mem_removals (r := r) (t := t) (by rw [hrs]; simp)
  exact ⟨r.statement, hs, hspan, deletes_of_removal (hremovable.firm _ hs) hspan (hchildren _ hs)⟩

variable (h : root.Tiled) (hsite : (Site.top root).Within t.site)
  (hbody : body ∈ t.site.children) (hfirm : ∀ c, t.Orphans removed c → (t.text c).Firm)

include h hsite hbody hfirm

/-- A call of a removed method is inside an edit: the one that removes the method around it, or the
one that replaces it or a call around it. -/
theorem exists_edit_of_orphans (hsiteKind : t.site.kind ∉ t.grammar.callKinds)
    (hbodyKind : body.kind ∉ t.grammar.callKinds) {c : Site} (hc : t.Orphans removed c) :
    ∃ x ∈ (t.methodRemoval removed).toList, x.span.contains c.span = true ∧
      ((∃ s ∈ removed, s.Within c ∧ t.Deletes x s) ∨
        ∃ around, t.Orphans removed around ∧ around.Within c ∧ x = t.nullEdit around) := by
  have hcpos := (hfirm c hc).start_lt_stop
  obtain ⟨earlier, later, hturn⟩ := List.append_of_mem (mem_callsOf_iff.2 hc)
  have hkept := @EditList.mem_offerAll_or_clash (t.removalEdits removed) (earlier.map t.nullEdit)
    (later.map t.nullEdit) (t.nullEdit c) (Nat.le_of_lt hcpos)
  rw [← List.map_cons, ← List.map_append, ← hturn, ← neutralizeCalls_eq] at hkept
  rcases hkept with hmem | ⟨x, hx, hfrom, hclash⟩
  · exact ⟨_, hmem, Span.contains_iff.2 ⟨Nat.le_refl _, Nat.le_refl _⟩, .inr ⟨c, hc, .self, rfl⟩⟩
  · refine ⟨x, hx, ?_⟩
    rcases hfrom with hremoved | hearlier
    · obtain ⟨s, hs, hspan, hdeletes⟩ := exists_deleted hremovable hchildren hremoved
      rw [hspan] at hclash
      have hin := within_of_clash h hsite hbody hsiteKind hbodyKind (hchildren s hs)
        (hremovable.firm s hs) hc.1 (hfirm c hc) hclash
      have hscovers := Span.contains_iff.1 hdeletes.covers.1
      have hinside := h.start_le_and_stop_le
        (hsite.trans (.child (.child .self hbody) (hchildren s hs))) hin
      exact ⟨Span.contains_iff.2 ⟨by omega, by omega⟩, .inl ⟨s, hs, hin, hdeletes⟩⟩
    · obtain ⟨a, ha, rfl⟩ := List.mem_map.1 hearlier
      have horphan : t.Orphans removed a :=
        mem_callsOf_iff.1 (by rw [hturn]; exact List.mem_append_left _ ha)
      have hin := within_of_earlier h hsite hturn ha (hfirm a horphan).start_lt_stop hcpos hclash
      have hinside := h.start_le_and_stop_le
        (hsite.trans (Site.mem_descendantsOfKinds.1 horphan.1).1) hin
      exact ⟨Span.contains_iff.2 hinside, .inr ⟨a, horphan, hin, rfl⟩⟩

/-- Each edit takes some text of the class. -/
theorem enters_of_mem_methodRemoval {x : Edit} (hx : x ∈ (t.methodRemoval removed).toList) :
    x.span.Fits t.source ∧ x.span.start < x.span.stop ∧ x.span.start < t.site.span.stop := by
  rcases of_mem_methodRemoval hx with hx | ⟨c, hc, rfl⟩
  · obtain ⟨s, hs, hspan, hdeletes⟩ := exists_deleted hremovable hchildren hx
    have hsfirm := hremovable.firm s hs
    have hspos := hsfirm.start_lt_stop
    have hcovers := Span.contains_iff.1 hdeletes.covers.1
    have hinside := h.start_le_and_stop_le hsite (.child (.child .self hbody) (hchildren s hs))
    refine ⟨?_, by omega, by omega⟩
    rw [hspan]
    exact Text.fits_wholeLines hsfirm.fits
  · have hcpos := (hfirm c hc).start_lt_stop
    have hinside := h.start_le_and_stop_le hsite (Site.mem_descendantsOfKinds.1 hc.1).1
    exact ⟨(hfirm c hc).fits, hcpos, by change c.span.start < _; omega⟩

end Methods

/-- What the removal of methods returns: the entity without some of its methods. -/
theorem returns_removeMethods_sublist (t : Target) (e : Entity) (p : Float) (n : Nat) :
    Attempt.Returns (fun code => ∃ methods removed, t.methods? = some methods ∧ removed ≠ [] ∧
      removed.Sublist methods ∧ e.mutated? (t.methodRemoval removed) = some code)
      (t.removeMethods e p n) := by
  refine Attempt.returns_bind (Attempt.returns_ofOption fun methods hmethods => hmethods) ?_
  intro methods hmethods
  split
  · exact Attempt.returns_failure _
  · refine Attempt.returns_retry ?_ n
    refine Attempt.returns_bind
      (Attempt.returns_lift (Draw.always_filterM_sublist p methods)) ?_
    intro removed hsub
    apply Attempt.returns_pure
    intro code hcode
    split at hcode
    · cases hcode
    · rename_i hsome
      exact ⟨methods, removed, hmethods, by simpa using hsome, hsub, hcode⟩

end Target

/-! ## Modifiers -/

namespace Modifier

/-- The mutant of a strategy that removes methods is the entity without some of its methods. -/
theorem exists_removed_of_modify {m : Modifier} (hm : m.strategy = .removeMethods) {e : Entity}
    {t : Target} (ht : e.target? = some t) {methods : List Site}
    (hmethods : t.methods? = some methods) {w : Mutant} (hw : (m.modify e).1 = some w) :
    ∃ removed, removed ≠ [] ∧ removed.Sublist methods ∧
      e.mutated? (t.methodRemoval removed) = some w.code := by
  have hrun : Attempt.Returns (fun code => ∃ removed, removed ≠ [] ∧ removed.Sublist methods ∧
      e.mutated? (t.methodRemoval removed) = some code)
      (m.strategy.run e m.likelihood m.attempts) := by
    rw [hm]
    refine Attempt.returns_bind (Attempt.returns_ofOption fun t' ht' => ht') ?_
    intro t' ht'
    cases ht.symm.trans ht'
    refine (t.returns_removeMethods_sublist e m.likelihood m.attempts).imp ?_
    rintro code ⟨methods', removed, hmethods', hmade⟩
    cases hmethods.symm.trans hmethods'
    exact ⟨removed, hmade⟩
  exact (of_modify_eq_some hrun hw).2

/-- No call of a removed method survives. Whichever methods of a class are removed, each of them is
deleted, and each call of one of them on the same object is inside one of the edits: it goes with
the removed method around it, or it is replaced by the null literal, itself or with such a call
around it. What a mutant shows is the class with these edits made in it, for some of its methods. -/
theorem modify_removes_methods (m : Modifier) (hm : m.strategy = .removeMethods) (e : Entity)
    (hroot : e.handle.root.Tiled) (t : Target) (ht : e.target? = some t) (methods : List Site)
    (hmethods : t.methods? = some methods)
    (hbody : ∀ body, t.body? = some body →
      body ∈ t.site.children ∧ body.kind ∉ t.grammar.callKinds)
    (hsiteKind : t.site.kind ∉ t.grammar.callKinds)
    (hfirm : ∀ s ∈ methods, (t.text s).Firm)
    (hcalls : ∀ c ∈ t.site.descendantsOfKinds t.grammar.callKinds,
      (∃ a ∈ (t.text c).head?, isBlank a = false) ∧
        ∃ a ∈ (t.text c).getLast?, isBlank a = false) :
    (∀ removed : List Site, removed.Sublist methods →
      (t.methodRemoval removed).Separated ∧
      (∀ s ∈ removed, ∃ x ∈ (t.methodRemoval removed).toList, t.Deletes x s) ∧
      ∀ c, t.Orphans removed c → ∃ x ∈ (t.methodRemoval removed).toList,
        x.span.contains c.span = true ∧
        ((∃ s ∈ removed, s.Within c ∧ t.Deletes x s) ∨
          ∃ around, t.Orphans removed around ∧ around.Within c ∧ x = t.nullEdit around)) ∧
    ∀ w, (m.modify e).1 = some w → ∃ removed r, removed ≠ [] ∧ removed.Sublist methods ∧
      w.code = Text.dedent r e.indent ∧
      e.Edited ((t.methodRemoval removed).cutAt e.span.stop).toList r := by
  obtain ⟨hsite, hspan, hsource, hdialect⟩ := Entity.of_target?_eq_some ht
  obtain ⟨body, hsome, hsub, -⟩ := Target.methods?_eq_some hmethods
  obtain ⟨hchild, hbodyKind⟩ := hbody body hsome
  have hin : (Site.top e.handle.root).Within body := hsite.trans (.child .self hchild)
  have hchildren : ∀ removed : List Site, removed.Sublist methods → ∀ s ∈ removed,
      s ∈ body.children := fun removed hremoved s hs => hsub.subset (hremoved.subset hs)
  have hremovable : ∀ removed : List Site, removed.Sublist methods → t.Removable removed :=
    fun removed hremoved => Target.removable_of_sublist_children hroot hin (hremoved.trans hsub)
      fun s hs => hfirm s (hremoved.subset hs)
  have hcallsFirm : ∀ (removed : List Site) c, t.Orphans removed c → (t.text c).Firm := by
    rintro removed c ⟨hmem, method, -, hcall⟩
    exact Target.firm_of_calls hdialect hcall (hcalls c hmem).1 (hcalls c hmem).2
  constructor
  · intro removed hremoved
    have hmade := hremovable removed hremoved
    have hplaced := hchildren removed hremoved
    refine ⟨Target.separated_methodRemoval hmade, ?_, ?_⟩
    · intro s hs
      exact Target.exists_deletion hmade hplaced hs
    · intro c hc
      exact Target.exists_edit_of_orphans hmade hplaced hroot hsite hchild (hcallsFirm removed)
        hsiteKind hbodyKind hc
  · intro w hw
    obtain ⟨removed, hsome, hremoved, hcode⟩ := exists_removed_of_modify hm ht hmethods hw
    have hmade := hremovable removed hremoved
    have henters := fun x hx => Target.enters_of_mem_methodRemoval (x := x) hmade
      (hchildren removed hremoved) hroot hsite hchild (hcallsFirm removed) hx
    obtain ⟨r, hr, hedited⟩ := Entity.edited_cut_of_mutated? (Target.separated_methodRemoval hmade)
      (by
        intro x hx
        rw [← hspan]
        exact (henters x hx).2)
      (by
        intro x hx
        rw [← hsource]
        exact EditList.fits_of_fits (henters x hx).1)
      hcode
    exact ⟨removed, r, hsome, hremoved, hr, hedited⟩

/-- A class with a method that calls another one in a call of it. -/
def callingText : Text :=
  ("class A:\n    def f(self):\n        return self.g(self.g(1))\n" ++
    "    def g(self, x):\n        return x").toList

/-- The tree of this class. -/
def callingTree : Node :=
  .ofSpan "module" true none 0 95 [
    .ofSpan "class_definition" true none 0 95 [
      .ofSpan "identifier" true (some "name") 6 7 [],
      .ofSpan "block" true (some "body") 13 95 [
        .ofSpan "function_definition" true none 13 58 [
          .ofSpan "identifier" true (some "name") 17 18 [],
          .ofSpan "parameters" true (some "parameters") 18 24 [],
          .ofSpan "block" true (some "body") 34 58 [
            .ofSpan "return_statement" true none 34 58 [
              .ofSpan "call" true none 41 58 [
                .ofSpan "attribute" true (some "function") 41 47 [],
                .ofSpan "argument_list" true (some "arguments") 47 58 [
                  .ofSpan "call" true none 48 57 [
                    .ofSpan "attribute" true (some "function") 48 54 [],
                    .ofSpan "argument_list" true (some "arguments") 54 57 []]]]]]],
        .ofSpan "function_definition" true none 63 95 [
          .ofSpan "identifier" true (some "name") 67 68 [],
          .ofSpan "parameters" true (some "parameters") 68 77 [],
          .ofSpan "block" true (some "body") 87 95 [
            .ofSpan "return_statement" true none 87 95 []]]]]]

/-- The second method is removed, and the inner call of it is inside an edit that puts `None`. -/
theorem modify_removes_methods_calling :
    ∃ e ∈ Language.python.dialect.extract ⟨"a.py", callingText, callingTree⟩ none,
      ∃ (t : Target) (f g c : Site), e.target? = some t ∧ t.methods? = some [f, g] ∧
        t.text c = "self.g(1)".toList ∧ t.Orphans [g] c ∧
        (∃ x ∈ (t.methodRemoval [g]).toList, t.Deletes x g) ∧
        ∃ x ∈ (t.methodRemoval [g]).toList, x.span.contains c.span = true ∧
          x.replacement = "None".toList := by
  have hfound : ∃ e ∈ Language.python.dialect.extract ⟨"a.py", callingText, callingTree⟩ none,
      ∃ t ∈ e.target?, ∃ methods ∈ t.methods?, methods.length = 2 ∧
        (∀ s ∈ methods, (t.text s).Firm) ∧
        ∃ c ∈ t.site.descendantsOfKinds t.grammar.callKinds, t.text c = "self.g(1)".toList ∧
          t.callsOneOf (methods.tail.filterMap t.memberName?) (t.text c) = true ∧
          ∀ g ∈ methods.tail, c.span.start < g.span.start := by
    decide +kernel
  -- what holds of every entity of this file
  have hall : ∀ e ∈ Language.python.dialect.extract ⟨"a.py", callingText, callingTree⟩ none,
      ∀ t ∈ e.target?, t.site.kind ∉ t.grammar.callKinds ∧ t.grammar.nullLiteral = "None" ∧
        (∀ body ∈ t.body?, body.parent?.any (·.same t.site) = true ∧
          body.kind ∉ t.grammar.callKinds) ∧
        ∀ c ∈ t.site.descendantsOfKinds t.grammar.callKinds, (t.text c).Firm := by
    decide +kernel
  obtain ⟨e, he, t, ht, hroot, hsite, methods, hmethods, hmany, hfirm, inner, hmem, hinner, hcall,
    hbefore⟩ := Entity.exists_target_of_extract hfound
  obtain ⟨hsiteKind, hnull, hbodies, hcalls⟩ := hall e he t ht
  obtain ⟨f, g, rfl⟩ := List.length_eq_two.1 hmany
  have htree : e.handle.root.Tiled := by
    rw [hroot]
    decide +kernel
  have hbody : ∀ b ∈ t.body?, b ∈ t.site.children ∧ b.kind ∉ t.grammar.callKinds := by
    intro b hb
    obtain ⟨hparent, hkind⟩ := hbodies b hb
    have hin := hsite.trans (Entity.within_body? ht b hb)
    exact ⟨Site.mem_children_of_same hin hsite hparent, hkind⟩
  have hends : ∀ c ∈ t.site.descendantsOfKinds t.grammar.callKinds,
      (∃ a ∈ (t.text c).head?, isBlank a = false) ∧
        ∃ a ∈ (t.text c).getLast?, isBlank a = false := by
    intro c hc
    obtain ⟨a, ha, hblank, -⟩ := (hcalls c hc).first
    exact ⟨⟨a, ha, hblank⟩, (hcalls c hc).last⟩
  have horphan : t.Orphans [g] inner := by
    rw [← Target.mem_callsOf_iff]
    exact List.mem_filter.2 ⟨hmem, hcall⟩
  obtain ⟨-, hdeleted, hcovered⟩ := (modify_removes_methods (ofStrategy .removeMethods .python 0)
    rfl e htree t ht [f, g] hmethods hbody hsiteKind hfirm hends).1 [g] (by simp)
  obtain ⟨x, hx, hcontains, hby⟩ := hcovered inner horphan
  refine ⟨e, he, t, f, g, inner, ht, hmethods, hinner, horphan, hdeleted g List.mem_cons_self, x,
    hx, hcontains, ?_⟩
  rcases hby with ⟨s, hs, hin, -⟩ | ⟨around, -, -, rfl⟩
  · -- the call stands before the removed method
    obtain rfl := List.mem_singleton.1 hs
    obtain ⟨b, hb, hsub, -⟩ := Target.methods?_eq_some hmethods
    have hchild := (hbody b hb).1
    have hinside := htree.start_le_and_stop_le
      (hsite.trans (.child (.child .self hchild) (hsub.subset (by simp)))) hin
    have hstart := hbefore s (by simp)
    omega
  · exact congrArg String.toList hnull

end Modifier
end Mutagen
