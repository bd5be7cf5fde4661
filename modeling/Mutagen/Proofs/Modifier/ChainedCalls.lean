import Mathlib.Data.List.TakeWhile
import Mutagen.Proofs.Modifier.NeutralizedCalls

/-!
# Chained calls

A call is neutralized for how its text begins, and this may be less than what it calls. When
the text goes on behind the call of a removed method, as in `self.g().h()`, it is a call of
another method, and yet all of it becomes the null literal. So what a neutralized call calls
is a reference to a removed method, or it begins with a call of one.
-/
namespace Mutagen

/-- What stands behind a text that ends in no blank does not change how the text begins behind its
own blanks. -/
theorem Text.head?_trimStart_append {a : Text} (h : ∃ c ∈ a.getLast?, isBlank c = false)
    (b : Text) : (trimStart (a ++ b)).head? = (trimStart a).head? := by
  obtain ⟨c, hc, hblank⟩ := h
  have hne : a.dropWhile isBlank ≠ [] := by
    intro hnone
    have hall := List.dropWhile_eq_nil_iff.1 hnone c (List.mem_of_getLast? hc)
    rw [hblank] at hall
    cases hall
  obtain ⟨d, rest, hdrop⟩ := List.exists_cons_of_ne_nil hne
  simp [trimStart, List.dropWhile_append, hdrop]

/-- In every language the null literal is not empty, and what fills an empty block is not part
of it. -/
theorem Language.nullLiteral_ne (l : Language) :
    l.dialect.grammar.nullLiteral.toList ≠ [] ∧
      ∀ filler ∈ l.dialect.grammar.emptyBlockFiller,
        ∃ c ∈ filler.toList, c ∉ l.dialect.grammar.nullLiteral.toList := by
  have hfiller : l.dialect.grammar.emptyBlockFiller.all (fun filler => filler.toList.any fun c =>
      !l.dialect.grammar.nullLiteral.toList.contains c) = true := by
    cases l <;> decide +kernel
  refine ⟨by cases l <;> decide +kernel, fun filler hmem => ?_⟩
  simpa using (Option.all_eq_true _ _).1 hfiller filler hmem

namespace Target

variable {t : Target} {removed methods : List Site} {method callee c : Site}

/-! ## What is called -/

/-- A text is a reference to a method of the same object: what means the object, and the name of
the method. -/
def Names (t : Target) (method : Site) (text : Text) : Prop :=
  ∃ lead ∈ t.grammar.selfPrefixes, ∃ name ∈ t.memberName? method, text = lead.toList ++ name

theorem calls_iff {text : Text} : t.Calls method text ↔ ∃ reference rest,
    t.Names method reference ∧ text = reference ++ rest ∧
      (rest = [] ∨ (Text.trimStart rest).head? = some '(') := by
  unfold Calls Names
  constructor
  · rintro ⟨lead, hlead, name, hname, rest, rfl, hrest⟩
    exact ⟨_, rest, ⟨lead, hlead, name, hname, rfl⟩, rfl, hrest⟩
  · rintro ⟨_, rest, ⟨lead, hlead, name, hname, rfl⟩, rfl, hrest⟩
    exact ⟨lead, hlead, name, hname, rest, rfl, hrest⟩

/-- What is called in a text that begins with a call of a method: the method, or something that
begins with a call of it. -/
theorem names_or_calls {callee behind : Text} (hlast : ∃ a ∈ callee.getLast?, isBlank a = false)
    (hseam : ∀ a ∈ behind.head?, ∀ reference, t.Names method reference → a ∉ reference)
    (h : t.Calls method (callee ++ behind)) :
    t.Names method callee ∨ '(' ∈ callee ∧ t.Calls method callee := by
  obtain ⟨reference, rest, hnames, hsplit, hrest⟩ := calls_iff.1 h
  rcases List.append_eq_append_iff.1 hsplit with ⟨more, rfl, rfl⟩ | ⟨more, rfl, rfl⟩
  · -- the reference does not end behind the callee
    cases more with
    | nil => exact .inl (by simpa using hnames)
    | cons a more => exact absurd (by simp) (hseam a rfl _ hnames)
  · by_cases hmore : more = []
    · exact .inl (by simpa [hmore] using hnames)
    · -- what the callee has behind the reference begins with the parenthesis
      rw [List.getLast?_append_of_ne_nil _ hmore] at hlast
      have hopens : (Text.trimStart more).head? = some '(' := by
        rw [← Text.head?_trimStart_append hlast behind]
        exact hrest.resolve_left (by simp [hmore])
      have hmem : '(' ∈ more :=
        (List.dropWhile_sublist _).subset (List.mem_of_head? hopens)
      exact .inr ⟨List.mem_append_right _ hmem, calls_iff.2 ⟨_, more, hnames, rfl, .inr hopens⟩⟩

/-- A call as it is parsed: it begins with what it calls, which does not end in a blank, and what
follows there begins with a character that no reference to one of the methods has. -/
structure Heads (t : Target) (methods : List Site) (callee c : Site) : Prop where
  start : callee.span.start = c.span.start
  stop : callee.span.stop ≤ c.span.stop
  last : ∃ a ∈ (t.text callee).getLast?, isBlank a = false
  seam : ∀ a ∈ ((⟨callee.span.stop, c.span.stop⟩ : Span).text t.source).head?,
    ∀ method ∈ methods, ∀ lead ∈ t.grammar.selfPrefixes, ∀ name ∈ t.memberName? method,
      a ∉ lead.toList ++ name

instance (t : Target) (methods : List Site) (callee c : Site) :
    Decidable (t.Heads methods callee c) :=
  decidable_of_iff
    (callee.span.start = c.span.start ∧ callee.span.stop ≤ c.span.stop ∧
      (t.text callee).getLast?.any (fun a => !isBlank a) = true ∧
      ((⟨callee.span.stop, c.span.stop⟩ : Span).text t.source).head?.all (fun a =>
        methods.all fun method => t.grammar.selfPrefixes.all fun lead =>
          (t.memberName? method).all fun name => !(lead.toList ++ name).contains a) = true)
    ⟨fun h => ⟨h.1, h.2.1, by simpa [Option.any_eq_true] using h.2.2.1,
        by simpa [Option.all_eq_true] using h.2.2.2⟩,
      fun h => ⟨h.start, h.stop, by simpa [Option.any_eq_true] using h.last,
        by simpa [Option.all_eq_true] using h.seam⟩⟩

/-- The text of a call is what it calls, and what follows there. -/
theorem Heads.text_eq (h : t.Heads methods callee c) (hc : t.text c ≠ []) :
    t.text c = t.text callee ++ (⟨callee.span.stop, c.span.stop⟩ : Span).text t.source := by
  have hfits : c.span.Fits t.source := Span.fits_of_text_ne_nil hc
  have hcallee : callee.span.Fits t.source := by
    refine Span.fits_of_text_ne_nil fun hnone => ?_
    obtain ⟨a, ha, -⟩ := h.last
    rw [text, Site.text, hnone] at ha
    cases ha
  have hright : (⟨callee.span.stop, c.span.stop⟩ : Span).Fits t.source :=
    ⟨h.stop, hcallee.stop, hfits.stop⟩
  calc t.text c = (⟨callee.span.start, c.span.stop⟩ : Span).text t.source := by rw [h.start]; rfl
    _ = _ := Span.text_cut hcallee hright

/-! ## What replaces a call -/

theorem replacement_of_mem_removeFrom {all rs : List Removal} {edits : EditList} {x : Edit}
    (hx : x ∈ (t.removeFrom all edits rs).toList) :
    x ∈ edits.toList ∨ ∃ r later, x.replacement = t.replacement all r later := by
  induction rs generalizing edits with
  | nil => exact .inl hx
  | cons r later ih =>
    rcases ih hx with hx | hx
    · rcases edits.offer_eq_or ⟨r.span, t.replacement all r later⟩ with hsame | hmore
      · rw [hsame] at hx
        exact .inl hx
      · rw [hmore] at hx
        rcases List.mem_append.1 hx with hx | hx
        · exact .inl hx
        · rw [List.mem_singleton.1 hx]
          exact .inr ⟨r, later, rfl⟩
    · exact .inr hx

/-- No removal of a statement puts the null literal in its place. -/
theorem nullEdit_not_mem_removalEdits {l : Language} (hdialect : t.dialect = l.dialect) (c : Site) :
    t.nullEdit c ∉ (t.removalEdits removed).toList := by
  intro hx
  obtain ⟨hne, hfiller⟩ := l.nullLiteral_ne
  rw [← hdialect] at hne hfiller
  rcases replacement_of_mem_removeFrom hx with hx | ⟨r, later, hr⟩
  · cases hx
  · change t.grammar.nullLiteral.toList = _ at hr
    cases hfill : t.grammar.emptyBlockFiller with
    | none => exact hne (hr.trans (replacement_eq_nil hfill _ r later))
    | some filler =>
      obtain ⟨a, ha, hnot⟩ := hfiller filler hfill
      cases hparent : r.statement.parent? with
      | none =>
        refine hne (hr.trans ?_)
        simp [replacement, hparent]
      | some block =>
        rw [replacement_eq hfill hparent] at hr
        split at hr
        · refine hnot ?_
          change a ∈ t.grammar.nullLiteral.toList
          rw [hr, fillerAt]
          split <;> simp [ha]
        · exact hne hr

theorem ne_nil_of_calls {l : Language} (hdialect : t.dialect = l.dialect) {text : Text}
    (h : t.Calls method text) : text ≠ [] := by
  obtain ⟨lead, hlead, name, -, rest, rfl, -⟩ := h
  rw [grammar, hdialect] at hlead
  obtain ⟨a, ha, -⟩ := l.head?_selfPrefix lead hlead
  obtain ⟨more, hlead⟩ := List.head?_eq_some_iff.1 ha
  simp [hlead]

/-- What a neutralized call calls is a reference to a removed method, or begins with a call of
one. -/
theorem exists_named_of_nullEdit {l : Language} (hdialect : t.dialect = l.dialect)
    (hsub : removed ⊆ methods) (hc : t.Heads methods callee c)
    (hmem : t.nullEdit c ∈ (t.methodRemoval removed).toList) :
    ∃ method ∈ removed, t.Names method (t.text callee) ∨
      '(' ∈ t.text callee ∧ t.Calls method (t.text callee) := by
  rcases of_mem_methodRemoval hmem with hx | ⟨d, ⟨-, method, hmethod, hcalls⟩, hsame⟩
  · exact absurd hx (nullEdit_not_mem_removalEdits hdialect c)
  · have hspan : d.span = c.span := (congrArg Edit.span hsame).symm
    have htext : t.text d = t.text c := by rw [text, text, Site.text, Site.text, hspan]
    rw [htext] at hcalls
    rw [hc.text_eq (ne_nil_of_calls hdialect hcalls)] at hcalls
    refine ⟨method, hmethod, names_or_calls hc.last ?_ hcalls⟩
    rintro a ha _ ⟨lead, hlead, name, hname, rfl⟩
    exact hc.seam a ha method (hsub hmethod) lead hlead name hname

/-- The removal of one method, with nothing to sort. -/
def singleRemoval (t : Target) (g : Site) : EditList :=
  t.neutralizeCalls ([g].filterMap t.memberName?)
    (t.removeFrom [⟨g, t.source.wholeLines g.span⟩] .empty [⟨g, t.source.wholeLines g.span⟩])

theorem methodRemoval_singleton (t : Target) (g : Site) :
    t.methodRemoval [g] = t.singleRemoval g := by
  simp [methodRemoval, removalEdits, removals, singleRemoval]

end Target

/-! ## Modifiers -/

namespace Modifier

/-- Only calls of removed methods are neutralized, where nothing is chained to them. Whichever
methods of a class are removed, what a call calls that becomes the null literal is exactly a
reference to one of them, unless it has a parenthesis: then it begins with a call of one of them
itself, and what is chained to that call goes with it. -/
theorem modify_neutralizes_calls (m : Modifier) (hm : m.strategy = .removeMethods) (e : Entity)
    (t : Target) (ht : e.target? = some t) (methods : List Site)
    (hmethods : t.methods? = some methods)
    (hcalls : ∀ c ∈ t.site.descendantsOfKinds t.grammar.callKinds,
      ∃ callee, c.childByField? "function" = some callee ∧ t.Heads methods callee c) :
    (∀ removed : List Site, removed.Sublist methods →
      ∀ c ∈ t.site.descendantsOfKinds t.grammar.callKinds,
        t.nullEdit c ∈ (t.methodRemoval removed).toList →
        ('(' ∉ c.fieldText "function" t.source →
          ∃ method ∈ removed, t.Names method (c.fieldText "function" t.source)) ∧
        ('(' ∈ c.fieldText "function" t.source →
          ∃ method ∈ removed, t.Names method (c.fieldText "function" t.source) ∨
            t.Calls method (c.fieldText "function" t.source))) ∧
    ∀ w, (m.modify e).1 = some w → ∃ removed, removed ≠ [] ∧ removed.Sublist methods ∧
      e.mutated? (t.methodRemoval removed) = some w.code := by
  obtain ⟨-, -, -, hdialect⟩ := Entity.of_target?_eq_some ht
  refine ⟨?_, fun w hw => exists_removed_of_modify hm ht hmethods hw⟩
  intro removed hremoved c hc hmem
  obtain ⟨callee, hcallee, hheads⟩ := hcalls c hc
  have hfield : c.fieldText "function" t.source = t.text callee := by
    rw [Site.fieldText, hcallee]
    rfl
  obtain ⟨method, hmethod, hnamed⟩ :=
    Target.exists_named_of_nullEdit hdialect hremoved.subset hheads hmem
  rw [hfield]
  constructor
  · intro hplain
    exact ⟨method, hmethod, hnamed.resolve_right fun h => hplain h.1⟩
  · intro _
    exact ⟨method, hmethod, hnamed.imp_right And.right⟩

/-- In a class whose first method calls the second one twice, it is the outer call that becomes the
null literal when the second method is removed, and what it calls is just that method. -/
theorem modify_neutralizes_calls_nested :
    ∃ e ∈ Language.python.dialect.extract ⟨"a.py", callingText, callingTree⟩ none,
      ∃ (t : Target) (f g c : Site), e.target? = some t ∧ t.methods? = some [f, g] ∧
        t.nullEdit c ∈ (t.methodRemoval [g]).toList ∧ t.text c = "self.g(self.g(1))".toList ∧
        t.Names g (c.fieldText "function" t.source) := by
  have hfound : ∃ e ∈ Language.python.dialect.extract ⟨"a.py", callingText, callingTree⟩ none,
      ∃ t ∈ e.target?, ∃ methods ∈ t.methods?, methods.length = 2 ∧
        ∀ g ∈ methods.tail, ∃ c ∈ t.site.descendantsOfKinds t.grammar.callKinds,
          t.nullEdit c ∈ (t.methodRemoval [g]).toList ∧
            t.text c = "self.g(self.g(1))".toList := by
    simp only [Target.methodRemoval_singleton]
    decide +kernel
  -- every call of this file is of something plain
  have hall : ∀ e ∈ Language.python.dialect.extract ⟨"a.py", callingText, callingTree⟩ none,
      ∀ t ∈ e.target?, ∀ methods ∈ t.methods?,
        ∀ c ∈ t.site.descendantsOfKinds t.grammar.callKinds,
          '(' ∉ c.fieldText "function" t.source ∧
            ∃ callee ∈ c.childByField? "function", t.Heads methods callee c := by
    decide +kernel
  obtain ⟨e, he, t, ht, methods, hmethods, hmany, hcall⟩ := hfound
  have hcalls := hall e he t ht methods hmethods
  obtain ⟨f, g, rfl⟩ := List.length_eq_two.1 hmany
  obtain ⟨c, hc, hmem, htext⟩ := hcall g List.mem_cons_self
  have hnamed := (modify_neutralizes_calls (ofStrategy .removeMethods .python 0) rfl e t ht [f, g]
    hmethods (fun c hc => (hcalls c hc).2)).1 [g] (by simp) c hc hmem
  obtain ⟨method, hmethod, hnames⟩ := hnamed.1 (hcalls c hc).1
  rw [List.mem_singleton.1 hmethod] at hnames
  exact ⟨e, he, t, f, g, c, ht, hmethods, hmem, htext, hnames⟩

/-- A class with a method that calls a second one on the result of a first one. -/
def onResultText : Text :=
  ("class A:\n    def g(self):\n        return self\n" ++
    "    def h(self):\n        return self.g().h()").toList

/-- The tree of this class. -/
def onResultTree : Node :=
  .ofSpan "module" true none 0 90 [
    .ofSpan "class_definition" true none 0 90 [
      .ofSpan "identifier" true (some "name") 6 7 [],
      .ofSpan "block" true (some "body") 13 90 [
        .ofSpan "function_definition" true none 13 45 [
          .ofSpan "identifier" true (some "name") 17 18 [],
          .ofSpan "parameters" true (some "parameters") 18 24 [],
          .ofSpan "block" true (some "body") 34 45 [
            .ofSpan "return_statement" true none 34 45 []]],
        .ofSpan "function_definition" true none 50 90 [
          .ofSpan "identifier" true (some "name") 54 55 [],
          .ofSpan "parameters" true (some "parameters") 55 61 [],
          .ofSpan "block" true (some "body") 71 90 [
            .ofSpan "return_statement" true none 71 90 [
              .ofSpan "call" true none 78 90 [
                .ofSpan "attribute" true (some "function") 78 88 [
                  .ofSpan "call" true (some "object") 78 86 [
                    .ofSpan "attribute" true (some "function") 78 84 [],
                    .ofSpan "argument_list" true (some "arguments") 84 86 []],
                  .ofSpan "identifier" true (some "attribute") 87 88 []],
                .ofSpan "argument_list" true (some "arguments") 88 90 []]]]]]]]

/-- When the first method is removed, the call of the second one becomes the null literal, although
what it calls is no reference to the first one. -/
theorem chained_call_neutralized :
    ∃ e ∈ Language.python.dialect.extract ⟨"a.py", onResultText, onResultTree⟩ none,
      ∃ (t : Target) (g h c : Site), e.target? = some t ∧ t.methods? = some [g, h] ∧
        c ∈ t.site.descendantsOfKinds t.grammar.callKinds ∧
        t.nullEdit c ∈ (t.methodRemoval [g]).toList ∧
        c.fieldText "function" t.source = "self.g().h".toList ∧
        ¬ t.Names g (c.fieldText "function" t.source) ∧
        e.mutated? (t.methodRemoval [g]) =
          some "class A:\n    def h(self):\n        return None".toList := by
  have hfound : ∃ e ∈ Language.python.dialect.extract ⟨"a.py", onResultText, onResultTree⟩ none,
      ∃ t ∈ e.target?, ∃ methods ∈ t.methods?, methods.length = 2 ∧
        t.grammar.selfPrefixes = ["self."] ∧
        ∀ g ∈ methods.head?, t.memberName? g = some ['g'] ∧
          e.mutated? (t.methodRemoval [g]) =
            some "class A:\n    def h(self):\n        return None".toList ∧
          ∃ c ∈ t.site.descendantsOfKinds t.grammar.callKinds,
            t.nullEdit c ∈ (t.methodRemoval [g]).toList ∧
              c.fieldText "function" t.source = "self.g().h".toList := by
    simp only [Target.methodRemoval_singleton, Entity.mutated?_eq_changed?]
    decide +kernel
  obtain ⟨e, he, t, ht, methods, hmethods, hmany, hlead, hmade⟩ := hfound
  obtain ⟨g, h, rfl⟩ := List.length_eq_two.1 hmany
  obtain ⟨hname, hcode, c, hc, hmem, hfield⟩ := hmade g rfl
  refine ⟨e, he, t, g, h, c, ht, hmethods, hc, hmem, hfield, ?_, hcode⟩
  rintro ⟨lead, hmem', name, hname', htext⟩
  rw [hlead, List.mem_singleton] at hmem'
  rw [hname] at hname'
  cases hname'
  rw [hfield, hmem'] at htext
  exact absurd htext (by decide)

end Modifier
end Mutagen
