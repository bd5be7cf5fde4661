import Mutagen.Proofs.Entity.Edited
import Mutagen.Proofs.Modifier.Eligibility
import Mutagen.Proofs.Random.Order

/-!
# Shuffled slots

The statements of a function and the methods of a class are shuffled alike: their
places are slots, and each slot gets the text of the one that a random order names.
All slots are written at once from the text as it was, so that nothing is lost and
nothing between the slots moves out of order. A value at the end of a block is no slot,
and stays where it is.
-/
namespace Mutagen
namespace Grammar

/-- The members of a block before its first clause: the statements, and the value at the end. -/
def runOf (g : Grammar) (block : Site) : List Site :=
  let members := match g.membersOf block with
    | [only] => if g.statementListKinds.contains only.kind then g.membersOf only else [only]
    | members => members
  members.takeWhile fun c => !clauseKinds.contains c.kind

/-- The value at the end of a block, where blocks may end in one. -/
def valueOf? (g : Grammar) (block : Site) : Option Site :=
  if g.statementKinds.isEmpty then none
  else (g.runOf block).getLast?.filter fun last => !g.statementKinds.contains last.kind

/-- The value is all that the statements leave out. -/
theorem statementsOf_append (g : Grammar) (block : Site) :
    g.statementsOf block ++ (g.valueOf? block).toList = g.runOf block := by
  change (if !g.statementKinds.isEmpty && (g.runOf block).getLast?.any
    (fun last => !g.statementKinds.contains last.kind) then (g.runOf block).dropLast
    else g.runOf block) ++ _ = _
  unfold valueOf?
  cases g.statementKinds.isEmpty with
  | true => simp
  | false =>
    cases hlast : (g.runOf block).getLast? with
    | none => simp
    | some last =>
      obtain ⟨init, hrun⟩ := List.getLast?_eq_some_iff.1 hlast
      by_cases hkind : last.kind ∈ g.statementKinds
      · simp [Option.filter, hkind]
      · simp [Option.filter, hkind, hrun]

end Grammar

namespace Strategy

/-- The slots that a strategy reorders. -/
def slots? (s : Strategy) (t : Target) : Option (List Site) :=
  match s with
  | shuffleStatements => t.bodyStatements?
  | shuffleMethods => t.methods?
  | _ => none

/-- The value behind the slots. -/
def value? (s : Strategy) (t : Target) : Option Site :=
  match s with
  | shuffleStatements => t.body?.bind t.grammar.valueOf?
  | _ => none

end Strategy

/-! ## Placed texts -/

/-- A loop that pushes one edit for each item, or fails, makes them all. -/
theorem EditList.of_foldlM_push {α : Type} {step : EditList → α → Option EditList}
    {edit : α → Edit} (hstep : ∀ l a l', step l a = some l' → l.push (edit a) = .ok l')
    {items : List α} {l l' : EditList} (hl : l.Separated)
    (h : items.foldlM step l = some l') :
    l'.toList = l.toList ++ items.map edit ∧ l'.Separated := by
  induction items generalizing l with
  | nil =>
    cases h
    exact ⟨by simp, hl⟩
  | cons a items ih =>
    rw [List.foldlM_cons] at h
    obtain ⟨next, hnext, h⟩ := Option.bind_eq_some_iff.1 h
    obtain ⟨hlist, hsep⟩ := (push_eq_ok_iff hl).1 (hstep l a next hnext)
    obtain ⟨hrest, hl'⟩ := ih hsep h
    exact ⟨by simp [hrest, hlist], hl'⟩

namespace Target

variable {t : Target} {slots : List Site} {order : List Nat}

/-- The text of the slot with a given number. -/
def slotText (t : Target) (slots : List Site) (i : Nat) : Text := (slots[i]?.map t.text).getD []

/-- The edits that put into each slot the text of the one that an order names for it. -/
def placed (t : Target) (slots : List Site) (order : List Nat) : List Edit :=
  (slots.zip order).map fun (slot, i) => ⟨slot.span, t.slotText slots i⟩

theorem permuted?_eq_some {edits : EditList} (h : t.permuted? slots order = some edits) :
    edits.toList = t.placed slots order ∧ edits.Separated := by
  refine EditList.of_foldlM_push ?_ EditList.separated_empty h
  rintro done ⟨slot, i⟩ next hnext
  dsimp only at hnext
  split at hnext
  · rename_i next' hpush
    cases hnext
    exact hpush
  · cases hnext

/-- What is written into the slots is what was in them, in another order. -/
theorem placed_perm (t : Target) (horder : order.Perm (List.range slots.length)) :
    ((t.placed slots order).map fun x => x.replacement).Perm
      ((t.placed slots order).map fun x => x.span.text t.source) := by
  have hlength : order.length = slots.length := by
    rw [horder.length_eq, List.length_range]
  have hnew : (t.placed slots order).map (fun x => x.replacement) =
      order.map (t.slotText slots) := by
    have hsnd : (slots.zip order).map Prod.snd = order := List.map_snd_zip (by omega)
    rw [placed, List.map_map]
    conv_rhs => rw [← hsnd, List.map_map]
    rfl
  have hold : (t.placed slots order).map (fun x => x.span.text t.source) =
      (List.range slots.length).map (t.slotText slots) := by
    have hfst : (slots.zip order).map Prod.fst = slots := List.map_fst_zip (by omega)
    have htexts : (List.range slots.length).map (t.slotText slots) = slots.map t.text := by
      apply List.ext_getElem
      · simp
      · intro i hi hi'
        simp at hi
        simp [slotText, hi]
    rw [htexts, placed, List.map_map]
    conv_rhs => rw [← hfst, List.map_map]
    rfl
  rw [hnew, hold]
  exact horder.map _

/-- What a shuffle returns: the entity with its slots in another order. -/
theorem returns_shuffleSlots (t : Target) (e : Entity) (slots : List Site) (p : Float) (n : Nat) :
    Attempt.Returns (fun code => 2 ≤ slots.length ∧ ∃ order edits,
      order.Perm (List.range slots.length) ∧ order ≠ List.range slots.length ∧
      edits.toList = t.placed slots order ∧ edits.Separated ∧ e.mutated? edits = some code)
      (t.shuffleSlots e slots p n) := by
  unfold shuffleSlots
  split
  · exact Attempt.returns_failure _
  · rename_i hlength
    have htwo : 2 ≤ slots.length := by omega
    refine Attempt.returns_bind_of_forall fun flipped => ?_
    split
    · refine Attempt.returns_retry ?_ n
      refine Attempt.returns_bind (Attempt.returns_lift (always_shuffledOrder htwo)) ?_
      rintro order ⟨hperm, hother⟩
      refine Attempt.returns_bind (Attempt.returns_ofOption fun edits hedits => hedits) ?_
      intro edits hedits
      apply Attempt.returns_pure
      intro code hcode
      obtain ⟨hlist, hsep⟩ := permuted?_eq_some hedits
      exact ⟨htwo, order, edits, hperm, hother, hlist, hsep, hcode⟩
    · exact Attempt.returns_failure _

end Target

/-! ## Slots of tiled trees -/

namespace Site

theorem mem_children_of_childOfKinds? {s c : Site} {kinds : List String}
    (h : s.childOfKinds? kinds = some c) : c ∈ s.children :=
  List.mem_of_find?_eq_some h

end Site

namespace Dialect

theorem within_scriptFunction? {s f : Site} (h : scriptFunction? s = some f) : s.Within f := by
  have hliteral : ∀ value : Site, s.Within value →
      (if functionLiterals.contains value.kind = true then pure value else none) = some f →
      s.Within f := by
    intro value hvalue h
    split at h
    · cases h
      exact hvalue
    · cases h
  have hdeclared : ∀ d ∈ s.namedChildren.filter (·.kind == "variable_declarator"),
      ∀ value, d.childByField? "value" = some value → s.Within value := by
    intro d hd value hvalue
    have hchild : d ∈ s.children := (List.mem_filter.1 (List.mem_filter.1 hd).1).1
    exact .child (.child .self hchild) (Site.mem_children_of_childByField? hvalue)
  unfold scriptFunction? at h
  split at h
  case h_1 | h_2 =>
    dsimp only at h
    split at h
    · rename_i d hone
      obtain ⟨value, hvalue, h⟩ := Option.bind_eq_some_iff.1 h
      exact hliteral value (hdeclared d (by simp [hone]) value hvalue) h
    · cases h
  case h_3 =>
    obtain ⟨value, hvalue, h⟩ := Option.bind_eq_some_iff.1 h
    obtain ⟨assignment, hassignment, hright⟩ := Option.bind_eq_some_iff.1 hvalue
    have hchild := Site.mem_children_of_childOfKinds? hassignment
    exact hliteral value
      (.child (.child .self hchild) (Site.mem_children_of_childByField? hright)) h
  case h_4 => cases h

theorem within_phpClosure? {s f : Site} (h : phpClosure? s = some f) : s.Within f := by
  unfold phpClosure? at h
  split at h
  · obtain ⟨assignment, hassignment, h⟩ := Option.bind_eq_some_iff.1 h
    obtain ⟨value, hvalue, h⟩ := Option.bind_eq_some_iff.1 h
    split at h
    · cases h
      exact .child (.child .self (Site.mem_children_of_childOfKinds? hassignment))
        (Site.mem_children_of_childByField? hvalue)
    · cases h
  · cases h

end Dialect

theorem Language.within_boundFunction? (l : Language) {s f : Site}
    (h : l.dialect.boundFunction? s = some f) : s.Within f := by
  cases l with
  | javascript => exact Dialect.within_scriptFunction? h
  | typescript => exact Dialect.within_scriptFunction? h
  | tsx => exact Dialect.within_scriptFunction? h
  | php => exact Dialect.within_phpClosure? h
  | _ => cases h

/-- The body of an entity is part of it. -/
theorem Language.within_body? (l : Language) {s body : Site}
    (h : l.dialect.body? s = some body) : s.Within body := by
  unfold Dialect.body? at h
  split at h
  · rename_i f hf
    exact .child (l.within_boundFunction? hf) (Site.mem_children_of_childByField? h)
  · cases hfield : s.childByField? "body" with
    | some c =>
      rw [hfield] at h
      cases h
      exact .child .self (Site.mem_children_of_childByField? hfield)
    | none =>
      rw [hfield, Option.none_or] at h
      exact .child .self (Site.mem_children_of_childOfKinds? h)

theorem Grammar.membersOf_sublist (g : Grammar) (s : Site) :
    (g.membersOf s).Sublist s.children :=
  List.filter_sublist.trans List.filter_sublist

/-- The run of a block is some of the children of one node. -/
theorem Grammar.exists_runOf_sublist (g : Grammar) (block : Site) :
    ∃ s, block.Within s ∧ (g.runOf block).Sublist s.children := by
  unfold runOf
  dsimp only
  split
  · rename_i only hone
    have honly : only ∈ block.children := by
      apply (g.membersOf_sublist block).subset
      simp [hone]
    split
    · exact ⟨only, .child .self honly, (List.takeWhile_sublist _).trans (g.membersOf_sublist only)⟩
    · have hsub := g.membersOf_sublist block
      rw [hone] at hsub
      exact ⟨block, .self, (List.takeWhile_sublist _).trans hsub⟩
  · exact ⟨block, .self, (List.takeWhile_sublist _).trans (g.membersOf_sublist block)⟩

/-- Slots end inside an entity, and a value stands in it behind all slots. -/
structure Entity.Laid (e : Entity) (slots : List Site) (value : Option Site) : Prop where
  inside : ∀ s ∈ slots, s.span.stop ≤ e.span.stop
  behind : ∀ v ∈ value, e.span.contains v.span = true ∧
    ∀ s ∈ slots, s.span.stop ≤ v.span.start

/-- In a tiled tree the slots of every strategy are laid out in the entity. -/
theorem Strategy.laid_of_tiled {s : Strategy} {e : Entity} {t : Target} {slots : List Site}
    (hroot : e.handle.root.Tiled) (ht : e.target? = some t) (hslots : s.slots? t = some slots) :
    e.Laid slots (s.value? t) := by
  obtain ⟨hsite, hspan, -, hdialect⟩ := Entity.of_target?_eq_some ht
  have hbodyWithin : ∀ body, t.body? = some body → t.site.Within body := by
    intro body hbody
    rw [Target.body?, hdialect] at hbody
    exact e.language.within_body? hbody
  have hin : ∀ x, t.site.Within x → e.span.contains x.span = true := by
    intro x hx
    rw [← hspan]
    exact Span.contains_iff.2 (hroot.start_le_and_stop_le hsite hx)
  cases s with
  | shuffleStatements =>
    obtain ⟨body, hbody, hslots⟩ := Option.bind_eq_some_iff.1 hslots
    split at hslots
    · cases hslots
      obtain ⟨around, haround, hsub⟩ := t.grammar.exists_runOf_sublist body
      have hwithin : t.site.Within around := (hbodyWithin body hbody).trans haround
      have hrun := (hroot.apart around (Site.mem_preorder_iff.2 (hsite.trans hwithin))).sublist hsub
      rw [← t.grammar.statementsOf_append body] at hrun hsub
      constructor
      · intro x hx
        have hmem := hsub.subset (List.mem_append_left _ hx)
        exact (Span.contains_iff.1 (hin x (.child hwithin hmem))).2
      · intro v hv
        rw [value?, hbody] at hv
        have hv : v ∈ (t.grammar.valueOf? body).toList := Option.mem_toList.2 hv
        have hmem := hsub.subset (List.mem_append_right _ hv)
        refine ⟨hin v (.child hwithin hmem), ?_⟩
        intro x hx
        exact (List.pairwise_append.1 hrun).2.2 x hx v hv
    · cases hslots
  | shuffleMethods =>
    obtain ⟨body, hbody, hslots⟩ := Option.bind_eq_some_iff.1 hslots
    cases hslots
    constructor
    · intro x hx
      have hmem : x ∈ body.children := (List.mem_filter.1 (List.mem_filter.1 hx).1).1
      exact (Span.contains_iff.1 (hin x (.child (hbodyWithin body hbody) hmem))).2
    · intro v hv
      cases hv
  | _ => cases hslots

/-! ## Modifiers -/

namespace Strategy

/-- The strategies that reorder slots. -/
def shuffling : List Strategy := [shuffleStatements, shuffleMethods]

theorem returns_run_shuffling {s : Strategy} (hs : s ∈ shuffling) (e : Entity) (p : Float)
    (n : Nat) :
    Attempt.Returns (fun code => ∃ t slots order edits, e.target? = some t ∧
      s.slots? t = some slots ∧ 2 ≤ slots.length ∧ order.Perm (List.range slots.length) ∧
      order ≠ List.range slots.length ∧ edits.toList = t.placed slots order ∧
      edits.Separated ∧ e.mutated? edits = some code) (s.run e p n) := by
  have hshuffle : ∀ t, e.target? = some t → Attempt.Returns (fun code => ∃ t slots order edits,
      e.target? = some t ∧ s.slots? t = some slots ∧ 2 ≤ slots.length ∧
      order.Perm (List.range slots.length) ∧ order ≠ List.range slots.length ∧
      edits.toList = t.placed slots order ∧ edits.Separated ∧ e.mutated? edits = some code)
      (Attempt.ofOption (s.slots? t) >>= fun slots => t.shuffleSlots e slots p n) := by
    intro t ht
    refine Attempt.returns_bind (Attempt.returns_ofOption fun slots hslots => hslots) ?_
    intro slots hslots
    refine (t.returns_shuffleSlots e slots p n).imp ?_
    rintro code ⟨htwo, order, edits, hmade⟩
    exact ⟨t, slots, order, edits, ht, hslots, htwo, hmade⟩
  refine Attempt.returns_bind (Attempt.returns_ofOption fun t ht => ht) ?_
  intro t ht
  rcases List.mem_cons.1 hs with rfl | hs
  · exact hshuffle t ht
  · obtain rfl := List.mem_singleton.1 hs
    exact hshuffle t ht

end Strategy

namespace Modifier

/-- Shuffling permutes and loses nothing. What a shuffle shows of an entity is, before it is
dedented, the text with each slot holding the text of the slot that an order names, an order other
than the usual one. All bytes are kept, and a value behind the slots keeps its text and its
place. -/
theorem modify_shuffles_slots (m : Modifier) (hm : m.strategy ∈ Strategy.shuffling) (e : Entity)
    (hlaid : ∀ t slots, e.target? = some t → m.strategy.slots? t = some slots →
      e.Laid slots (m.strategy.value? t))
    (w : Mutant) (hw : (m.modify e).1 = some w) :
    ∃ t slots order r, e.target? = some t ∧ m.strategy.slots? t = some slots ∧
      order.Perm (List.range slots.length) ∧ order ≠ List.range slots.length ∧
      w.code = Text.dedent r e.indent ∧ e.Edited (t.placed slots order) r ∧
      r.size = e.raw.size ∧ r.bytes.Perm e.raw.bytes ∧
      ∀ v ∈ m.strategy.value? t, ∀ x,
        t.source.slice? v.span.start v.span.stop = some x →
        r.slice? (v.span.start - e.span.start) (v.span.stop - e.span.start) = some x := by
  obtain ⟨-, t, slots, order, edits, ht, hslots, htwo, hperm, hother, hlist, hsep, hcode⟩ :=
    of_modify_eq_some (Strategy.returns_run_shuffling hm e m.likelihood m.attempts) hw
  obtain ⟨hinside, hbehind⟩ := hlaid t slots ht hslots
  obtain ⟨-, -, hsource, -⟩ := Entity.of_target?_eq_some ht
  have hslot : ∀ x ∈ t.placed slots order, ∃ s ∈ slots, x.span = s.span := by
    intro x hx
    obtain ⟨⟨s, i⟩, hs, rfl⟩ := List.mem_map.1 hx
    exact ⟨s, (List.of_mem_zip hs).1, rfl⟩
  have hlength : 2 ≤ edits.toList.length := by
    have horder : order.length = slots.length := by rw [hperm.length_eq, List.length_range]
    rw [hlist, Target.placed, List.length_map, List.length_zip]
    omega
  have hstop : ∀ x ∈ edits.toList, x.span.stop ≤ e.span.stop := by
    intro x hx
    rw [hlist] at hx
    obtain ⟨s, hs, hspan⟩ := hslot x hx
    rw [hspan]
    exact hinside s hs
  obtain ⟨r, hr, hedited⟩ := Entity.edited_of_mutated? hsep hlength hstop hcode
  rw [hlist] at hedited
  have hkept : r.Perm e.raw := by
    apply hedited.perm
    rw [← hsource]
    exact t.placed_perm hperm
  have hsize := Text.size_eq_of_perm hkept
  refine ⟨t, slots, order, r, ht, hslots, hperm, hother, hr, hedited, hsize,
    Text.bytes_perm hkept, ?_⟩
  intro v hv x hx
  obtain ⟨hin, hslots⟩ := hbehind v hv
  rw [Span.contains_iff] at hin
  rw [hsource] at hx
  apply hedited.slice?_behind hsize hin.1 hin.2 _ hx
  intro y hy
  obtain ⟨s, hs, hspan⟩ := hslot y hy
  rw [hspan]
  exact hslots s hs

/-- A function of two statements that ends in a value. -/
def valuedText : Text := "fn f() \x7b a; b; c \x7d".toList

/-- The tree of this function. -/
def valuedTree : Node :=
  .ofSpan "source_file" true none 0 18 [
    .ofSpan "function_item" true none 0 18 [
      .ofSpan "identifier" true (some "name") 3 4 [],
      .ofSpan "block" true (some "body") 7 18 [
        .ofSpan "expression_statement" true none 9 11 [.ofSpan "identifier" true none 9 10 []],
        .ofSpan "expression_statement" true none 12 14 [.ofSpan "identifier" true none 12 13 []],
        .ofSpan "identifier" true none 15 16 []]]]

/-- The two statements change places, and the value stays. -/
theorem modify_shuffles_slots_valued :
    ∃ e ∈ Language.rust.dialect.extract ⟨"f.rs", valuedText, valuedTree⟩ none,
      ((ofStrategy .shuffleStatements .rust 0).modify e).1 =
          some ⟨"fn f() \x7b b; a; c \x7d".toList, .shuffleStatements⟩ ∧
        ∃ t slots order r, e.target? = some t ∧ t.bodyStatements? = some slots ∧
          order.Perm (List.range slots.length) ∧ order ≠ List.range slots.length ∧
          "fn f() \x7b b; a; c \x7d".toList = Text.dedent r e.indent ∧
          e.Edited (t.placed slots order) r ∧ r.size = e.raw.size ∧
          r.slice? (15 - e.span.start) (16 - e.span.start) = some ['c'] := by
  have hfound : ∃ e ∈ Language.rust.dialect.extract ⟨"f.rs", valuedText, valuedTree⟩ none,
      ((ofStrategy .shuffleStatements .rust 0).modify e).1 =
          some ⟨"fn f() \x7b b; a; c \x7d".toList, .shuffleStatements⟩ ∧
        (e.target?.bind Strategy.shuffleStatements.value?).map (·.span) = some ⟨15, 16⟩ := by
    simp only [modify, Strategy.run, Target.shuffleSlots, Entity.mutated?_eq_changed?]
    decide +kernel
  obtain ⟨e, he, hw, hvalue⟩ := hfound
  have hroot : e.handle.root.Tiled := by
    rw [(Entity.handle_of_mem_extract he).1]
    decide +kernel
  obtain ⟨t, slots, order, r, ht, hslots, hperm, hother, hr, hedited, hsize, -, hkept⟩ :=
    modify_shuffles_slots (ofStrategy .shuffleStatements .rust 0) (by decide) e
      (fun t slots ht hslots => Strategy.laid_of_tiled hroot ht hslots) _ hw
  rw [ht] at hvalue
  obtain ⟨v, hv, hspan⟩ := Option.map_eq_some_iff.1 hvalue
  have htext : t.source.slice? v.span.start v.span.stop = some ['c'] := by
    obtain ⟨-, -, -, -, hsource⟩ := Entity.of_target?_of_mem_extract he ht
    rw [hsource, hspan]
    decide +kernel
  have hplace := hkept v hv _ htext
  rw [hspan] at hplace
  exact ⟨e, he, hw, t, slots, order, r, ht, hslots, hperm, hother, hr, hedited, hsize, hplace⟩

end Modifier
end Mutagen
