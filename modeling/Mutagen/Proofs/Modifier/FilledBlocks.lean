import Mathlib.Data.List.Perm.Subperm
import Mutagen.Proofs.Modifier.BlockTable
import Mutagen.Proofs.Modifier.DrawnRemovals

/-!
# Filled blocks

In a language without empty blocks, a block that loses all its statements gets a filler in
the place of the last one. A block has lost them all when there are as many removals in it
as statements that are not comments, because removals are children of their block and no
two of them are the same.
-/
namespace Mutagen

theorem exists_last_of_any {α : Type} {p : α → Bool} {l : List α} (h : l.any p = true) :
    ∃ earlier a later, l = earlier ++ a :: later ∧ p a = true ∧ later.any p = false := by
  induction l with
  | nil => cases h
  | cons a l ih =>
    cases hrest : l.any p with
    | true =>
      obtain ⟨earlier, b, later, hl, hb, hlater⟩ := ih hrest
      exact ⟨a :: earlier, b, later, by rw [hl, List.cons_append], hb, hlater⟩
    | false =>
      rw [List.any_cons, hrest, Bool.or_false] at h
      exact ⟨[], a, l, rfl, h, hrest⟩

namespace Target

variable {t : Target} {removed : List Site} {root : Node}

/-! ## Emptied blocks -/

/-- All statements of a block are removed. -/
def Empties (t : Target) (removed : List Site) (block : Site) : Prop :=
  ∀ c ∈ block.namedChildren, t.grammar.isComment c.kind = false → c ∈ removed

/-- The statement is the last one of a block that loses all its statements. -/
def Closes (t : Target) (removed : List Site) (s : Site) : Prop :=
  ∃ block, s ∈ block.children ∧ t.Empties removed block ∧
    ∀ c ∈ removed, c ∈ block.children → c = s ∨ c.span.stop ≤ s.span.start

theorem Removable.nodup (h : t.Removable removed) : removed.Nodup := by
  refine h.clear.imp_of_mem ?_
  rintro a b ha - hab rfl
  have hpos := (h.firm a ha).start_lt_stop
  omega

section Blocks

variable (hin : ∀ x ∈ removed, (Site.top root).Within x)

include hin

theorem inBlock_iff {b : Site} (hb : (Site.top root).Within b) {r : Removal}
    (hr : r.statement ∈ removed) : r.inBlock b = true ↔ r.statement ∈ b.children := by
  rw [Removal.inBlock]
  constructor
  · exact Site.mem_children_of_same (hin _ hr) hb
  · intro hchild
    rw [Site.parent?_of_mem_children hchild]
    simp [Site.same]

/-- A block loses all its statements exactly when it is seen to, by counting them. -/
theorem emptied_iff (hnodup : removed.Nodup)
    (hnamed : ∀ x ∈ removed, x.named = true ∧ t.grammar.isComment x.kind = false) {b : Site}
    (hb : (Site.top root).Within b) :
    t.emptied (t.removals removed) b = true ↔ t.Empties removed b := by
  let here (x : Site) : Bool := x.parent?.any (·.same b)
  let counts (c : Site) : Bool := !t.grammar.isComment c.kind
  have hremoved : (t.removals removed).countP (Removal.inBlock b) =
      (removed.filter here).length := by
    have hcount := (t.map_statement_removals removed).countP_eq here
    rw [List.countP_map] at hcount
    rw [← List.countP_eq_length_filter, ← hcount]
    rfl
  have hall : (b.namedChildren.filter counts).Nodup := (b.nodup_children.filter _).filter _
  have hiff : ∀ x ∈ removed, (here x = true ↔ x ∈ b.children) :=
    fun x hx => inBlock_iff (r := ⟨x, x.span⟩) hin hb hx
  rw [emptied, decide_eq_true_eq, hremoved, List.countP_eq_length_filter]
  constructor
  · intro hle c hc hcomment
    -- the removals are among the children, and as many
    have hsub : removed.filter here ⊆ b.namedChildren.filter counts := by
      intro x hx
      obtain ⟨hx, hblock⟩ := List.mem_filter.1 hx
      obtain ⟨hname, hcomment⟩ := hnamed x hx
      exact List.mem_filter.2 ⟨List.mem_filter.2 ⟨(hiff x hx).1 hblock, hname⟩, by
        simp [counts, hcomment]⟩
    have hperm := (List.subperm_of_subset (hnodup.filter here) hsub).perm_of_length_le hle
    have hmem := hperm.mem_iff.2 (List.mem_filter.2 ⟨hc, by simp [counts, hcomment]⟩)
    exact (List.mem_filter.1 hmem).1
  · intro hempties
    refine (List.subperm_of_subset hall ?_).length_le
    intro c hc
    obtain ⟨hc, hcomment⟩ := List.mem_filter.1 hc
    have hmem := hempties c hc (by simpa [counts] using hcomment)
    exact List.mem_filter.2 ⟨hmem, (hiff c hmem).2 (List.mem_filter.1 hc).1⟩

end Blocks

/-! ## Fillers -/

/-- The filler in the place of a statement: on a line of its own, indented like the statement, when
the lines of the statement go, and else in the line. -/
def filled (t : Target) (filler : Text) (s : Site) : Text :=
  let lines := t.source.wholeLines s.span
  if lines = ⟨t.source.lineStart s.span.start, t.source.lineStop s.span.stop⟩ then
    t.source.lineIndent s.span.start ++ filler ++
      (if (lines.text t.source).getLast? == some '\n' then ['\n'] else [])
  else filler

/-- Whether the lines of a statement go can be told from where its removal starts. -/
theorem fillerAt_eq_filled (filler : Text) {r : Removal}
    (hspan : r.span = t.source.wholeLines r.statement.span) (hfirm : (t.text r.statement).Firm) :
    t.fillerAt filler r = t.filled filler r.statement := by
  rw [fillerAt, filled, hspan]
  by_cases hwide : t.source.wholeLines r.statement.span =
      ⟨t.source.lineStart r.statement.span.start, t.source.lineStop r.statement.span.stop⟩
  · have hline : (t.source.wholeLines r.statement.span).start =
        t.source.lineStart (t.source.wholeLines r.statement.span).start := by
      rw [hwide]
      exact (Text.lineStart_lineStart hfirm.fits.start).symm
    rw [if_pos hwide, if_pos hline]
  · -- a statement that keeps its line has no indentation at the start of it, and ends in no newline
    rw [if_neg hwide, (Text.wholeLines_eq_or _ _).resolve_right hwide]
    split
    · rename_i hline
      obtain ⟨c, hc, hblank, -⟩ := hfirm.first
      obtain ⟨d, hd, hdblank⟩ := hfirm.last
      have hlast : (r.statement.span.text t.source).getLast? = some d := hd
      have hnewline : d ≠ '\n' := by
        rintro rfl
        cases hdblank
      rw [Text.lineIndent_eq_nil hline.symm (Span.first_of_head? hc).1 hblank, hlast]
      simp [hnewline]
    · rfl

theorem replacement_eq_filled {filler : String} (hfiller : t.grammar.emptyBlockFiller = some filler)
    {all later : List Removal} {r : Removal} {b : Site} (hb : r.statement ∈ b.children)
    (hspan : r.span = t.source.wholeLines r.statement.span) (hfirm : (t.text r.statement).Firm) :
    t.replacement all r later =
      if (t.emptied all b && !later.any (Removal.inBlock b)) = true then
        t.filled filler.toList r.statement
      else [] := by
  rw [replacement_eq hfiller (Site.parent?_of_mem_children hb), fillerAt_eq_filled _ hspan hfirm]

section Removable

variable (h : t.Removable removed)

section Tree

variable (hin : ∀ x ∈ removed, (Site.top root).Within x)
  (hnamed : ∀ x ∈ removed, x.named = true ∧ t.grammar.isComment x.kind = false) {b : Site}
  (hb : (Site.top root).Within b)

include h hin hnamed hb

/-- A statement closes its block when the block loses all its statements and no later one is in the
block. -/
theorem closes_iff {earlier later : List Removal} {r : Removal}
    (hrs : t.removals removed = earlier ++ r :: later) (hr : r.statement ∈ b.children) :
    t.Closes removed r.statement ↔
      t.emptied (t.removals removed) b = true ∧ later.any (Removal.inBlock b) = false := by
  have hmem : ∀ q ∈ t.removals removed, q.statement ∈ removed := fun q hq => (of_mem_removals hq).1
  have hordered := removals_ordered h
  rw [hrs] at hmem hordered
  obtain ⟨-, hrlater, hearlier⟩ := List.pairwise_append.1 hordered
  have hpos := (h.firm _ (hmem r (by simp))).start_lt_stop
  rw [emptied_iff hin h.nodup hnamed hb]
  constructor
  · rintro ⟨block, hblock, hempties, hlast⟩
    rw [Site.eq_of_mem_children hblock hr] at hempties hlast
    refine ⟨hempties, List.any_eq_false.2 fun q hq hqb => ?_⟩
    have hqmem := hmem q (by simp [hq])
    have hbehind := (List.pairwise_cons.1 hrlater).1 q hq
    have hqpos := (h.firm _ hqmem).start_lt_stop
    rcases hlast _ hqmem ((inBlock_iff hin hb hqmem).1 hqb) with heq | hbefore
    · rw [heq] at hbehind
      omega
    · omega
  · rintro ⟨hempties, hlast⟩
    refine ⟨b, hr, hempties, ?_⟩
    intro c hc hcb
    obtain ⟨q, hq, rfl⟩ := List.mem_map.1 ((t.map_statement_removals removed).mem_iff.2 hc)
    rw [hrs] at hq
    rcases List.mem_append.1 hq with hq | hq
    · exact .inr (hearlier q hq r (by simp))
    · rcases List.mem_cons.1 hq with rfl | hq
      · exact .inl rfl
      · exact absurd ((inBlock_iff hin hb hc).2 hcb) (List.any_eq_false.1 hlast q hq)

/-- A block that loses all its statements is closed by exactly one of them. -/
theorem existsUnique_closing (hempties : t.Empties removed b)
    (hsome : ∃ s ∈ removed, s ∈ b.children) :
    ∃! s, s ∈ removed ∧ s ∈ b.children ∧ t.Closes removed s := by
  obtain ⟨s, hs, hsb⟩ := hsome
  obtain ⟨q, hq, rfl⟩ := List.mem_map.1 ((t.map_statement_removals removed).mem_iff.2 hs)
  have hany : (t.removals removed).any (Removal.inBlock b) = true :=
    List.any_eq_true.2 ⟨q, hq, (inBlock_iff hin hb hs).2 hsb⟩
  obtain ⟨earlier, r, later, hrs, hrb, hlast⟩ := exists_last_of_any hany
  have hr : r.statement ∈ removed := (of_mem_removals (r := r) (t := t) (by rw [hrs]; simp)).1
  have hrchild := (inBlock_iff hin hb hr).1 hrb
  have hcloses := (closes_iff h hin hnamed hb hrs hrchild).2
    ⟨(emptied_iff hin h.nodup hnamed hb).2 hempties, hlast⟩
  refine ⟨r.statement, ⟨hr, hrchild, hcloses⟩, ?_⟩
  rintro s ⟨hs, hsb, block, hblock, -, hslast⟩
  obtain ⟨block', hblock', -, hrlast⟩ := hcloses
  rw [Site.eq_of_mem_children hblock hsb] at hslast
  rw [Site.eq_of_mem_children hblock' hrchild] at hrlast
  rcases hrlast s hs hsb with heq | hbefore
  · exact heq
  · rcases hslast _ hr hrchild with heq | hbehind
    · exact heq.symm
    · have hspos := (h.firm s hs).start_lt_stop
      have hrpos := (h.firm _ hr).start_lt_stop
      omega

/-- A block that loses statements keeps another one, or is closed by exactly one of them. -/
theorem keeps_or_existsUnique_closing (hsome : ∃ s ∈ removed, s ∈ b.children) :
    ((∃ c ∈ b.namedChildren, t.grammar.isComment c.kind = false ∧ c ∉ removed) ∧
      ∀ s ∈ b.children, ¬ t.Closes removed s) ∨
    ∃! s, s ∈ removed ∧ s ∈ b.children ∧ t.Closes removed s := by
  by_cases hempties : t.Empties removed b
  · exact .inr (existsUnique_closing h hin hnamed hb hempties hsome)
  · refine .inl ⟨?_, ?_⟩
    · by_contra hall
      apply hempties
      intro c hc hcomment
      by_contra hnot
      exact hall ⟨c, hc, hcomment, hnot⟩
    · rintro s hsb ⟨block, hblock, hall, -⟩
      rw [Site.eq_of_mem_children hblock hsb] at hall
      exact hempties hall

end Tree

include h

/-- The filler takes the place of the statements that close their blocks, and all others are
deleted. -/
theorem exists_filled {filler : String} (hfiller : t.grammar.emptyBlockFiller = some filler)
    (hin : ∀ x ∈ removed, (Site.top root).Within x ∧ ∃ b : Site, x ∈ b.children)
    (hnamed : ∀ x ∈ removed, x.named = true ∧ t.grammar.isComment x.kind = false) :
    ∃ order, order.Perm removed ∧ order.Pairwise (fun a b => a.span.stop ≤ b.span.start) ∧
      List.Forall₂ (fun x s => x.span = t.source.wholeLines s.span ∧
        (t.Closes removed s → x.replacement = t.filled filler.toList s) ∧
        (¬ t.Closes removed s → x.replacement = [])) (t.removalEdits removed).toList order := by
  refine ⟨_, t.map_statement_removals removed, List.pairwise_map.2 (removals_ordered h), ?_⟩
  rw [removalEdits_eq h]
  refine List.forall₂_map_right_iff.2 (forall₂_editsFrom ?_)
  intro earlier r later hrs
  obtain ⟨hmem, hspan⟩ := of_mem_removals (r := r) (t := t) (by rw [hrs]; simp)
  obtain ⟨hwithin, b, hb⟩ := hin _ hmem
  have hbwithin := (hwithin.of_parent? (Site.parent?_of_mem_children hb)).1
  have hcloses := closes_iff h (fun x hx => (hin x hx).1) hnamed hbwithin hrs hb
  dsimp only
  rw [replacement_eq_filled hfiller hb hspan (h.firm _ hmem), hcloses]
  refine ⟨hspan, ?_, ?_⟩
  · rintro ⟨hempty, hlast⟩
    rw [if_pos (by rw [hempty, hlast]; rfl)]
  · intro hnot
    rw [if_neg]
    simpa using hnot

end Removable

section Table

variable (hin : ∀ x ∈ removed, (Site.top root).Within x ∧ ∃ b : Site, x ∈ b.children)
  {table : List (Site × Nat)} (hperm : table.Perm (blockTable (t.removals removed)))

include hin hperm

/-- A place gets a filler from the table when its statement is the last one in a block that loses
all its statements. -/
theorem any_fillsAt {earlier later : List Removal} {r : Removal} {b : Site}
    (hrs : t.removals removed = earlier ++ r :: later) (hb : (Site.top root).Within b)
    (hr : r.statement ∈ b.children) :
    table.any (t.fillsAt (t.removals removed) earlier.length) =
      (t.emptied (t.removals removed) b && !later.any (Removal.inBlock b)) := by
  have htallies := tallies_blockTable (t.removals removed)
  have hwithin : ∀ x ∈ removed, (Site.top root).Within x := fun x hx => (hin x hx).1
  have hrmem : r ∈ t.removals removed := by rw [hrs]; simp
  have hfills : ∀ entry : Site × Nat,
      t.fillsAt (t.removals removed) earlier.length entry = true ↔
        entry.1.namedChildren.countP (fun c => !t.grammar.isComment c.kind) ≤ entry.2 ∧
          r.inBlock entry.1 = true ∧ later.any (Removal.inBlock entry.1) = false := by
    intro entry
    have hlast := @lastIn?_eq_some_iff entry.1 0 earlier later r
    rw [fillsAt, Bool.and_eq_true, decide_eq_true_eq, beq_iff_eq, ← hlast, hrs, Nat.zero_add]
  have hentry : ∀ entry ∈ blockTable (t.removals removed), (Site.top root).Within entry.1 := by
    intro entry hentry
    obtain ⟨-, q, hq, hparent⟩ := htallies.counted entry hentry
    exact ((hwithin _ (of_mem_removals hq).1).of_parent? hparent).1
  rw [Bool.eq_iff_iff, List.any_eq_true]
  constructor
  · rintro ⟨entry, hmem, hfill⟩
    have hmem := hperm.mem_iff.1 hmem
    obtain ⟨hle, hblock, hlast⟩ := (hfills entry).1 hfill
    have hchild := (inBlock_iff hwithin (hentry entry hmem) (of_mem_removals hrmem).1).1 hblock
    rw [Site.eq_of_mem_children hchild hr] at hle hlast
    have hcount := (htallies.counted entry hmem).1
    rw [Site.eq_of_mem_children hchild hr] at hcount
    rw [emptied, ← hcount, decide_eq_true hle, hlast]
    rfl
  · intro hcloses
    obtain ⟨hempty, hlast⟩ := Bool.and_eq_true_iff.1 hcloses
    obtain ⟨entry, hmem, haddress⟩ := List.mem_map.1 (htallies.complete r hrmem b
      (Site.parent?_of_mem_children hr))
    have heq : entry.1 = b := Site.eq_of_same (hentry entry hmem) hb (beq_iff_eq.2 haddress)
    refine ⟨entry, hperm.mem_iff.2 hmem, (hfills entry).2 ?_⟩
    rw [(htallies.counted entry hmem).1, heq]
    exact ⟨of_decide_eq_true hempty,
      (inBlock_iff hwithin hb (of_mem_removals hrmem).1).2 hr, by simpa using hlast⟩

/-- The edits are the same in whatever order the blocks are gone through. -/
theorem editsByTable_eq : t.editsByTable (t.removals removed) table = t.removalEdits removed := by
  refine @foldl_zipIdx_eq_removeFrom t _ [] _ _ _ rfl ?_
  intro earlier r later hrs
  obtain ⟨hmem, hspan⟩ := of_mem_removals (r := r) (t := t) (by rw [hrs]; simp)
  obtain ⟨hwithin, b, hb⟩ := hin _ hmem
  have hparent := Site.parent?_of_mem_children hb
  cases hfiller : t.grammar.emptyBlockFiller with
  | none => rw [replacement_eq_nil hfiller]; rfl
  | some filler =>
    dsimp only
    rw [lookup_foldl_addFiller, replacement_eq hfiller hparent,
      any_fillsAt hin hperm hrs (hwithin.of_parent? hparent).1 hb, hrs]
    split <;> simp

end Table

/-- Calls are replaced beside the removals. -/
theorem methodRemoval_append (t : Target) (removed : List Site) :
    ∃ calls, (t.methodRemoval removed).toList = (t.removalEdits removed).toList ++ calls ∧
      ∀ x ∈ calls, x.replacement = t.grammar.nullLiteral.toList := by
  rw [methodRemoval, neutralizeCalls_eq]
  obtain ⟨kept, hsub, hlist⟩ := EditList.exists_kept_of_offerAll (t.removalEdits removed)
    ((t.callsOf (removed.filterMap t.memberName?)).map t.nullEdit)
  refine ⟨kept, hlist, ?_⟩
  intro x hx
  obtain ⟨c, -, rfl⟩ := List.mem_map.1 (hsub.subset hx)
  rfl

end Target

/-! ## Modifiers -/

namespace Modifier

/-- No block of a Python file is left empty. Whatever a strategy draws for removal, every block that
loses one of its statements keeps another one, or else exactly one of those that it loses is
replaced by `pass`: the last one, indented like the statement when its lines go. All others are
deleted. The blocks can be gone through in any order for this, and what stands in the place of calls
of removed methods is beside it. -/
theorem modify_fills_blocks (m : Modifier) (e : Entity) (hlanguage : e.language = .python)
    (hroot : e.handle.root.Tiled) (t : Target) (ht : e.target? = some t) (removed : List Site)
    (hdraws : t.Draws m.strategy m.likelihood removed)
    (hfirm : ∀ s ∈ removed, (t.text s).Firm)
    (hnamed : ∀ s ∈ removed, s.named = true ∧ t.grammar.isComment s.kind = false) :
    (∃ order, order.Perm removed ∧ order.Pairwise (fun a b => a.span.stop ≤ b.span.start) ∧
      List.Forall₂ (fun x s => x.span = t.source.wholeLines s.span ∧
        (t.Closes removed s → x.replacement = t.filled "pass".toList s) ∧
        (¬ t.Closes removed s → x.replacement = [])) (t.removalEdits removed).toList order) ∧
    (∀ b : Site, (∃ s ∈ removed, s ∈ b.children) →
      ((∃ c ∈ b.namedChildren, t.grammar.isComment c.kind = false ∧ c ∉ removed) ∧
        ∀ s ∈ b.children, ¬ t.Closes removed s) ∨
      ∃! s, s ∈ removed ∧ s ∈ b.children ∧ t.Closes removed s) ∧
    (∃ calls, (t.methodRemoval removed).toList = (t.removalEdits removed).toList ++ calls ∧
      ∀ x ∈ calls, x.replacement = t.grammar.nullLiteral.toList) ∧
    ∀ table, table.Perm (Target.blockTable (t.removals removed)) →
      t.editsByTable (t.removals removed) table = t.removalEdits removed := by
  obtain ⟨hsite, -, -, hdialect⟩ := Entity.of_target?_eq_some ht
  have hbody := Entity.within_body? ht
  have hfiller : t.grammar.emptyBlockFiller = some "pass" := by
    rw [Target.grammar, hdialect, hlanguage]
    rfl
  have hin := fun x hx => Target.within_of_draws hsite hbody hdraws (x := x) hx
  have hwithin : ∀ x ∈ removed, (Site.top e.handle.root).Within x := fun x hx => (hin x hx).1
  have hremovable := Target.removable_of_draws hsite hbody hdraws hroot hfirm
  refine ⟨Target.exists_filled hremovable hfiller hin hnamed, ?_, t.methodRemoval_append removed,
    fun table hperm => Target.editsByTable_eq hin hperm⟩
  rintro b ⟨s, hs, hsb⟩
  have hb := ((hwithin s hs).of_parent? (Site.parent?_of_mem_children hsb)).1
  exact Target.keeps_or_existsUnique_closing hremovable hwithin hnamed hb ⟨s, hs, hsb⟩

/-- A function with a loop that does nothing but assign. -/
def loopingText : Text :=
  "def f(xs):\n    for x in xs:\n        y = x\n    return 1".toList

/-- The tree of this function. -/
def loopingTree : Node :=
  .ofSpan "module" true none 0 54 [
    .ofSpan "function_definition" true none 0 54 [
      .ofSpan "identifier" true (some "name") 4 5 [],
      .ofSpan "parameters" true (some "parameters") 5 9 [],
      .ofSpan "block" true (some "body") 15 54 [
        .ofSpan "for_statement" true none 15 41 [
          .ofSpan "identifier" true (some "left") 19 20 [],
          .ofSpan "identifier" true (some "right") 24 26 [],
          .ofSpan "block" true (some "body") 36 41 [
            .ofSpan "expression_statement" true none 36 41 [
              .ofSpan "assignment" true none 36 41 []]]],
        .ofSpan "return_statement" true none 46 54 []]]]

/-- The only statement of the loop is removed, and `pass` takes its line. -/
theorem modify_fills_blocks_looping :
    ∃ e ∈ Language.python.dialect.extract ⟨"f.py", loopingText, loopingTree⟩ none,
      ∃ (t : Target) (removed : List Site) (s : Site), e.target? = some t ∧
        t.Draws .removeAssignments
          ((ofStrategy .removeAssignments .python 0).setLikelihood 1.0).likelihood removed ∧
        t.text s = "y = x".toList ∧ s ∈ removed ∧ t.Closes removed s ∧
        ∃ x ∈ (t.removalEdits removed).toList, x.span = t.source.wholeLines s.span ∧
          x.replacement = "        pass\n".toList := by
  have hfound : ∃ e ∈ Language.python.dialect.extract ⟨"f.py", loopingText, loopingTree⟩ none,
      ∃ t ∈ e.target?, e.language = .python ∧
        (t.chooseStatements t.grammar.assignmentKinds
          ((ofStrategy .removeAssignments .python 0).setLikelihood 1.0).likelihood
          (Generator.ofSeed 0)).1.map t.text = ["y = x".toList] ∧
        ∀ s ∈ (t.chooseStatements t.grammar.assignmentKinds
            ((ofStrategy .removeAssignments .python 0).setLikelihood 1.0).likelihood
            (Generator.ofSeed 0)).1,
          (t.text s).Firm ∧ s.named = true ∧ t.grammar.isComment s.kind = false ∧
            t.filled "pass".toList s = "        pass\n".toList ∧
            ∃ b ∈ s.parent?, b.namedChildren.length = 1 := by
    decide +kernel
  obtain ⟨e, he, t, ht, hroot, hsite, hlanguage, htexts, hmade⟩ :=
    Entity.exists_target_of_extract hfound
  obtain ⟨s, rest, hchosen, htext, hnone⟩ := List.map_eq_cons_iff.1 htexts
  cases List.map_eq_nil_iff.1 hnone
  rw [hchosen] at hmade
  obtain ⟨hfirm, hname, hcomment, hfilled, b, hb, hone⟩ := hmade s List.mem_cons_self
  have htree : e.handle.root.Tiled := by
    rw [hroot]
    decide +kernel
  have hdraws : t.Draws .removeAssignments
      ((ofStrategy .removeAssignments .python 0).setLikelihood 1.0).likelihood [s] :=
    .inl ⟨_, Generator.ofSeed 0, rfl, hchosen.symm⟩
  obtain ⟨⟨order, horder, -, hedits⟩, hblocks, -⟩ := modify_fills_blocks
    ((ofStrategy .removeAssignments .python 0).setLikelihood 1.0) e hlanguage htree t ht [s] hdraws
    (List.forall_mem_singleton.2 hfirm) (List.forall_mem_singleton.2 ⟨hname, hcomment⟩)
  have hwithin := (Target.within_of_draws hsite (Entity.within_body? ht) hdraws (x := s)
    List.mem_cons_self).1
  have hsb := (hwithin.of_parent? hb).2
  have hclosing : t.Closes [s] s := by
    rcases hblocks b ⟨s, List.mem_cons_self, hsb⟩ with ⟨⟨c, hc, -, hnot⟩, -⟩ | ⟨x, hx, -⟩
    · -- the block has no other statement
      obtain ⟨a, ha⟩ := List.length_eq_one_iff.1 hone
      have hsnamed : s ∈ b.namedChildren := List.mem_filter.2 ⟨hsb, hname⟩
      rw [ha, List.mem_singleton] at hc hsnamed
      exact absurd (List.mem_singleton.2 (hc.trans hsnamed.symm)) hnot
    · rw [List.mem_singleton.1 hx.1] at hx
      exact hx.2.2
  rw [List.perm_singleton] at horder
  rw [horder, List.forall₂_cons_right_iff] at hedits
  obtain ⟨x, rest, ⟨hspan, hfill, -⟩, -, hlist⟩ := hedits
  exact ⟨e, he, t, [s], s, ht, hdraws, htext, List.mem_cons_self, hclosing, x,
    by rw [hlist]; exact List.mem_cons_self, hspan, (hfill hclosing).trans hfilled⟩

end Modifier
end Mutagen
