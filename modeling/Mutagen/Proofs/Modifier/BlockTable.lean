import Mathlib.Data.List.Induction
import Mutagen.Proofs.Modifier.RemovedStatements

/-!
# A table of blocks

The fillers for emptied blocks can be found in two passes: one counts the removals in each
block, the other goes through the blocks and puts a filler at the place of the last removal
in each one that loses as many as it has. What is found for a place depends on which blocks
the table has, and not on their order.
-/
namespace Mutagen
namespace Target

variable {t : Target}

/-- The filler as it is put in the place of a removal. -/
def fillerAt (t : Target) (filler : Text) (r : Removal) : Text :=
  if r.span.start = t.source.lineStart r.span.start then
    t.source.lineIndent r.statement.span.start ++ filler ++
      (if (r.span.text t.source).getLast? == some '\n' then ['\n'] else [])
  else filler

theorem replacement_eq {filler : String} (hfiller : t.grammar.emptyBlockFiller = some filler)
    {all later : List Removal} {r : Removal} {b : Site} (hb : r.statement.parent? = some b) :
    t.replacement all r later =
      if (t.emptied all b && !later.any (Removal.inBlock b)) = true then t.fillerAt filler.toList r
      else [] := by
  rw [replacement, hfiller, hb]
  rfl

/-! ## Tables -/

/-- A table of the number of removals in each block, with one more in `block`. -/
def countIn (block : Site) : List (Site × Nat) → List (Site × Nat)
  | [] => [(block, 1)]
  | (b, n) :: rest => if b.same block then (b, n + 1) :: rest else (b, n) :: countIn block rest

/-- The blocks of removals, with the number of removals in each. -/
def blockTable (rs : List Removal) : List (Site × Nat) :=
  rs.foldl (fun table r => match r.statement.parent? with
    | some block => countIn block table
    | none => table) []

/-- The place of the last removal in a block, where the first of them has place `i`. -/
def lastIn? (block : Site) : Nat → List Removal → Option Nat
  | _, [] => none
  | i, r :: later =>
    (lastIn? block (i + 1) later).or (if r.inBlock block then some i else none)

/-- One more filler, at the place of the last removal in a block that loses all its statements. -/
def addFiller (t : Target) (filler : Text) (rs : List Removal) (found : List (Nat × Text))
    (entry : Site × Nat) : List (Nat × Text) :=
  if entry.2 < entry.1.namedChildren.countP (fun c => !t.grammar.isComment c.kind) then found
  else match lastIn? entry.1 0 rs with
    | some i => (i, (rs[i]?.map (t.fillerAt filler)).getD []) :: found
    | none => found

/-- The edits for removals, when a table of blocks is gone through for the fillers first. -/
def editsByTable (t : Target) (rs : List Removal) (table : List (Site × Nat)) : EditList :=
  let found := match t.grammar.emptyBlockFiller with
    | some filler => table.foldl (t.addFiller filler.toList rs) []
    | none => []
  rs.zipIdx.foldl (fun edits p => edits.offer ⟨p.1.span, (found.lookup p.2).getD []⟩) .empty

/-! ## Places -/

theorem lastIn?_eq_none_iff {b : Site} {i : Nat} {rs : List Removal} :
    lastIn? b i rs = none ↔ rs.any (Removal.inBlock b) = false := by
  induction rs generalizing i with
  | nil => simp [lastIn?]
  | cons r later ih =>
    rw [lastIn?, Option.or_eq_none_iff, ih, List.any_cons, Bool.or_eq_false_iff, and_comm]
    cases r.inBlock b <;> simp

theorem le_of_lastIn? {b : Site} {i j : Nat} {rs : List Removal} (h : lastIn? b i rs = some j) :
    i ≤ j := by
  induction rs generalizing i with
  | nil => cases h
  | cons r later ih =>
    rw [lastIn?] at h
    cases hlater : lastIn? b (i + 1) later with
    | some k =>
      rw [hlater] at h
      cases h
      exact Nat.le_of_succ_le (ih hlater)
    | none =>
      rw [hlater, Option.none_or] at h
      split at h
      · cases h
        exact Nat.le_refl _
      · cases h

theorem lastIn?_eq_some_iff {b : Site} {i : Nat} {earlier later : List Removal} {r : Removal} :
    lastIn? b i (earlier ++ r :: later) = some (i + earlier.length) ↔
      r.inBlock b = true ∧ later.any (Removal.inBlock b) = false := by
  induction earlier generalizing i with
  | nil =>
    rw [List.nil_append, lastIn?, List.length_nil, Nat.add_zero, ← lastIn?_eq_none_iff (i := i + 1)]
    cases hlater : lastIn? b (i + 1) later with
    | some j =>
      have hle := le_of_lastIn? hlater
      simp
      omega
    | none => simp
  | cons q earlier ih =>
    rw [← ih (i := i + 1), List.cons_append, lastIn?, List.length_cons]
    cases hrest : lastIn? b (i + 1) (earlier ++ r :: later) with
    | some j =>
      rw [Option.some_or, Nat.add_right_comm, Nat.add_assoc]
    | none =>
      simp

/-- An entry of a table asks for a filler at a place. -/
def fillsAt (t : Target) (rs : List Removal) (i : Nat) (entry : Site × Nat) : Bool :=
  decide (entry.1.namedChildren.countP (fun c => !t.grammar.isComment c.kind) ≤ entry.2) &&
    lastIn? entry.1 0 rs == some i

theorem lookup_addFiller {filler : Text} {rs : List Removal} {i : Nat}
    {found : List (Nat × Text)} {entry : Site × Nat} :
    (t.addFiller filler rs found entry).lookup i =
      if t.fillsAt rs i entry = true then some ((rs[i]?.map (t.fillerAt filler)).getD [])
      else found.lookup i := by
  unfold addFiller fillsAt
  by_cases hlt : entry.2 < entry.1.namedChildren.countP fun c => !t.grammar.isComment c.kind
  · rw [if_pos hlt, if_neg]
    simp [hlt]
  · rw [if_neg hlt]
    cases hlast : lastIn? entry.1 0 rs with
    | none => simp
    | some j =>
      by_cases heq : i = j
      · subst heq
        simp [Nat.not_lt.1 hlt]
      · have hne : (i == j) = false := beq_eq_false_iff_ne.2 heq
        simp [List.lookup_cons, hne, Ne.symm heq]

/-- What is found for a place does not depend on the order of the table. -/
theorem lookup_foldl_addFiller {filler : Text} {rs : List Removal} {i : Nat}
    (table : List (Site × Nat)) (found : List (Nat × Text)) :
    (table.foldl (t.addFiller filler rs) found).lookup i =
      if table.any (t.fillsAt rs i) = true then some ((rs[i]?.map (t.fillerAt filler)).getD [])
      else found.lookup i := by
  induction table generalizing found with
  | nil => simp
  | cons entry table ih =>
    rw [List.foldl_cons, ih, List.any_cons, lookup_addFiller]
    cases t.fillsAt rs i entry with
    | true => simp
    | false => rw [Bool.false_or, if_neg Bool.false_ne_true]

/-- The edits that go by a table are those of the removals in turn, when each place has the right
filler. -/
theorem foldl_zipIdx_eq_removeFrom {all earlier rest : List Removal} {found : List (Nat × Text)}
    {edits : EditList} (hall : all = earlier ++ rest)
    (hfound : ∀ earlier r later, all = earlier ++ r :: later →
      (found.lookup earlier.length).getD [] = t.replacement all r later) :
    (rest.zipIdx earlier.length).foldl
      (fun edits p => edits.offer ⟨p.1.span, (found.lookup p.2).getD []⟩) edits =
        t.removeFrom all edits rest := by
  induction rest generalizing earlier edits with
  | nil => rfl
  | cons r later ih =>
    rw [List.zipIdx_cons, List.foldl_cons, removeFrom, hfound earlier r later hall]
    have hnext := @ih (earlier ++ [r]) (edits.offer ⟨r.span, t.replacement all r later⟩)
      (by rw [hall]; simp)
    rw [List.length_append] at hnext
    exact hnext

/-! ## Counts -/

theorem map_address_countIn (block : Site) (table : List (Site × Nat)) :
    (countIn block table).map (·.1.address) =
      if block.address ∈ table.map (·.1.address) then table.map (·.1.address)
      else table.map (·.1.address) ++ [block.address] := by
  induction table with
  | nil => rfl
  | cons entry rest ih =>
    obtain ⟨b, n⟩ := entry
    rw [countIn]
    by_cases hsame : b.same block = true
    · have heq : b.address = block.address := beq_iff_eq.1 hsame
      simp [hsame, heq]
    · have hne : ¬ block.address = b.address := fun heq => hsame (beq_iff_eq.2 heq.symm)
      rw [if_neg hsame, List.map_cons, ih]
      by_cases hmem : block.address ∈ rest.map (·.1.address)
      · rw [if_pos hmem, if_pos (by rw [List.map_cons]; exact List.mem_cons_of_mem _ hmem),
          List.map_cons]
      · rw [if_neg hmem, if_neg (by simpa [hne] using hmem), List.map_cons, List.cons_append]

theorem mem_map_address_countIn {block : Site} {table : List (Site × Nat)} {a : List Nat} :
    a ∈ (countIn block table).map (·.1.address) ↔
      a ∈ table.map (·.1.address) ∨ a = block.address := by
  rw [map_address_countIn]
  split
  · rename_i hmem
    refine ⟨.inl, ?_⟩
    rintro (ha | rfl)
    · exact ha
    · exact hmem
  · rw [List.mem_append, List.mem_singleton]

theorem nodup_map_address_countIn {block : Site} {table : List (Site × Nat)}
    (h : (table.map (·.1.address)).Nodup) : ((countIn block table).map (·.1.address)).Nodup := by
  rw [map_address_countIn]
  split
  · exact h
  · rename_i hnew
    refine List.nodup_append.2 ⟨h, List.nodup_singleton _, ?_⟩
    rintro a ha b hb rfl
    rw [List.mem_singleton.1 hb] at ha
    exact hnew ha

theorem of_mem_countIn {block : Site} {table : List (Site × Nat)}
    (hkeys : (table.map (·.1.address)).Nodup) {entry : Site × Nat}
    (h : entry ∈ countIn block table) :
    (entry = (block, 1) ∧ block.address ∉ table.map (·.1.address)) ∨
      ∃ n, (entry.1, n) ∈ table ∧ entry.2 = n + if entry.1.same block = true then 1 else 0 := by
  induction table with
  | nil => exact .inl ⟨List.mem_singleton.1 h, List.not_mem_nil⟩
  | cons first rest ih =>
    obtain ⟨b, n⟩ := first
    obtain ⟨hb, hrest⟩ := List.nodup_cons.1 hkeys
    rw [countIn] at h
    by_cases hsame : b.same block = true
    · rw [if_pos hsame] at h
      rcases List.mem_cons.1 h with rfl | hmem
      · exact .inr ⟨n, List.mem_cons_self, by rw [if_pos hsame]⟩
      · refine .inr ⟨entry.2, List.mem_cons_of_mem _ hmem, ?_⟩
        rw [if_neg, Nat.add_zero]
        intro hother
        have heq : b.address = entry.1.address :=
          (beq_iff_eq.1 hsame).trans (beq_iff_eq.1 hother).symm
        exact hb (List.mem_map.2 ⟨entry, hmem, heq.symm⟩)
    · rw [if_neg hsame] at h
      rcases List.mem_cons.1 h with rfl | hmem
      · exact .inr ⟨n, List.mem_cons_self, by rw [if_neg hsame, Nat.add_zero]⟩
      · rcases ih hrest hmem with ⟨heq, hnot⟩ | ⟨k, hk, hcount⟩
        · refine .inl ⟨heq, ?_⟩
          rw [List.map_cons, List.mem_cons, not_or]
          exact ⟨fun heq => hsame (beq_iff_eq.2 heq.symm), hnot⟩
        · exact .inr ⟨k, List.mem_cons_of_mem _ hk, hcount⟩

/-- What a table of blocks holds: each block once, with the number of removals in it. -/
structure Tallies (rs : List Removal) (table : List (Site × Nat)) : Prop where
  keys : (table.map (·.1.address)).Nodup
  counted : ∀ entry ∈ table, entry.2 = rs.countP (Removal.inBlock entry.1) ∧
    ∃ r ∈ rs, r.statement.parent? = some entry.1
  complete : ∀ r ∈ rs, ∀ b ∈ r.statement.parent?, b.address ∈ table.map (·.1.address)

theorem Tallies.add {rs : List Removal} {table : List (Site × Nat)} (h : Tallies rs table)
    {r : Removal} {block : Site} (hblock : r.statement.parent? = some block) :
    Tallies (rs ++ [r]) (countIn block table) := by
  refine ⟨nodup_map_address_countIn h.keys, ?_, ?_⟩
  · intro entry hentry
    rw [List.countP_append, List.countP_singleton, Removal.inBlock, hblock, Option.any_some]
    rcases of_mem_countIn h.keys hentry with ⟨rfl, hnew⟩ | ⟨n, hn, hcount⟩
    · have hnone : rs.countP (Removal.inBlock block) = 0 := by
        refine List.countP_eq_zero.2 fun q hq hin => hnew ?_
        obtain ⟨b, hb, hsame⟩ := (Option.any_eq_true _ _).1 hin
        rw [← beq_iff_eq.1 hsame]
        exact h.complete q hq b hb
      exact ⟨by simp [hnone, Site.same], r, by simp, hblock⟩
    · obtain ⟨htally, q, hq, hparent⟩ := h.counted _ hn
      refine ⟨?_, q, List.mem_append_left _ hq, hparent⟩
      rw [hcount, ← htally, Site.same, Site.same, Bool.beq_comm]
  · intro q hq b hb
    rcases List.mem_append.1 hq with hq | hq
    · exact mem_map_address_countIn.2 (.inl (h.complete q hq b hb))
    · rw [List.mem_singleton.1 hq, hblock] at hb
      cases hb
      exact mem_map_address_countIn.2 (.inr rfl)

theorem tallies_blockTable (rs : List Removal) : Tallies rs (blockTable rs) := by
  induction rs using List.reverseRecOn with
  | nil => exact ⟨List.nodup_nil, nofun, nofun⟩
  | append_singleton rs r ih =>
    rw [blockTable, List.foldl_append, List.foldl_cons, List.foldl_nil]
    cases hblock : r.statement.parent? with
    | some block => exact ih.add hblock
    | none =>
      refine ⟨ih.keys, ?_, ?_⟩
      · intro entry hentry
        obtain ⟨hcount, q, hq, hparent⟩ := ih.counted entry hentry
        refine ⟨?_, q, List.mem_append_left _ hq, hparent⟩
        rw [List.countP_append, ← hcount, List.countP_singleton, Removal.inBlock, hblock]
        simp
      · intro q hq b hb
        rcases List.mem_append.1 hq with hq | hq
        · exact ih.complete q hq b hb
        · rw [List.mem_singleton.1 hq, hblock] at hb
          cases hb

end Target
end Mutagen
