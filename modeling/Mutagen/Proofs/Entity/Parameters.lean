import Mutagen.Proofs.Entity.Signature

/-!
# Blanks between parentheses

Collapsing a signature has a normal form. At positive depth of parentheses a collapsed text has
single spaces for blanks, and each of them stands between two characters that it separates. A
text in this form is left as it is, so that collapsing twice is collapsing once. Outside of all
parentheses nothing changes. The depth is counted from the left: what is never closed stays open,
and a `)` too many counts for nothing.
-/
namespace Mutagen
namespace Text

/-! ## Depth -/

/-- The depth behind a character that stands at some depth. -/
def depthAfter (depth : Nat) (c : Char) : Nat :=
  if c == '(' then depth + 1 else if c == ')' then depth - 1 else depth

/-- The depth of parentheses behind a text. -/
def depth (t : Text) : Nat := t.foldl depthAfter 0

theorem depthAfter_of_isBlank {c : Char} (hc : isBlank c = true) (n : Nat) :
    depthAfter n c = n := by
  have hopen : (c == '(') = false := by
    rw [beq_eq_false_iff_ne]
    rintro rfl
    cases hc
  have hclose : (c == ')') = false := by
    rw [beq_eq_false_iff_ne]
    rintro rfl
    cases hc
  simp [depthAfter, hopen, hclose]

@[simp] theorem depth_append_singleton (t : Text) (c : Char) :
    depth (t ++ [c]) = depthAfter (depth t) c := by
  simp [depth]

/-- Every character of a text that starts at some depth, with the depth that it stands at. -/
def leveled (depth : Nat) : Text → List (Nat × Char)
  | [] => []
  | c :: t => (depth, c) :: leveled (depthAfter depth c) t

/-- A character that stays where blanks are collapsed: one outside of all parentheses, or one that
is not blank. -/
def stays : Nat × Char → Bool
  | (depth, c) => depth == 0 || !isBlank c

theorem stays_eq_true_iff {n : Nat} {c : Char} :
    stays (n, c) = true ↔ (0 < n → isBlank c = false) := by
  cases n <;> simp [stays]

theorem stays_eq_false_iff {n : Nat} {c : Char} :
    stays (n, c) = false ↔ 0 < n ∧ isBlank c = true := by
  cases n <;> simp [stays]

/-! ## Collapsed texts -/

/-- The blank `c` is a space that separates two characters: it is not behind `(`, and not before
another blank, before `)` or at the end. -/
structure Separates (before : Text) (c : Char) (after : Text) : Prop where
  space : c = ' '
  behind : before.getLast? ≠ some '('
  ahead : ∃ d ∈ after.head?, isBlank d = false ∧ d ≠ ')'

/-- Behind `lead` every blank at positive depth separates. -/
def CollapsedFrom (lead t : Text) : Prop :=
  ∀ before c after, t = before ++ c :: after → 0 < depth (lead ++ before) → isBlank c = true →
    Separates (lead ++ before) c after

/-- Every blank at positive depth separates. -/
def Collapsed (t : Text) : Prop :=
  ∀ before c after, t = before ++ c :: after → 0 < depth before → isBlank c = true →
    Separates before c after

theorem collapsedFrom_nil (lead : Text) : CollapsedFrom lead [] := by
  intro before c after h
  simp at h

theorem collapsedFrom_cons {lead t : Text} {c : Char} :
    CollapsedFrom lead (c :: t) ↔
      (0 < depth lead → isBlank c = true → Separates lead c t) ∧ CollapsedFrom (lead ++ [c]) t := by
  constructor
  · intro h
    constructor
    · intro hdepth hc
      simpa using h [] c t rfl (by simpa using hdepth) hc
    · rintro before d after rfl hdepth hd
      simpa using h (c :: before) d after rfl (by simpa using hdepth) hd
  · rintro ⟨hfirst, hrest⟩ before d after ht hdepth hd
    cases before with
    | nil =>
      cases ht
      simpa using hfirst (by simpa using hdepth) hd
    | cons b before =>
      cases ht
      simpa using hrest before d after rfl (by simpa using hdepth) hd

/-- A character that stays is no blank that would have to separate. -/
theorem collapsedFrom_cons_of_stays {lead t : Text} {c : Char}
    (hc : stays (depth lead, c) = true) :
    CollapsedFrom lead (c :: t) ↔ CollapsedFrom (lead ++ [c]) t := by
  rw [collapsedFrom_cons, and_iff_right_iff_imp]
  intro _ hdepth hblank
  rw [stays_eq_true_iff.1 hc hdepth] at hblank
  cases hblank

end Text

open Text

/-! ## Collapsing -/

section Step

variable {n : Nat} {pending opened : Bool} {c : Char} {t : Text}

/-- A blank between parentheses is only remembered. -/
theorem collapseFrom_of_blank (hc : stays (n, c) = false) :
    collapseFrom n pending opened (c :: t) = collapseFrom n true opened t := by
  obtain ⟨hn, hblank⟩ := stays_eq_false_iff.1 hc
  rw [collapseFrom, if_pos (by simp [hn, hblank])]

/-- A character that stays is written behind the space that is due, if one is. -/
theorem collapseFrom_of_stays (hc : stays (n, c) = true) :
    collapseFrom n pending opened (c :: t) =
      (if pending && c != ')' && !opened then [' '] else []) ++
        c :: collapseFrom (depthAfter n c) false (c == '(') t := by
  have hcond : ¬(decide (0 < n) && isBlank c) = true := by
    simpa using stays_eq_true_iff.1 hc
  rw [collapseFrom, if_neg hcond]
  rfl

end Step

/-- Collapsing leaves the characters that stay in their order and at their depth. -/
theorem filter_leveled_collapseFrom (n : Nat) (pending opened : Bool) (t : Text)
    (hpending : pending = true → 0 < n) :
    (leveled n (collapseFrom n pending opened t)).filter stays = (leveled n t).filter stays := by
  induction t generalizing n pending opened with
  | nil => rfl
  | cons c t ih =>
    cases hc : stays (n, c) with
    | false =>
      obtain ⟨hn, hblank⟩ := stays_eq_false_iff.1 hc
      rw [collapseFrom_of_blank hc, ih n true opened fun _ => hn, leveled,
        depthAfter_of_isBlank hblank, List.filter_cons_of_neg (by simp [hc])]
    | true =>
      have hrest := ih (depthAfter n c) false (c == '(') nofun
      rw [collapseFrom_of_stays hc, leveled, List.filter_cons_of_pos hc, ← hrest]
      split
      · rename_i hgap
        simp only [Bool.and_eq_true] at hgap
        have hspace : stays (n, ' ') = false := stays_eq_false_iff.2 ⟨hpending hgap.1.1, rfl⟩
        rw [List.singleton_append, leveled, List.filter_cons_of_neg (by simp [hspace]), leveled,
          depthAfter_of_isBlank rfl, List.filter_cons_of_pos hc]
      · rw [List.nil_append, leveled, List.filter_cons_of_pos hc]

/-- What is written behind `lead` is collapsed, whether or not a space is due. The output so far is
`lead`, and all that the scan looks at is its depth and whether it ends in `(`. -/
theorem collapsedFrom_collapseFrom (lead : Text) (pending : Bool) (t : Text) :
    CollapsedFrom lead (collapseFrom (depth lead) pending (lead.getLast? == some '(') t) := by
  induction t generalizing lead pending with
  | nil => exact collapsedFrom_nil lead
  | cons c t ih =>
    cases hc : stays (depth lead, c) with
    | false =>
      rw [collapseFrom_of_blank hc]
      exact ih lead true
    | true =>
      -- the character comes behind `lead`, or behind the space that is put there
      have hself : ∀ front, depth front = depth lead → CollapsedFrom front
          (c :: collapseFrom (depthAfter (depth lead) c) false (c == '(') t) := by
        intro front hfront
        rw [← hfront] at hc ⊢
        rw [collapsedFrom_cons_of_stays hc]
        simpa using ih (front ++ [c]) false
      rw [collapseFrom_of_stays hc]
      split
      · rename_i hgap
        simp only [Bool.and_eq_true, bne_iff_ne, Bool.not_eq_true', beq_eq_false_iff_ne] at hgap
        obtain ⟨⟨-, hclose⟩, hopen⟩ := hgap
        rw [List.singleton_append, collapsedFrom_cons]
        constructor
        · intro hdepth _
          exact ⟨rfl, hopen, c, rfl, stays_eq_true_iff.1 hc hdepth, hclose⟩
        · refine hself (lead ++ [' ']) ?_
          rw [depth_append_singleton, depthAfter_of_isBlank rfl]
      · exact hself lead rfl

/-- Collapsing leaves a collapsed text as it is. -/
theorem collapseFrom_of_collapsedFrom (lead : Text) {t : Text} (h : CollapsedFrom lead t) :
    collapseFrom (depth lead) false (lead.getLast? == some '(') t = t := by
  induction t generalizing lead with
  | nil => rfl
  | cons c t ih =>
    obtain ⟨hfirst, hrest⟩ := collapsedFrom_cons.1 h
    have hsame := ih _ hrest
    rw [depth_append_singleton, List.getLast?_append, List.getLast?_singleton, Option.some_or]
      at hsame
    cases hc : stays (depth lead, c) with
    | true =>
      rw [collapseFrom_of_stays hc]
      exact congrArg (c :: ·) hsame
    | false =>
      -- the space is remembered and comes back before the character that it separates
      obtain ⟨hdepth, hblank⟩ := stays_eq_false_iff.1 hc
      obtain ⟨rfl, hbehind, d, hd, hsolid, hclose⟩ := hfirst hdepth hblank
      obtain ⟨t, rfl⟩ := List.head?_eq_some_iff.1 hd
      have hstays : stays (depth lead, d) = true := stays_eq_true_iff.2 fun _ => hsolid
      rw [depthAfter_of_isBlank hblank, collapseFrom_of_stays hstays] at hsame
      rw [collapseFrom_of_blank hc, collapseFrom_of_stays hstays,
        if_pos (by simp [hbehind, hclose])]
      exact congrArg (' ' :: ·) hsame

/-- Collapsing is a normal form. It keeps the characters that are not blank in their order, and
those outside of all parentheses with all their blanks; what it makes is collapsed; and the texts
that it leaves as they are are the collapsed ones. -/
theorem collapseParameters_collapsed (t : Text) :
    collapseParameters (collapseParameters t) = collapseParameters t ∧
    dense (collapseParameters t) = dense t ∧
    (leveled 0 (collapseParameters t)).filter stays = (leveled 0 t).filter stays ∧
    Collapsed (collapseParameters t) ∧
    (collapseParameters t = t ↔ Collapsed t) := by
  have hmade : ∀ u, Collapsed (collapseParameters u) :=
    fun u => collapsedFrom_collapseFrom [] false u
  have hfixed : ∀ {u}, Collapsed u → collapseParameters u = u :=
    fun hu => collapseFrom_of_collapsedFrom [] hu
  refine ⟨hfixed (hmade t), dense_collapseFrom t 0 false false,
    filter_leveled_collapseFrom 0 false false t nofun, hmade t, ?_, hfixed⟩
  intro hsame
  rw [← hsame]
  exact hmade t

/-- One `)` too many, blanks that are no spaces, and a `(` that is never closed. -/
example : collapseParameters "f)  ( a \n,\u3000b ) -> ( c ".toList =
    "f)  (a , b) -> (c".toList := by
  decide

end Mutagen
