import Mutagen.Proofs.Text.Dedent
import Mutagen.Text.Bytes

/-!
# Dedenting by a width

An indentation of spaces and tabs counts by its width alone: whether or not a line begins with
the indentation itself, it loses as much of its own as the width says. So dedenting twice is
dedenting by both widths together. It works on the lines one by one, and takes nothing but
spaces and tabs away.
-/
namespace Mutagen
namespace Text

/-! ## Lines -/

/-- A text is told by its lines. -/
theorem eq_of_splitOn {a b : Text} (h : a.splitOn '\n' = b.splitOn '\n') : a = b :=
  calc
    a = ['\n'].intercalate (a.splitOn '\n') := (List.intercalate_splitOn '\n').symm
    _ = ['\n'].intercalate (b.splitOn '\n') := by rw [h]
    _ = b := List.intercalate_splitOn '\n'

theorem dropIndent_dropIndent (m n : Nat) (line : Text) :
    dropIndent n (dropIndent m line) = dropIndent (m + n) line := by
  induction m generalizing line with
  | zero => rw [dropIndent, Nat.zero_add]
  | succ m ih =>
    cases line with
    | nil => simp
    | cons c line =>
      rw [Nat.succ_add, dropIndent, dropIndent]
      split
      · exact ih line
      · rename_i hc
        cases n with
        | zero => rfl
        | succ n => rw [dropIndent, if_neg hc]

/-- The bytes that a line loses are `n`, or all that its own indentation has. -/
theorem behind?_dropIndent (n : Nat) (line : Text) :
    behind? (min n (size (line.takeWhile isIndent))) line = some (dropIndent n line) := by
  induction n generalizing line with
  | zero => simp [dropIndent]
  | succ n ih =>
    cases line with
    | nil => rfl
    | cons c line =>
      rw [dropIndent]
      cases hc : isIndent c with
      | false => simp [hc]
      | true =>
        have hone := utf8Size_of_isIndent hc
        rw [List.takeWhile_cons_of_pos hc, size_cons, hone, Nat.add_comm 1, Nat.add_min_add_right,
          behind?, hone, if_pos (by omega), if_pos rfl]
        exact ih line

/-! ## Bytes -/

/-- The byte is neither a space nor a tab. -/
def isSolidByte (b : UInt8) : Bool := b != 0x20 && b != 0x09

theorem filter_bytes (t : Text) :
    t.bytes.filter isSolidByte = (bytes (t.filter fun c => !isIndent c)).filter isSolidByte := by
  induction t with
  | nil => rfl
  | cons c t ih =>
    have hcons : ∀ (d : Char) (x : Text), bytes (d :: x) = String.utf8EncodeChar d ++ x.bytes :=
      fun d x => List.flatMap_cons
    rw [hcons, List.filter_append, ih]
    cases hc : isIndent c with
    | true =>
      have hnil : (String.utf8EncodeChar c).filter isSolidByte = [] := by
        simp only [isIndent, Bool.or_eq_true, beq_iff_eq] at hc
        rcases hc with rfl | rfl <;> decide
      rw [hnil, List.nil_append, List.filter_cons_of_neg (by simp [hc])]
    | false => rw [List.filter_cons_of_pos (by simp [hc]), hcons, List.filter_append]

/-! ## Dedenting -/

section Indents

variable {p q : Text} (hp : ∀ c ∈ p, isIndent c = true)

include hp

/-- The first line stays, and every other one loses as many bytes as the width says, or all that its
own indentation has. -/
theorem forall₂_splitOn_dedent (t : Text) :
    ∃ first rest kept, t.splitOn '\n' = first :: rest ∧ (dedent t p).splitOn '\n' = first :: kept ∧
      List.Forall₂ (fun line line' =>
        behind? (min p.size (size (line.takeWhile isIndent))) line = some line') rest kept := by
  obtain ⟨first, rest, hraw, hcode⟩ := splitOn_dedent hp t
  refine ⟨first, rest, _, hraw, hcode, ?_⟩
  rw [List.forall₂_map_right_iff, List.forall₂_same, size_of_isIndent hp]
  exact fun line _ => behind?_dropIndent _ line

variable (hq : ∀ c ∈ q, isIndent c = true)

include hq

theorem dedent_congr (h : p.size = q.size) (t : Text) : dedent t p = dedent t q := by
  have hlength : p.length = q.length := by
    rw [← size_of_isIndent hp, ← size_of_isIndent hq, h]
  have hstrip : stripIndent p = stripIndent q := by
    funext line
    rw [stripIndent_eq_dropIndent hp, stripIndent_eq_dropIndent hq, hlength]
  rw [dedent, dedent, hstrip]

/-- Widths add up. -/
theorem dedent_dedent (t : Text) : dedent (dedent t p) q = dedent t (p ++ q) := by
  have hpq : ∀ c ∈ p ++ q, isIndent c = true := List.forall_mem_append.2 ⟨hp, hq⟩
  apply eq_of_splitOn
  obtain ⟨first, rest, hraw, honce⟩ := splitOn_dedent hp t
  obtain ⟨first', rest', honce', htwice⟩ := splitOn_dedent hq (dedent t p)
  obtain ⟨first'', rest'', hraw', hboth⟩ := splitOn_dedent hpq t
  obtain ⟨rfl, rfl⟩ := List.cons_eq_cons.1 (honce'.symm.trans honce)
  obtain ⟨rfl, rfl⟩ := List.cons_eq_cons.1 (hraw'.symm.trans hraw)
  rw [htwice, hboth, List.map_map, List.length_append]
  refine congrArg _ (List.map_congr_left fun line _ => ?_)
  exact dropIndent_dropIndent _ _ line

end Indents

/-- Dedenting is an action of widths. By spaces and tabs it takes from every line behind the first
one as many bytes as they are, or all that the line is indented by. So only their number matters,
and dedenting once by two indentations is dedenting by one after the other. Behind a newline it goes
on as if the newline stood first, and it keeps the newlines and all other bytes in their order. -/
theorem dedent_by_width (p q : Text) (hp : ∀ c ∈ p, isIndent c = true)
    (hq : ∀ c ∈ q, isIndent c = true) :
    (∀ t, ∃ first rest kept, t.splitOn '\n' = first :: rest ∧
      (dedent t p).splitOn '\n' = first :: kept ∧
      List.Forall₂ (fun line line' =>
        behind? (min p.size (size (line.takeWhile isIndent))) line = some line') rest kept) ∧
    (p.size = q.size → ∀ t, dedent t p = dedent t q) ∧
    (∀ t, dedent (dedent t p) q = dedent t (p ++ q)) ∧
    (∀ a b, dedent (a ++ '\n' :: b) p = dedent (a ++ ['\n']) p ++ dedentLines b p ∧
      dedent ('\n' :: b) p = '\n' :: dedentLines b p) ∧
    ∀ t, newlines (dedent t p) = newlines t ∧
      (dedent t p).bytes.filter isSolidByte = t.bytes.filter isSolidByte := by
  refine ⟨forall₂_splitOn_dedent hp, dedent_congr hp hq, dedent_dedent hp hq, ?_, ?_⟩
  · intro a b
    rw [List.append_cons]
    exact ⟨dedent_append (closed_append_newline a) (by simp) b p,
      dedent_append_newline List.not_mem_nil b p⟩
  · intro t
    refine ⟨newlines_dedent hp t, ?_⟩
    have hkept : (dedent t p).filter (fun c => !isIndent c) = t.filter fun c => !isIndent c :=
      filter_dedent (fun c hc => by simp [hc]) (fun c hc => by simp [hp c hc]) t
    rw [filter_bytes, hkept, ← filter_bytes]

/-- A line indented by a tab, one by less than the width, and a blank one. -/
theorem dedent_by_width_mixed :
    let t : Text := "é:\n\t  é\n \n\n    ;".toList
    let p : Text := "  ".toList
    let q : Text := "\t ".toList
    ((∀ c ∈ p, isIndent c = true) ∧ (∀ c ∈ q, isIndent c = true) ∧ p.size = q.size) ∧
      dedent t p = "é:\n é\n\n\n  ;".toList ∧ dedent t q = "é:\n é\n\n\n  ;".toList ∧
      dedent (dedent t p) q = "é:\né\n\n\n;".toList := by
  intro t p q
  have hp : ∀ c ∈ p, isIndent c = true := List.all_eq_true.1 rfl
  have hq : ∀ c ∈ q, isIndent c = true := List.all_eq_true.1 rfl
  obtain ⟨-, hwidth, htwice, -, -⟩ := dedent_by_width p q hp hq
  have honce : dedent t p = "é:\n é\n\n\n  ;".toList := by decide
  refine ⟨⟨hp, hq, rfl⟩, honce, ?_, ?_⟩
  · rw [← hwidth rfl t]
    exact honce
  · rw [htwice]
    decide

end Text
end Mutagen
