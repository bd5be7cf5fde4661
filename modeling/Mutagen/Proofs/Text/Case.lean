import Mathlib.Tactic.Common
import Mutagen.Text.Case

/-!
# Lowercase text

A text in lowercase has no other lowercase form. The table of lowercase forms is compared with
itself row by row: the forms that one row gives lie outside of the other row, or they are odd where
its code points are even.
-/
namespace Mutagen

/-! ## Rows of the table -/

namespace CaseTable

/-- Whether a row of the table is for a code point. -/
def covers (row : Nat × Nat × Nat × Int) (n : Nat) : Bool :=
  decide (row.1 ≤ n) && decide (n ≤ row.2.1) && (n - row.1) % row.2.2.1 == 0

/-- Whether the forms that one row gives are not those that another one is for. -/
def misses (row other : Nat × Nat × Nat × Int) : Bool :=
  let first := (row.1 + row.2.2.2).toNat
  let last := (row.2.1 + row.2.2.2).toNat
  Nat.blt last other.1 || Nat.blt other.2.1 first ||
    ((row.2.2.1 == 2 || row.1 == row.2.1) && other.2.2.1 == 2 && (first + other.1) % 2 == 1)

theorem covers_eq_false_of_misses {row other : Nat × Nat × Nat × Int} {n : Nat}
    (hrow : 0 ≤ row.1 + row.2.2.2) (hmisses : misses row other = true)
    (hn : covers row n = true) : covers other (n + row.2.2.2).toNat = false := by
  obtain ⟨first, last, step, distance⟩ := row
  obtain ⟨first', last', step', distance'⟩ := other
  simp only [covers, misses, Bool.and_eq_true, Bool.or_eq_true, decide_eq_true_eq, beq_iff_eq,
    Nat.blt_eq, Bool.and_eq_false_iff, decide_eq_false_iff_not, beq_eq_false_iff_ne] at *
  obtain ⟨⟨hfirst, hlast⟩, hstep⟩ := hn
  rcases hmisses with (hbelow | habove) | ⟨⟨hsingle, rfl⟩, hodd⟩
  · omega
  · omega
  · -- the code points of both rows go by twos
    have heven : (n - first) % 2 = 0 := by
      rcases hsingle with rfl | rfl
      · exact hstep
      · omega
    omega

/-- The full stop. -/
def stop : Nat × Nat × Nat × Int := (0x2E, 0x2E, 1, 0)

/-- The capital I with a dot, whose lowercase form is not in the table. -/
def dotted : Nat × Nat × Nat × Int := (0x130, 0x130, 1, 0)

theorem rows_miss {row other : Nat × Nat × Nat × Int} (hrow : row ∈ lower)
    (hother : other ∈ stop :: dotted :: lower) :
    0 ≤ row.1 + row.2.2.2 ∧ misses row other = true := by
  have hall : (lower.all fun row => decide (0 ≤ row.1 + row.2.2.2) &&
      (stop :: dotted :: lower).all (misses row)) = true := by
    decide +kernel
  have hfits := List.all_eq_true.1 hall row hrow
  rw [Bool.and_eq_true, decide_eq_true_eq, List.all_eq_true] at hfits
  exact ⟨hfits.1, hfits.2 other hother⟩

end CaseTable

/-! ## Characters -/

open CaseTable

theorem lowerChar_eq (c : Char) : lowerChar c =
    if c.toNat == 0x130 then ['i', Char.ofNat 0x307]
    else (CaseTable.lower.find? fun row => covers row c.toNat).elim [c]
      fun row => [Char.ofNat (c.toNat + row.2.2.2).toNat] := by
  unfold lowerChar
  refine if_congr Iff.rfl rfl ?_
  cases hrow : CaseTable.lower.find? fun row => covers row c.toNat <;>
  · unfold covers at hrow
    rw [hrow]
    rfl

theorem lowerChar_ne_nil (c : Char) : lowerChar c ≠ [] := by
  rw [lowerChar_eq]
  split
  · simp
  · cases CaseTable.lower.find? fun row => covers row c.toNat <;> simp

/-- A character that has no lowercase form other than itself. -/
def Lowered (c : Char) : Prop :=
  c.toNat ≠ 0x130 ∧ ∀ row ∈ CaseTable.lower, covers row c.toNat = false

instance (c : Char) : Decidable (Lowered c) :=
  inferInstanceAs
    (Decidable (c.toNat ≠ 0x130 ∧ ∀ row ∈ CaseTable.lower, covers row c.toNat = false))

theorem Lowered.lowerChar_eq {c : Char} (h : Lowered c) : lowerChar c = [c] := by
  have hnone : (CaseTable.lower.find? fun row => covers row c.toNat) = none := by
    simpa [List.find?_eq_none] using h.2
  rw [Mutagen.lowerChar_eq, hnone, if_neg (by simpa using h.1)]
  rfl

theorem lowered_of_isLower {c : Char} (h : c.isLower = true) : Lowered c := by
  have hbounds : 'a'.toNat ≤ c.toNat ∧ c.toNat ≤ 'z'.toNat := by
    obtain ⟨hlow, hhigh⟩ := Bool.and_eq_true_iff.1 h
    exact ⟨of_decide_eq_true hlow, of_decide_eq_true hhigh⟩
  have hbeside : ∀ row ∈ CaseTable.lower, row.2.1 < 'a'.toNat ∨ 'z'.toNat < row.1 := by
    decide +kernel
  refine ⟨fun heq => absurd (heq ▸ hbounds.2) (by decide), fun row hrow => ?_⟩
  rcases hbeside row hrow with hbelow | habove
  · simp [covers, Nat.not_le.2 (Nat.lt_of_lt_of_le hbelow hbounds.1)]
  · simp [covers, Nat.not_le.2 (Nat.lt_of_le_of_lt hbounds.2 habove)]

theorem Lowered.ne_sigma {c : Char} (h : Lowered c) : c ≠ 'Σ' := by
  rintro rfl
  exact absurd (h.2 (0x3A3, 0x3AB, 1, 32) (by decide +kernel)) (by decide)

theorem toNat_ofNat (n : Nat) : (Char.ofNat n).toNat = n ∨ Char.ofNat n = '\x00' := by
  by_cases hn : n.isValidChar
  · exact .inl (by rw [Char.ofNat, dif_pos hn]; rfl)
  · exact .inr (by rw [Char.ofNat, dif_neg hn]; rfl)

/-- The form that a row gives is in lowercase and is no full stop. -/
theorem lowered_of_covers {row : Nat × Nat × Nat × Int} {n : Nat} (hrow : row ∈ CaseTable.lower)
    (hn : covers row n = true) :
    Lowered (Char.ofNat (n + row.2.2.2).toNat) ∧ Char.ofNat (n + row.2.2.2).toNat ≠ '.' := by
  have hmisses : ∀ other ∈ stop :: dotted :: CaseTable.lower,
      covers other (n + row.2.2.2).toNat = false := by
    intro other hother
    obtain ⟨hpos, hmisses⟩ := rows_miss hrow hother
    exact covers_eq_false_of_misses hpos hmisses hn
  rcases toNat_ofNat (n + row.2.2.2).toNat with hform | hform
  · refine ⟨⟨?_, ?_⟩, ?_⟩
    · intro heq
      have hdotted := hmisses dotted (by simp)
      rw [← hform, heq] at hdotted
      cases hdotted
    · intro other hother
      rw [hform]
      exact hmisses other (by simp [hother])
    · intro heq
      have hstop := hmisses stop (by simp)
      rw [← hform, heq] at hstop
      cases hstop
  · rw [hform]
    decide +kernel

/-- Lowercase forms are in lowercase, and none begins with a full stop that was not there. -/
theorem lowered_of_mem_lowerChar {c d : Char} (h : d ∈ lowerChar c) :
    Lowered d ∧ (d = '.' → c = '.') := by
  rw [lowerChar_eq] at h
  split at h
  · have hletter : Lowered 'i' ∧ 'i' ≠ '.' := by decide +kernel
    have hdot : Lowered (Char.ofNat 0x307) ∧ Char.ofNat 0x307 ≠ '.' := by decide +kernel
    have hform : Lowered d ∧ d ≠ '.' := by
      rcases List.mem_cons.1 h with rfl | h
      · exact hletter
      · exact List.mem_singleton.1 h ▸ hdot
    exact ⟨hform.1, fun hstop => absurd hstop hform.2⟩
  · rename_i hdotted
    cases hfind : CaseTable.lower.find? fun row => covers row c.toNat with
    | some row =>
      rw [hfind] at h
      obtain rfl := List.mem_singleton.1 h
      have hform := lowered_of_covers (List.mem_of_find?_eq_some hfind)
        (List.find?_some (p := fun row => covers row c.toNat) hfind)
      exact ⟨hform.1, fun hstop => absurd hstop hform.2⟩
    | none =>
      rw [hfind] at h
      obtain rfl := List.mem_singleton.1 h
      exact ⟨⟨by simpa using hdotted, by simpa [List.find?_eq_none] using hfind⟩, id⟩

/-! ## Texts -/

namespace Text

theorem lowered_of_mem_lowerAfter {before t : Text} {d : Char} (h : d ∈ lowerAfter before t) :
    Lowered d := by
  induction t generalizing before with
  | nil => cases h
  | cons c t ih =>
    rw [lowerAfter, List.mem_append] at h
    rcases h with h | h
    · have hsigma : Lowered 'ς' ∧ Lowered 'σ' := by decide +kernel
      split at h
      · split at h
        · exact List.mem_singleton.1 h ▸ hsigma.1
        · exact List.mem_singleton.1 h ▸ hsigma.2
      · exact (lowered_of_mem_lowerChar h).1
    · exact ih h

theorem lowerAfter_of_lowered {before t : Text} (h : ∀ c ∈ t, Lowered c) :
    lowerAfter before t = t := by
  induction t generalizing before with
  | nil => rfl
  | cons c t ih =>
    obtain ⟨hc, ht⟩ := List.forall_mem_cons.1 h
    rw [lowerAfter, if_neg hc.ne_sigma, hc.lowerChar_eq, ih ht]
    rfl

theorem lower_of_isLower {t : Text} (h : t.all Char.isLower = true) : lower t = t :=
  lowerAfter_of_lowered fun c hc => lowered_of_isLower (List.all_eq_true.1 h c hc)

theorem lower_lower (t : Text) : lower (lower t) = lower t :=
  lowerAfter_of_lowered fun _ => lowered_of_mem_lowerAfter

/-- No full stop comes to the front of a text in lowercase. -/
theorem exists_lower_cons (c : Char) (t : Text) :
    ∃ d rest, lower (c :: t) = d :: rest ∧ (d = '.' → c = '.') := by
  rw [lower, lowerAfter]
  split
  · split
    · exact ⟨'ς', _, rfl, fun hstop => absurd hstop (by decide)⟩
    · exact ⟨'σ', _, rfl, fun hstop => absurd hstop (by decide)⟩
  · cases hforms : lowerChar c with
    | nil => exact absurd hforms (lowerChar_ne_nil c)
    | cons d rest =>
      have hd : d ∈ lowerChar c := by simp [hforms]
      exact ⟨d, _, rfl, (lowered_of_mem_lowerChar hd).2⟩

end Text
end Mutagen
