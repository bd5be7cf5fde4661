import Mathlib.Algebra.Group.Nat.Defs
import Mathlib.Data.List.TakeWhile
import Mutagen.Modifier.Literal
import Mutagen.Proofs.Random.Draw

/-!
# Shifted literals

A whole number of a program moves by one or two, whatever is drawn, and what stands behind its
digits stays. Its digits are written without a leading zero, before and after. A literal in
another base, with an exponent, a separator or a leading zero is left alone, and nothing is
drawn for it.
-/
namespace Mutagen

/-- From a list that is not empty an item is drawn. -/
theorem Draw.always_choose? {α : Type} {items : List α} (hpos : 0 < items.length)
    (hle : items.length ≤ UInt32.size) :
    Always (fun r => ∃ a ∈ items, r = some a) (choose? items) := by
  refine always_bind (always_below hpos hle) ?_
  intro i hi
  exact always_pure ⟨items[i], List.getElem_mem hi, List.getElem?_eq_getElem hi⟩

theorem toNat_toLower (c : Char) :
    c.toLower.toNat = if 65 ≤ c.toNat ∧ c.toNat ≤ 90 then c.toNat + 32 else c.toNat := by
  have hiff : (c.val ≥ 'A'.val ∧ c.val ≤ 'Z'.val) ↔ 65 ≤ c.toNat ∧ c.toNat ≤ 90 := Iff.rfl
  unfold Char.toLower
  by_cases h : 65 ≤ c.toNat ∧ c.toNat ≤ 90
  · rw [dif_pos (hiff.2 h), if_pos h]
    change (c.val + 32).toNat = c.val.toNat + 32
    have : c.val.toNat ≤ 90 := h.2
    rw [UInt32.toNat_add]
    exact Nat.mod_eq_of_lt (by simp; omega)
  · rw [dif_neg (fun h' => h (hiff.1 h')), if_neg h]

namespace Literal

variable {digits suffix literal : Text} {n : Nat}

/-! ## Written numbers -/

/-- Decimal digits without a leading zero. -/
structure Canonical (digits : Text) : Prop where
  decimal : ∀ c ∈ digits, c.isDigit = true
  nonempty : digits ≠ []
  lead : digits = ['0'] ∨ digits.head? ≠ some '0'

theorem value_toDigits (n : Nat) : value (Nat.toDigits 10 n) = n := Nat.ofDigitChars_ten_toDigits

/-- A positive number is not written with a leading zero. -/
theorem head?_toDigits (h : 0 < n) : (Nat.toDigits 10 n).head? ≠ some '0' := by
  induction n using Nat.strongRecOn with
  | ind n ih =>
    by_cases hn : n < 10
    · have hdigit : ∀ d < 10, 0 < d → [Nat.digitChar d].head? ≠ some '0' := by decide
      rw [Nat.toDigits_of_lt_base hn]
      exact hdigit n hn h
    · rw [Nat.toDigits_of_base_le (by decide) (by omega),
        List.head?_append,
        Option.or_of_isSome (by simp)]
      exact ih (n / 10) (by omega) (by omega)

theorem canonical_toDigits (n : Nat) : Canonical (Nat.toDigits 10 n) where
  decimal c hc := Nat.isDigit_of_mem_toDigits (by decide) (by decide) hc
  nonempty := Nat.toDigits_ne_nil
  lead := by
    rcases Nat.eq_zero_or_pos n with rfl | hpos
    · exact .inl (Nat.toDigits_zero 10)
    · exact .inr (head?_toDigits hpos)

/-! ## Sums -/

/-- A sum between the limits is held as it is. -/
theorem wrap_of_lt {sum : Int} (hle : -(limit : Int) ≤ sum) (hlt : sum < limit) :
    wrap sum = sum :=
  Int.bmod_eq_of_le (by omega) (by omega)

/-- A sum from the limit on comes back below zero. -/
theorem wrap_of_le {sum : Int} (hle : limit ≤ sum) (hlt : sum < 2 * limit) :
    wrap sum = sum - 2 * limit := by
  have hperiod : wrap sum = wrap (sum - 2 * limit) := (Int.sub_bmod_right sum (2 * limit)).symm
  rw [hperiod, wrap_of_lt (by omega) (by omega)]

/-- A shift moves a number by one or two, and never below zero, unless the sum reaches the limit:
then it comes back negative. -/
theorem shiftWhole_cases {v : Nat} (hv : v < limit) {shift : Int} (h : shift ∈ wholeShifts) :
    (∃ v' : Nat, shiftWhole v shift = v' ∧ ((v' : Int) - v).natAbs ∈ [1, 2]) ∨
      ∃ s ∈ [1, 2], limit ≤ v + s ∧ shiftWhole v shift = -((2 * limit - (v + s) : Nat) : Int) := by
  have hlarge : 4 ≤ limit := by decide
  have hsizes : ∀ shift ∈ wholeShifts, shift.natAbs ∈ [1, 2] := by decide
  have hsize := hsizes shift h
  simp only [List.mem_cons, List.not_mem_nil, or_false] at hsize ⊢
  by_cases hsum : (v : Int) + shift < limit
  · refine .inl ⟨(shiftWhole v shift).toNat, ?_⟩
    rw [shiftWhole, wrap_of_lt (by omega) hsum]
    split
    · rw [wrap_of_lt (by omega) (by omega)]
      omega
    · omega
  · have hup : (shift.natAbs : Int) = shift := by omega
    refine .inr ⟨shift.natAbs, hsize, by omega, ?_⟩
    rw [shiftWhole, hup, ite_self, wrap_of_le (by omega) (by omega)]
    omega

/-- A shift moves a number that is not close to the limit by one or two, and never below zero. -/
theorem shiftWhole_near {v : Nat} (hv : v + 2 < limit) {shift : Int} (h : shift ∈ wholeShifts) :
    ∃ v' : Nat, shiftWhole v shift = v' ∧ ((v' : Int) - v).natAbs ∈ [1, 2] := by
  refine (shiftWhole_cases (by omega) h).resolve_right ?_
  rintro ⟨s, hs, hlimit, -⟩
  simp only [List.mem_cons, List.not_mem_nil, or_false] at hs
  omega

/-! ## Literals -/

/-- Whether a literal begins with `0` and the letter of a base, in any case. -/
theorem hasBase_iff {literal : Text} : hasBase literal = true ↔
    ∃ mark ∈ ["0x", "0b", "0o"], mark.toList <+: literal.map Char.toLower := by
  have hletter : ∀ c : Char, ('0' = c.toLower ↔ c = '0') ∧ ('x' = c.toLower ↔ c = 'x' ∨ c = 'X') ∧
      ('b' = c.toLower ↔ c = 'b' ∨ c = 'B') ∧ ('o' = c.toLower ↔ c = 'o' ∨ c = 'O') := by
    intro c
    simp only [← Char.toNat_inj, toNat_toLower c, Char.reduceToNat]
    refine ⟨?_, ?_, ?_, ?_⟩ <;> split <;> omega
  match literal with
  | [] => simp [hasBase]
  | [c] => simp [hasBase]
  | c :: d :: rest =>
    by_cases hc : c = '0' <;> simp [hasBase, hletter, hc, or_assoc]

/-- The number that a literal begins with, and the rest. -/
theorem takeWhile_number (hdigits : ∀ c ∈ digits, (c.isDigit || c == '.') = true)
    (hsuffix : ∀ c ∈ suffix.head?, (c.isDigit || c == '.') = false) :
    (digits ++ suffix).takeWhile (fun c => c.isDigit || c == '.') = digits := by
  rw [List.takeWhile_append_of_pos hdigits]
  cases suffix with
  | nil => simp
  | cons c suffix => simp [hsuffix c rfl]

/-- A literal in another base or with a separator is left alone. -/
theorem perturb_of_mark (h : hasBase literal = true ∨ '_' ∈ literal) :
    perturb literal = pure none := by
  unfold perturb
  dsimp only
  rw [if_pos]
  rcases h with h | h <;> simp [h]

/-- A number with an exponent is left alone. -/
theorem perturb_of_exponent (hdigits : ∀ c ∈ digits, (c.isDigit || c == '.') = true) {c : Char}
    (hc : c = 'e' ∨ c = 'E') (rest : Text) : perturb (digits ++ c :: rest) = pure none := by
  have hnumber : (digits ++ c :: rest).takeWhile (fun c => c.isDigit || c == '.') = digits := by
    refine takeWhile_number hdigits ?_
    rintro d hd
    cases hd
    rcases hc with rfl | rfl <;> rfl
  unfold perturb
  dsimp only
  rw [hnumber, List.drop_left, if_pos]
  rcases hc with rfl | rfl <;> simp

/-- A whole number with a suffix, neither in another base nor with a separator, is left alone only
for a leading zero or for its size; otherwise it is shifted. -/
theorem perturb_of_whole (hdigits : ∀ c ∈ digits, c.isDigit = true) (hne : digits ≠ [])
    (hsuffix : ∀ c ∈ suffix.head?, c.isDigit = false ∧ c ≠ '.' ∧ c ≠ 'e' ∧ c ≠ 'E')
    (hmark : ¬ (hasBase (digits ++ suffix) = true ∨ '_' ∈ digits ++ suffix)) :
    perturb (digits ++ suffix) =
      if 1 < digits.length ∧ digits.head? = some '0' ∨ limit ≤ value digits then pure none
      else Draw.choose? wholeShifts >>= fun shift =>
        pure (some ((toString (shiftWhole (value digits) (shift.getD 0))).toList ++ suffix)) := by
  have hpoint : ∀ c ∈ digits, (c != '.') = true := by
    intro c hc
    have hdigit := hdigits c hc
    simp only [bne_iff_ne]
    rintro rfl
    cases hdigit
  have hnumber : (digits ++ suffix).takeWhile (fun c => c.isDigit || c == '.') = digits := by
    refine takeWhile_number (fun c hc => by simp [hdigits c hc]) fun c hc => ?_
    obtain ⟨hdigit, hne, -, -⟩ := hsuffix c hc
    simp [hdigit, hne]
  have hwhole : digits.takeWhile (fun c => c != '.') = digits := List.takeWhile_eq_self_iff.2 hpoint
  have hlast : digits.getLast? ≠ some '.' := by
    intro h
    simpa using hpoint '.' (List.mem_of_getLast? h)
  have hexponent : suffix.head? ≠ some 'e' ∧ suffix.head? ≠ some 'E' :=
    ⟨fun h => (hsuffix 'e' h).2.2.1 rfl, fun h => (hsuffix 'E' h).2.2.2 rfl⟩
  obtain ⟨hbase, hseparator⟩ := not_or.1 hmark
  unfold perturb
  dsimp only
  rw [hnumber, List.drop_left, if_neg (by simp_all), hwhole, List.drop_length]
  simp only [Bool.or_eq_true, Bool.and_eq_true, decide_eq_true_eq, beq_iff_eq]

/-- Digits that something else follows are left alone, or they have no leading zero and a number
below the limit, and are shifted. -/
theorem perturb_eq_none_or_shifted (hdigits : ∀ c ∈ digits, c.isDigit = true) (hne : digits ≠ [])
    (hsuffix : ∀ c ∈ suffix.head?, c.isDigit = false ∧ c ≠ '.') :
    perturb (digits ++ suffix) = pure none ∨
      ¬ (1 < digits.length ∧ digits.head? = some '0' ∨ limit ≤ value digits) ∧
        perturb (digits ++ suffix) = Draw.choose? wholeShifts >>= fun shift =>
          pure (some ((toString (shiftWhole (value digits) (shift.getD 0))).toList ++ suffix)) := by
  by_cases hmark : hasBase (digits ++ suffix) = true ∨ '_' ∈ digits ++ suffix
  · exact .inl (perturb_of_mark hmark)
  by_cases hexponent : ∃ c ∈ suffix.head?, c = 'e' ∨ c = 'E'
  · obtain ⟨c, hc, hletter⟩ := hexponent
    obtain ⟨rest, rfl⟩ := List.head?_eq_some_iff.1 hc
    exact .inl (perturb_of_exponent (fun c hc => by simp [hdigits c hc]) hletter rest)
  have hplain : ∀ c ∈ suffix.head?, c.isDigit = false ∧ c ≠ '.' ∧ c ≠ 'e' ∧ c ≠ 'E' := by
    intro c hc
    obtain ⟨hdigit, hpoint⟩ := hsuffix c hc
    exact ⟨hdigit, hpoint, fun h => hexponent ⟨c, hc, .inl h⟩, fun h => hexponent ⟨c, hc, .inr h⟩⟩
  rw [perturb_of_whole hdigits hne hplain hmark]
  split
  · exact .inl rfl
  · rename_i hshifted
    exact .inr ⟨hshifted, rfl⟩

/-- What keeps a literal from being shifted: another base, a separator, a leading zero of a whole
number, or an exponent. -/
inductive LeftAlone (literal : Text) : Prop where
  | base (h : ∃ mark ∈ ["0x", "0b", "0o"], mark.toList <+: literal.map Char.toLower)
  | separator (h : '_' ∈ literal)
  | leadingZero {digits suffix : Text} (h : literal = digits ++ suffix)
      (hdigits : ∀ c ∈ digits, c.isDigit = true) (hmany : 1 < digits.length)
      (hzero : digits.head? = some '0') (hsuffix : ∀ c ∈ suffix.head?, c.isDigit = false ∧ c ≠ '.')
  | exponent {digits rest : Text} {c : Char} (h : literal = digits ++ c :: rest)
      (hdigits : ∀ c ∈ digits, (c.isDigit || c == '.') = true) (hc : c = 'e' ∨ c = 'E')

theorem LeftAlone.perturb_eq (h : LeftAlone literal) : perturb literal = pure none := by
  cases h with
  | base h => exact perturb_of_mark (.inl (hasBase_iff.2 h))
  | separator h => exact perturb_of_mark (.inr h)
  | exponent h hdigits hc =>
    rw [h]
    exact perturb_of_exponent hdigits hc _
  | @leadingZero digits suffix h hdigits hmany hzero hsuffix =>
    rw [h]
    have hne : digits ≠ [] := List.ne_nil_of_length_pos (by omega)
    exact (perturb_eq_none_or_shifted hdigits hne hsuffix).resolve_right
      fun hshifted => hshifted.1 (.inl ⟨hmany, hzero⟩)

/-- A whole number that is not too large moves by one or two, and keeps its suffix, whatever is
drawn. A literal that is left alone draws nothing. -/
theorem perturb_moves_whole (g : Generator) :
    (∀ digits suffix : Text, Canonical digits → value digits ≤ 2 ^ 127 - 3 →
      (∀ c ∈ suffix.head?, c.isDigit = false ∧ c ≠ '.' ∧ c ≠ 'e' ∧ c ≠ 'E') →
      (¬ ∃ mark ∈ ["0x", "0b", "0o"], mark.toList <+: (digits ++ suffix).map Char.toLower) →
      '_' ∉ digits ++ suffix →
      ∃ moved, Canonical moved ∧ ((value moved : Int) - value digits).natAbs ∈ [1, 2] ∧
        (perturb (digits ++ suffix) g).1 = some (moved ++ suffix)) ∧
    ∀ literal, LeftAlone literal → perturb literal g = (none, g) := by
  constructor
  · intro digits suffix hdigits hle hsuffix hbase hseparator
    have hclear : value digits + 2 < limit := by
      have hlimit : limit = 2 ^ 127 := rfl
      omega
    have hplain : ¬ (1 < digits.length ∧ digits.head? = some '0' ∨ limit ≤ value digits) := by
      rintro (⟨hmany, hzero⟩ | hlarge)
      · rcases hdigits.lead with rfl | hlead
        · exact absurd hmany (by decide)
        · exact hlead hzero
      · omega
    have hmark : ¬ (hasBase (digits ++ suffix) = true ∨ '_' ∈ digits ++ suffix) := by
      rw [hasBase_iff]
      exact not_or.2 ⟨hbase, hseparator⟩
    obtain ⟨shift, hshift, hdrawn⟩ :=
      Draw.always_choose? (show 0 < wholeShifts.length by decide) (by decide) g
    obtain ⟨v', hv', hnear⟩ := shiftWhole_near hclear hshift
    refine ⟨Nat.toDigits 10 v', canonical_toDigits v', by rw [value_toDigits]; exact hnear, ?_⟩
    rw [perturb_of_whole hdigits.decimal hdigits.nonempty hsuffix hmark, if_neg hplain]
    change some ((toString (shiftWhole (value digits)
      ((Draw.choose? wholeShifts g).1.getD 0))).toList ++ suffix) = _
    rw [hdrawn, Option.getD_some, hv']
    exact congrArg (fun t => some (t ++ suffix)) Nat.toList_repr
  · intro literal h
    rw [h.perturb_eq]
    rfl

/-- One moves to a number next to it or behind that, also with a suffix, and an octal number does
not move. -/
theorem perturb_moves_whole_suffixed :
    (∃ moved, Canonical moved ∧ ((value moved : Int) - 1).natAbs ∈ [1, 2] ∧
      (perturb "1u8".toList (.ofSeed 0)).1 = some (moved ++ "u8".toList)) ∧
    perturb "0755".toList (.ofSeed 0) = (none, .ofSeed 0) := by
  obtain ⟨hmoves, hrests⟩ := perturb_moves_whole (.ofSeed 0)
  constructor
  · refine hmoves ['1'] ['u', '8'] ⟨?_, by decide, by decide⟩ (by decide) ?_ ?_ (by decide)
    · exact List.forall_mem_singleton.2 rfl
    · rintro c ⟨⟩
      decide
    · rw [← hasBase_iff]
      decide
  · refine hrests _ (@LeftAlone.leadingZero _ "0755".toList [] rfl ?_ (by decide) (by decide) ?_)
    · exact List.all_eq_true.1 (by decide)
    · rintro c ⟨⟩

end Literal
end Mutagen
