import Mutagen.Proofs.Modifier.ShiftedLiterals

/-!
# Separated literals

Separators divide the digits of a long number into groups. A number with an underscore is left
alone. An apostrophe is not known as a separator: the digits before the first one are taken for the
number and all that follows for a suffix, so that the number moves by one or two in the last place
of its first group. Without separators this is the last place of the number.

The two greatest numbers that are shifted can come to the limit of the sums. Such a sum comes back
at the other end, and the number becomes a negative one.
-/
namespace Mutagen
namespace Literal

/-- The signs that may stand between the digits of a number. -/
def isSeparator (c : Char) : Bool := c == '_' || c == '\''

/-- A whole number as it is written: figures, which are digits and separators with a digit in
front, and a suffix. -/
structure Whole where
  figures : Text
  suffix : Text
  lead : ∃ c ∈ figures.head?, c.isDigit = true
  figure : ∀ c ∈ figures, c.isDigit = true ∨ isSeparator c = true
  ends : ∀ c ∈ suffix.head?, c.isDigit = false ∧ isSeparator c = false ∧ c ≠ '.'

theorem value_append (a b : Text) : value (a ++ b) = 10 ^ b.length * value a + value b := by
  change Nat.ofDigitChars 10 (a ++ b) 0 = _
  rw [Nat.ofDigitChars_append, Nat.ofDigitChars_eq_ofDigitChars_zero]
  rfl

/-- The digits behind the first ones of a number say how far to the left these are. -/
theorem value_filter_append {digits : Text} (hdigits : ∀ c ∈ digits, c.isDigit = true) (t : Text) :
    value ((digits ++ t).filter Char.isDigit) =
      10 ^ (t.filter Char.isDigit).length * value digits + value (t.filter Char.isDigit) := by
  rw [List.filter_append, List.filter_eq_self.2 hdigits, value_append]

theorem isDigit_eq_false_of_isSeparator {c : Char} (h : isSeparator c = true) :
    c.isDigit = false ∧ c ≠ '.' := by
  simp only [isSeparator, Bool.or_eq_true, beq_iff_eq] at h
  rcases h with rfl | rfl <;> decide

/-- A negative number is written with a sign. -/
theorem toList_toString_neg {n : Nat} (h : 0 < n) :
    (toString (-(n : Int))).toList = '-' :: Nat.toDigits 10 n := by
  cases n with
  | zero => exact absurd h (Nat.lt_irrefl 0)
  | succ n =>
    change ("-" ++ toString (n + 1)).toList = _
    rw [String.toList_append]
    exact congrArg ('-' :: ·) Nat.toList_repr

/-- What digits with something behind them become when their sum with a shift reaches the limit: the
sum comes back negative. -/
def Overrun (digits behind r : Text) : Prop :=
  value digits < limit ∧ ∃ s ∈ [1, 2], limit ≤ value digits + s ∧
    r = '-' :: (Nat.toDigits 10 (2 * limit - (value digits + s)) ++ behind)

/-- Only digits close to the limit are overrun. -/
theorem Overrun.le {digits behind r : Text} (h : Overrun digits behind r) :
    limit ≤ value digits + 2 := by
  obtain ⟨-, s, hs, hlimit, -⟩ := h
  simp only [List.mem_cons, List.not_mem_nil, or_false] at hs
  omega

/-- Digits that are not left alone are moved by one or two, or overrun. -/
theorem moved_or_overrun_of_perturb {digits behind r : Text} {g : Generator}
    (hdigits : ∀ c ∈ digits, c.isDigit = true) (hne : digits ≠ [])
    (hbehind : ∀ c ∈ behind.head?, c.isDigit = false ∧ c ≠ '.')
    (hr : r ∈ (perturb (digits ++ behind) g).1) :
    (∃ moved, Canonical moved ∧ ((value moved : Int) - value digits).natAbs ∈ [1, 2] ∧
      r = moved ++ behind) ∨ Overrun digits behind r := by
  rcases perturb_eq_none_or_shifted hdigits hne hbehind with hnone | ⟨hplain, hshifted⟩
  · rw [hnone] at hr
    cases hr
  have hbelow : value digits < limit := Nat.lt_of_not_le fun h => hplain (.inr h)
  obtain ⟨shift, hshift, hdrawn⟩ :=
    Draw.always_choose? (show 0 < wholeShifts.length by decide) (by decide) g
  rw [hshifted] at hr
  change some ((toString (shiftWhole (value digits)
    ((Draw.choose? wholeShifts g).1.getD 0))).toList ++ behind) = some r at hr
  rw [hdrawn, Option.getD_some] at hr
  rcases shiftWhole_cases hbelow hshift with ⟨v, hv, hnear⟩ | ⟨s, hs, hlimit, hback⟩
  · have htext : (toString (v : Int)).toList = Nat.toDigits 10 v := Nat.toList_repr
    refine .inl ⟨Nat.toDigits 10 v, canonical_toDigits v, by rw [value_toDigits]; exact hnear, ?_⟩
    rw [← Option.some.inj hr, hv, htext]
  · have hpos : 0 < 2 * limit - (value digits + s) := by
      have hlarge : 4 ≤ limit := by decide
      simp only [List.mem_cons, List.not_mem_nil, or_false] at hs
      omega
    refine .inr ⟨hbelow, s, hs, hlimit, ?_⟩
    rw [← Option.some.inj hr, hback, toList_toString_neg hpos]
    rfl

namespace Whole

variable (w : Whole)

def text : Text := w.figures ++ w.suffix

/-- The number, read without the separators. -/
def number : Nat := value (w.figures.filter Char.isDigit)

/-- The digits before the first separator. -/
def group : Text := w.figures.takeWhile Char.isDigit

/-- The figures from the first separator on. -/
def groups : Text := w.figures.dropWhile Char.isDigit

/-- The decimal place of the last digit before the first separator. -/
def place : Nat := (w.groups.filter Char.isDigit).length

theorem group_append_groups : w.group ++ w.groups = w.figures := List.takeWhile_append_dropWhile

theorem isDigit_of_mem_group {c : Char} (h : c ∈ w.group) : c.isDigit = true :=
  List.all_eq_true.1 List.all_takeWhile c h

theorem group_ne_nil : w.group ≠ [] := by
  obtain ⟨c, hc, hdigit⟩ := w.lead
  obtain ⟨rest, hrest⟩ := List.head?_eq_some_iff.1 hc
  rw [group, hrest, List.takeWhile_cons_of_pos hdigit]
  exact List.cons_ne_nil _ _

theorem number_eq :
    w.number = 10 ^ w.place * value w.group + value (w.groups.filter Char.isDigit) := by
  rw [number, ← w.group_append_groups, place]
  exact value_filter_append (fun c hc => w.isDigit_of_mem_group hc) w.groups

/-- What begins behind the first group is a separator. -/
theorem isSeparator_of_head?_groups {c : Char} (h : c ∈ w.groups.head?) :
    isSeparator c = true := by
  have hdigit : c.isDigit = false := by
    have hhead := List.head?_dropWhile_not Char.isDigit w.figures
    rw [show (w.figures.dropWhile Char.isDigit).head? = some c from h] at hhead
    exact hhead
  have hmem : c ∈ w.figures := by
    rw [← w.group_append_groups]
    exact List.mem_append_right _ (List.mem_of_head? h)
  refine (w.figure c hmem).resolve_left ?_
  rw [hdigit]
  decide

/-- Neither a digit nor a point follows the first group. -/
theorem behind_group {c : Char} (h : c ∈ (w.groups ++ w.suffix).head?) :
    c.isDigit = false ∧ c ≠ '.' := by
  cases hgroups : w.groups with
  | nil =>
    rw [hgroups, List.nil_append] at h
    obtain ⟨hdigit, -, hpoint⟩ := w.ends c h
    exact ⟨hdigit, hpoint⟩
  | cons d rest =>
    rw [hgroups] at h
    exact isDigit_eq_false_of_isSeparator
      (w.isSeparator_of_head?_groups (by rw [hgroups]; exact h))

/-- Without a separator the first group is all of the figures. -/
theorem groups_eq_nil (h : ∀ c ∈ w.figures, isSeparator c = false) : w.groups = [] := by
  cases hgroups : w.groups with
  | nil => rfl
  | cons c rest =>
    have hseparator := w.isSeparator_of_head?_groups (c := c) (by rw [hgroups]; rfl)
    rw [h c (by rw [← w.group_append_groups, hgroups]; simp)] at hseparator
    cases hseparator

/-- Then the last digit of the group is the last one of the number. -/
theorem place_eq_zero (h : w.groups = []) : w.place = 0 := by
  rw [place, h]
  rfl

theorem number_eq_of_groups_eq_nil (h : w.groups = []) : w.number = value w.group := by
  rw [number_eq, place_eq_zero w h, h, Nat.pow_zero, Nat.one_mul]
  rfl

/-- The number with other digits for its first group. -/
def withGroup (digits : Text) (h : Canonical digits) : Whole where
  figures := digits ++ w.groups
  suffix := w.suffix
  lead := by
    obtain ⟨c, rest, hdigits⟩ := List.exists_cons_of_ne_nil h.nonempty
    exact ⟨c, by rw [hdigits]; rfl, h.decimal c (by rw [hdigits]; exact List.mem_cons_self)⟩
  figure c hc := by
    rcases List.mem_append.1 hc with hc | hc
    · exact .inl (h.decimal c hc)
    · exact w.figure c ((List.dropWhile_sublist _).subset hc)
  ends := w.ends

/-- A number that is not left alone moves by one or two in the last place of its first group, or
this group is overrun. -/
theorem moves_in_place_or_overrun {r : Text} {g : Generator} (hr : r ∈ (perturb w.text g).1) :
    (∃ w' : Whole, r = w'.text ∧ w'.suffix = w.suffix ∧
      ((w'.number : Int) - w.number).natAbs ∈ [10 ^ w.place, 2 * 10 ^ w.place]) ∨
    Overrun w.group (w.groups ++ w.suffix) r := by
  rw [text, ← w.group_append_groups, List.append_assoc] at hr
  refine (moved_or_overrun_of_perturb (fun c hc => w.isDigit_of_mem_group hc) w.group_ne_nil
    (fun c hc => w.behind_group hc) hr).imp_left ?_
  rintro ⟨moved, hmoved, hnear, rfl⟩
  refine ⟨w.withGroup moved hmoved, (List.append_assoc ..).symm, rfl, ?_⟩
  have hshift : ((w.withGroup moved hmoved).number : Int) - w.number =
      10 ^ w.place * ((value moved : Int) - value w.group) := by
    have hnumber : (w.withGroup moved hmoved).number =
        10 ^ w.place * value moved + value (w.groups.filter Char.isDigit) :=
      value_filter_append hmoved.decimal w.groups
    rw [hnumber, w.number_eq, Int.mul_sub]
    push_cast
    omega
  simp only [List.mem_cons, List.not_mem_nil, or_false] at hnear ⊢
  rw [hshift, Int.natAbs_mul, Int.natAbs_pow]
  rcases hnear with hnear | hnear
  · left
    rw [hnear, Nat.mul_one]
    rfl
  · right
    rw [hnear, Nat.mul_comm]
    rfl

/-- A number with an underscore and without an apostrophe is left alone. -/
theorem perturb_of_separator (hplain : '\'' ∉ w.figures)
    (h : ∃ c ∈ w.figures, isSeparator c = true) : perturb w.text = pure none := by
  obtain ⟨c, hc, hseparator⟩ := h
  rw [isSeparator, Bool.or_eq_true, beq_iff_eq, beq_iff_eq] at hseparator
  rcases hseparator with rfl | rfl
  · exact perturb_of_mark (.inr (List.mem_append_left _ hc))
  · exact absurd hc hplain

/-- A first group from the limit on is left alone. -/
theorem perturb_of_limit_le (h : limit ≤ value w.group) : perturb w.text = pure none := by
  rw [text, ← w.group_append_groups, List.append_assoc]
  refine (perturb_eq_none_or_shifted (fun c hc => w.isDigit_of_mem_group hc) w.group_ne_nil
    (fun c hc => w.behind_group hc)).resolve_right ?_
  exact fun hshifted => hshifted.1 (.inr h)

end Whole

/-- A whole number without an apostrophe in it that is not close to the limit moves by one or two,
or is left alone, and one with a separator is left alone. A number with apostrophes moves in the
last place of its first group, or is left alone. A group close to the limit can come back
negative, and one from the limit on is left alone. -/
theorem perturb_moves_separated (w : Whole) (g : Generator) :
    ('\'' ∉ w.figures →
      (w.number + 2 < limit → ∀ r ∈ (perturb w.text g).1,
        ∃ w' : Whole, r = w'.text ∧ w'.suffix = w.suffix ∧
          ((w'.number : Int) - w.number).natAbs ∈ [1, 2]) ∧
      ((∃ c ∈ w.figures, isSeparator c = true) → perturb w.text g = (none, g))) ∧
    (∀ r ∈ (perturb w.text g).1,
      (∃ w' : Whole, r = w'.text ∧ w'.suffix = w.suffix ∧
        ((w'.number : Int) - w.number).natAbs ∈ [10 ^ w.place, 2 * 10 ^ w.place]) ∨
      Overrun w.group (w.groups ++ w.suffix) r) ∧
    (limit ≤ value w.group → perturb w.text g = (none, g)) := by
  refine ⟨fun hplain => ⟨fun hclear r hr => ?_, fun h => ?_⟩,
    fun r hr => w.moves_in_place_or_overrun hr, fun h => ?_⟩
  · have hnone : w.groups = [] := by
      refine w.groups_eq_nil fun c hc => ?_
      by_contra hseparator
      rw [w.perturb_of_separator hplain ⟨c, hc, by simpa using hseparator⟩] at hr
      cases hr
    rcases w.moves_in_place_or_overrun hr with ⟨w', htext, hsuffix, hnear⟩ | hover
    · rw [w.place_eq_zero hnone] at hnear
      exact ⟨w', htext, hsuffix, hnear⟩
    · rw [w.number_eq_of_groups_eq_nil hnone] at hclear
      exact absurd hover.le (Nat.not_le_of_lt hclear)
  · rw [w.perturb_of_separator hplain h]
    rfl
  · rw [w.perturb_of_limit_le h]
    rfl

/-- A number with a suffix moves, and one with an underscore does not. -/
theorem perturb_moves_separated_suffixed :
    (∃ r w', (perturb "41u8".toList (.ofSeed 0)).1 = some r ∧ r = Whole.text w' ∧
      w'.suffix = "u8".toList ∧ ((w'.number : Int) - 41).natAbs ∈ [1, 2]) ∧
    perturb "1_000".toList (.ofSeed 0) = (none, .ofSeed 0) := by
  constructor
  · obtain ⟨hmoves, -⟩ := (perturb_moves_separated ⟨"41".toList, "u8".toList, ⟨'4', rfl, rfl⟩,
      by simp [isSeparator], by simp [isSeparator]⟩ (.ofSeed 0)).1 (by decide)
    have hclear : value ("41".toList.filter Char.isDigit) + 2 < limit := by decide
    have hsome : (perturb "41u8".toList (.ofSeed 0)).1.isSome = true := by decide +kernel
    obtain ⟨r, hr⟩ := Option.isSome_iff_exists.1 hsome
    obtain ⟨w', htext, hsuffix, hnear⟩ := hmoves hclear r hr
    exact ⟨r, w', hr, htext, hsuffix, hnear⟩
  · obtain ⟨-, hmarked⟩ := (perturb_moves_separated ⟨"1_000".toList, [], ⟨'1', rfl, rfl⟩,
      by simp [isSeparator], by simp⟩ (.ofSeed 0)).1 (by decide)
    exact hmarked ⟨'_', by decide, by decide⟩

/-- The greatest number below the limit comes back as the least one that 128 bits hold. -/
example : (perturb (Nat.toDigits 10 (limit - 1)) (.ofSeed 2)).1 =
    some ('-' :: Nat.toDigits 10 limit) := by
  decide +kernel

/-- A thousand, with an apostrophe. -/
def thousand : Whole where
  figures := "1'000".toList
  suffix := []
  lead := ⟨'1', rfl, rfl⟩
  figure := by simp [isSeparator]
  ends := by simp

/-- It is not left alone but becomes three thousand. -/
theorem apostrophe_moves_thousands :
    (∃ c ∈ thousand.figures, isSeparator c = true) ∧ thousand.number = 1000 ∧
      (perturb thousand.text (.ofSeed 0)).1 = some "3'000".toList ∧
      ∀ w' : Whole, w'.text = "3'000".toList → w'.suffix = thousand.suffix → w'.number = 3000 := by
  refine ⟨⟨'\'', by decide, by decide⟩, by decide, by decide +kernel, ?_⟩
  intro w' htext hsuffix
  rw [Whole.text, show w'.suffix = [] from hsuffix, List.append_nil] at htext
  rw [Whole.number, htext]
  decide

end Literal
end Mutagen
