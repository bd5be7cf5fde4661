import Mutagen.Text.Basic

/-!
# Cutting a text

Boundaries, slices and splices of a text, stated through its decompositions: a
position is a boundary when the text is what stands before it followed by what
stands behind it. All later facts about offsets are read off such decompositions.
-/
namespace Mutagen
namespace Text

theorem behind?_eq_some_iff {n : Nat} {t b : Text} :
    behind? n t = some b ↔ ∃ a, t = a ++ b ∧ size a = n := by
  constructor
  · exact eq_append_of_behind?
  · rintro ⟨a, rfl, rfl⟩
    exact behind?_size_append a b

theorem isBoundary_iff {t : Text} {n : Nat} :
    t.isBoundary n = true ↔ ∃ a b, t = a ++ b ∧ size a = n := by
  rw [isBoundary, Option.isSome_iff_exists]
  constructor
  · rintro ⟨b, hb⟩
    obtain ⟨a, ha, hn⟩ := behind?_eq_some_iff.1 hb
    exact ⟨a, b, ha, hn⟩
  · rintro ⟨a, b, ha, hn⟩
    exact ⟨b, behind?_eq_some_iff.2 ⟨a, ha, hn⟩⟩

theorem eq_nil_of_size {t : Text} (h : t.size = 0) : t = [] := by
  cases t with
  | nil => rfl
  | cons c t =>
    have hc := c.utf8Size_pos
    rw [size_cons] at h
    omega

/-- Two decompositions of one text, the first of them cut earlier: the parts between the cuts
agree. -/
theorem append_eq_append_of_le {a b c d : Text} (h : a ++ b = c ++ d) (hs : size a ≤ size c) :
    ∃ m, c = a ++ m ∧ b = m ++ d := by
  rcases List.append_eq_append_iff.1 h with ⟨m, hc, hb⟩ | ⟨m, ha, hd⟩
  · exact ⟨m, hc, hb⟩
  · have hm : m = [] := by
      apply eq_nil_of_size
      rw [ha, size_append] at hs
      omega
    subst hm
    exact ⟨[], by simpa using ha.symm, by simpa using hd.symm⟩

theorem append_inj_of_size {a b c d : Text} (h : a ++ b = c ++ d) (hs : size a = size c) :
    a = c ∧ b = d := by
  obtain ⟨m, hc, hb⟩ := append_eq_append_of_le h (by omega)
  have hm : m = [] := by
    apply eq_nil_of_size
    rw [hc, size_append] at hs
    omega
  subst hm
  exact ⟨by simpa using hc.symm, by simpa using hb⟩

/-- A boundary behind a part of the text cuts what follows that part. -/
theorem exists_cut {a b : Text} {n : Nat} (h : (a ++ b).isBoundary n = true) (hn : size a ≤ n) :
    ∃ m c, b = m ++ c ∧ size a + size m = n := by
  obtain ⟨p, q, hpq, rfl⟩ := isBoundary_iff.1 h
  obtain ⟨m, rfl, rfl⟩ := append_eq_append_of_le hpq hn
  exact ⟨m, q, rfl, (size_append a m).symm⟩

/-- A slice is a run of characters with the rest of the text around it. -/
theorem slice?_eq_some_iff {t m : Text} {i j : Nat} :
    t.slice? i j = some m ↔ ∃ a b, t = a ++ m ++ b ∧ size a = i ∧ size a + size m = j := by
  unfold slice?
  constructor
  · intro h
    split at h
    · rename_i hij
      obtain ⟨rest, hrest, hcut⟩ := Option.bind_eq_some_iff.1 h
      obtain ⟨⟨run, last⟩, hrun, hm⟩ := Option.bind_eq_some_iff.1 hcut
      obtain ⟨a, rfl, rfl⟩ := behind?_eq_some_iff.1 hrest
      obtain ⟨rfl, hj⟩ := splitAt?_eq_some_iff.1 hrun
      cases hm
      exact ⟨a, last, by simp, rfl, by omega⟩
    · cases h
  · rintro ⟨a, b, rfl, rfl, rfl⟩
    have hrest : behind? (size a) (a ++ m ++ b) = some (m ++ b) := by
      rw [List.append_assoc]
      exact behind?_size_append a (m ++ b)
    have hsub : size a + size m - size a = size m := by omega
    rw [if_pos (by omega), hrest]
    simp [hsub, splitAt?_size_append]

theorem slice?_append (a m b : Text) : (a ++ m ++ b).slice? (size a) (size a + size m) = some m :=
  slice?_eq_some_iff.2 ⟨a, b, rfl, rfl, rfl⟩

theorem slice?_zero_append (a b : Text) : (a ++ b).slice? 0 (size a) = some a :=
  slice?_eq_some_iff.2 ⟨[], b, rfl, rfl, by simp⟩

theorem slice?_size_append (a b : Text) : (a ++ b).slice? (size a) (size (a ++ b)) = some b :=
  slice?_eq_some_iff.2 ⟨a, [], by simp, rfl, (size_append a b).symm⟩

/-- Replacing a run of characters keeps what stands around it. -/
theorem splice_append (a m b r : Text) :
    (a ++ m ++ b).splice (size a) (size a + size m) r = a ++ r ++ b := by
  have hstart : splitAt? (size a) (a ++ m ++ b) = some (a, m ++ b) := by
    rw [List.append_assoc]
    exact splitAt?_size_append a (m ++ b)
  have hstop : behind? (size a + size m) (a ++ m ++ b) = some b := by
    rw [← size_append]
    exact behind?_size_append (a ++ m) b
  simp only [splice, hstart, hstop]

end Text
end Mutagen
