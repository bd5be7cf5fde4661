/-!
# Text under byte offsets

Source text is a list of characters, and every position in it is the number of
UTF-8 bytes before it. A position inside a character, or past the end, is no
position: cutting there gives nothing.
-/
namespace Mutagen

/-- Source text, addressed by the byte offsets of its UTF-8 form. -/
abbrev Text := List Char

namespace Text

/-- Number of bytes of the UTF-8 form. -/
def size : Text → Nat
  | [] => 0
  | c :: t => c.utf8Size + size t

@[simp] theorem size_nil : size [] = 0 := rfl
@[simp] theorem size_cons (c : Char) (t : Text) : size (c :: t) = c.utf8Size + size t := rfl

@[simp] theorem size_append (a b : Text) : size (a ++ b) = size a + size b := by
  induction a with
  | nil => simp
  | cons c a ih => simp [ih, Nat.add_assoc]

/-- What is behind the first `n` bytes; nothing when the cut is not at a character boundary. -/
def behind? : Nat → Text → Option Text
  | 0, t => some t
  | _ + 1, [] => none
  | n + 1, c :: t => if c.utf8Size ≤ n + 1 then behind? (n + 1 - c.utf8Size) t else none

@[simp] theorem behind?_zero (t : Text) : behind? 0 t = some t := by
  cases t <;> rfl

theorem behind?_size_append (a b : Text) : behind? (size a) (a ++ b) = some b := by
  induction a with
  | nil => simp
  | cons c a ih =>
    have hc := c.utf8Size_pos
    obtain ⟨n, hn⟩ : ∃ n, c.utf8Size + size a = n + 1 := ⟨c.utf8Size + size a - 1, by omega⟩
    have hle : c.utf8Size ≤ n + 1 := by omega
    have hsub : n + 1 - c.utf8Size = size a := by omega
    simp [size_cons, hn, behind?, hle, hsub, ih]

theorem eq_append_of_behind? {n : Nat} {t b : Text} (h : behind? n t = some b) :
    ∃ a, t = a ++ b ∧ size a = n := by
  induction t generalizing n with
  | nil =>
    cases n with
    | zero => exact ⟨[], by simpa using h, rfl⟩
    | succ n => simp [behind?] at h
  | cons c t ih =>
    cases n with
    | zero => exact ⟨[], by simpa using h, rfl⟩
    | succ n =>
      simp only [behind?] at h
      split at h
      · obtain ⟨a, rfl, hs⟩ := ih h
        exact ⟨c :: a, rfl, by simp only [size_cons, hs]; omega⟩
      · simp at h

/-- The first `n` bytes and the rest; nothing when the cut is not at a character boundary. -/
def splitAt? (n : Nat) (t : Text) : Option (Text × Text) :=
  (behind? n t).map fun rest => (t.take (t.length - rest.length), rest)

@[simp] theorem splitAt?_zero (t : Text) : splitAt? 0 t = some ([], t) := by
  simp [splitAt?]

theorem splitAt?_size_append (a b : Text) : splitAt? (size a) (a ++ b) = some (a, b) := by
  simp [splitAt?, behind?_size_append]

/-- Cutting succeeds exactly at the boundaries, and loses nothing. -/
theorem splitAt?_eq_some_iff {n : Nat} {t a b : Text} :
    splitAt? n t = some (a, b) ↔ t = a ++ b ∧ size a = n := by
  constructor
  · intro h
    obtain ⟨rest, hrest, he⟩ := Option.map_eq_some_iff.1 h
    obtain ⟨lead, rfl, hs⟩ := eq_append_of_behind? hrest
    have hlead : lead = a ∧ rest = b := by simpa using he
    exact ⟨by rw [hlead.1, hlead.2], by rw [← hlead.1, hs]⟩
  · rintro ⟨rfl, rfl⟩
    exact splitAt?_size_append a b

/-- Whether `n` is a position between characters, the end included. -/
def isBoundary (t : Text) (n : Nat) : Bool := (behind? n t).isSome

/-- The bytes from `start` up to `stop`; nothing when they are not a run of characters. -/
def slice? (t : Text) (start stop : Nat) : Option Text :=
  if start ≤ stop then do
    let rest ← behind? start t
    let (run, _) ← splitAt? (stop - start) rest
    pure run
  else none

/-- The bytes from `start` up to `stop`, empty when they are not a run of characters. -/
def slice (t : Text) (start stop : Nat) : Text := (slice? t start stop).getD []

/-- The text with the bytes from `start` up to `stop` replaced. -/
def splice (t : Text) (start stop : Nat) (replacement : Text) : Text :=
  match splitAt? start t, behind? stop t with
  | some (before, _), some after => before ++ replacement ++ after
  | _, _ => t

/-- The rest of the text after `lead`, when it starts so. -/
def dropLead? : Text → Text → Option Text
  | [], t => some t
  | _ :: _, [] => none
  | d :: lead, c :: t => if d = c then dropLead? lead t else none

/-- The text without its ending `tail`, when it ends so. -/
def dropTail? (tail t : Text) : Option Text :=
  (dropLead? tail.reverse t.reverse).map List.reverse

end Text
end Mutagen
