import Mutagen.Glob.Basic

/-!
# Reading path patterns

The text of a pattern is read in two passes: first its characters and sets, where
a backslash takes the meaning from the character behind it, then its tokens.
-/
namespace Mutagen
namespace Glob

/-- A character or a set of a pattern. -/
inductive Piece where
  | plain (c : Char)
  | escaped (c : Char)
  | oneOf (negated : Bool) (ranges : List (Char × Char))

/-- What a bracket without an end is: a mistake, or a character that stands for itself. In the
latter case so does every bracket behind it. -/
inductive Brackets where
  | strict
  | lenient
  | plain
  deriving DecidableEq, Repr

/-- Whether a set is negated, and what follows its sign. -/
def negation : Text → Bool × Text
  | '!' :: t => (true, t)
  | '^' :: t => (true, t)
  | t => (false, t)

theorem length_negation_le (t : Text) : (negation t).2.length ≤ t.length := by
  unfold negation
  split <;> simp

/-- The members of a set up to its bracket, and the rest. The first member may be a bracket. -/
def members? : Text → Option (Text × Text)
  | [] => none
  | c :: t =>
    match t.dropWhile (· != ']') with
    | [] => none
    | _ :: rest => some (c :: t.takeWhile (· != ']'), rest)

theorem length_of_members? {t m rest : Text} (h : members? t = some (m, rest)) :
    rest.length < t.length := by
  cases t with
  | nil => simp [members?] at h
  | cons c t =>
    have hle : (t.dropWhile (· != ']')).length ≤ t.length :=
      (List.dropWhile_sublist _).length_le
    simp only [members?] at h
    split at h
    · simp at h
    · rename_i heq
      simp only [Option.some.injEq, Prod.mk.injEq] at h
      simp only [heq, List.length_cons, h.2] at hle
      simp only [List.length_cons]
      omega

/-- The ranges of members, where the last range so far is from `low` to `high`. A range that
goes down is a mistake. -/
def rangesFrom? (low high : Char) : Text → Option (List (Char × Char))
  | [] => some [(low, high)]
  | '-' :: [] => some [(low, high), ('-', '-')]
  | '-' :: c :: t => if c < low then none else rangesFrom? low c t
  | c :: t => (rangesFrom? c c t).map ((low, high) :: ·)

def ranges? : Text → Option (List (Char × Char))
  | [] => some []
  | c :: t => rangesFrom? c c t

/-- The pieces of a pattern. -/
def pieces? (brackets : Brackets) (t : Text) : Option (List Piece) :=
  match t with
  | [] => some []
  | '\\' :: [] => none
  | '\\' :: c :: t => (pieces? brackets t).map (.escaped c :: ·)
  | '[' :: t =>
    if brackets = .plain then (pieces? .plain t).map (.plain '[' :: ·)
    else match h : members? (negation t).2 with
      | some (m, rest) =>
        have : rest.length < t.length :=
          Nat.lt_of_lt_of_le (length_of_members? h) (length_negation_le t)
        do pure (.oneOf (negation t).1 (← ranges? m) :: (← pieces? brackets rest))
      | none =>
        if brackets = .strict then none
        else do
          let _ ← ranges? (negation t).2
          pure (.plain '[' :: (← pieces? .plain t))
  | c :: t => (pieces? brackets t).map (.plain c :: ·)
termination_by t.length

/-- The byte ranges of a range of characters: every byte of its ends stands alone, but for the
two that meet in the middle. -/
def byteRanges (r : Char × Char) : List (UInt8 × UInt8) :=
  let alone (l : Bytes) : List (UInt8 × UInt8) := l.map fun b => (b, b)
  let low := String.utf8EncodeChar r.1
  let high := String.utf8EncodeChar r.2
  if r.1 = r.2 then alone low
  else alone low.dropLast ++ [(low.getLastD 0, high.headD 0)] ++ alone high.tail

/-- A pattern that is being read: what stands between two commas or braces. -/
structure Branch where
  /-- The branches before it. -/
  finished : List (List GlobToken)
  /-- What has been read, the last token first. -/
  tokens : List GlobToken

namespace Branch

def empty : Branch := ⟨[], []⟩

/-- Appends tokens, given with the last first. -/
def push (b : Branch) (ts : List GlobToken) : Branch := { b with tokens := ts ++ b.tokens }

def pushChar (b : Branch) (c : Char) : Branch :=
  b.push ((String.utf8EncodeChar c).map GlobToken.byte).reverse

/-- Puts a token for directories in place of the separator before it. -/
def pushDirectories (b : Branch) (t : GlobToken) : Branch :=
  match b.tokens with
  | .leading :: _ => b
  | .trailing :: _ => b
  | ts => { b with tokens := t :: ts.tail }

/-- All branches of a choice. -/
def branches (b : Branch) : List (List GlobToken) := b.finished ++ [b.tokens.reverse]

/-- Starts the next branch of a choice. -/
def next (b : Branch) : Branch := ⟨b.branches, []⟩

end Branch

/-- The tokens of pieces, where `last` is the character before them and `outer` are the patterns
around the one that is being read. -/
def tokens? (last : Option Char) (b : Branch) (outer : List Branch) :
    List Piece → Option (List GlobToken)
  | [] => if outer.isEmpty then some b.tokens.reverse else none
  | .plain '*' :: .plain '*' :: ps =>
    let inside := !outer.isEmpty
    if b.tokens.isEmpty then
      match ps with
      | [] => tokens? (some '*') (b.push [.leading]) outer []
      | .plain '/' :: ps => tokens? (some '/') (b.push [.leading]) outer ps
      | ps => tokens? (some '*') (b.push [.star, .star]) outer ps
    else if last == some '/' || inside && (last == some ',' || last == some '\x7b') then
      match ps with
      | [] => tokens? (some '*') (b.pushDirectories .trailing) outer []
      | .plain '/' :: ps => tokens? (some '/') (b.pushDirectories .between) outer ps
      | .plain c :: ps =>
        if inside && (c == ',' || c == '\x7d') then
          tokens? (some '*') (b.pushDirectories .trailing) outer (.plain c :: ps)
        else tokens? (some '*') (b.push [.star, .star]) outer (.plain c :: ps)
      | ps => tokens? (some '*') (b.push [.star, .star]) outer ps
    else tokens? (some '*') (b.push [.star, .star]) outer ps
  | .plain '*' :: ps => tokens? (some '*') (b.push [.star]) outer ps
  | .plain '?' :: ps => tokens? (some '?') (b.push [.any]) outer ps
  | .plain '\x7b' :: ps => tokens? (some '\x7b') .empty (b :: outer) ps
  | .plain '\x7d' :: ps =>
    match outer with
    | [] => none
    | parent :: outer => tokens? (some '\x7d') (parent.push [.choice b.branches]) outer ps
  | .plain ',' :: ps =>
    if outer.isEmpty then tokens? (some ',') (b.pushChar ',') outer ps
    else tokens? (some ',') b.next outer ps
  | .plain c :: ps => tokens? (some c) (b.pushChar c) outer ps
  | .escaped c :: ps => tokens? (some c) (b.pushChar c) outer ps
  | .oneOf negated ranges :: ps =>
    tokens? (some ']') (b.push [.oneOf negated (ranges.flatMap byteRanges)]) outer ps

/-- The pattern of a text. -/
def ofText? (crossing : Bool) (brackets : Brackets) (t : Text) : Option Glob := do
  pure ⟨crossing, ← tokens? none .empty [] (← pieces? brackets t)⟩

end Glob
end Mutagen
