/-!
# The random stream

A generator is a key and a position in the stream of words that the ChaCha block
function with twelve rounds makes of it. Drawing a word moves the position; the
stream itself never changes.
-/
namespace Mutagen

/-- Four words side by side. -/
structure Lanes where
  a : UInt32
  b : UInt32
  c : UInt32
  d : UInt32
  deriving DecidableEq, Repr

namespace Lanes

def add (x y : Lanes) : Lanes := ⟨x.a + y.a, x.b + y.b, x.c + y.c, x.d + y.d⟩

def xor (x y : Lanes) : Lanes := ⟨x.a ^^^ y.a, x.b ^^^ y.b, x.c ^^^ y.c, x.d ^^^ y.d⟩

/-- Rotates every word left by `n` bits, for `0 < n < 32`. -/
def rotate (n : UInt32) (x : Lanes) : Lanes :=
  let r (w : UInt32) := (w <<< n) ||| (w >>> (32 - n))
  ⟨r x.a, r x.b, r x.c, r x.d⟩

/-- Moves the words one place to the left, the first to the end. -/
def turn (x : Lanes) : Lanes := ⟨x.b, x.c, x.d, x.a⟩

def toList (x : Lanes) : List UInt32 := [x.a, x.b, x.c, x.d]

end Lanes

/-- The sixteen words of a block, as four rows. -/
structure Block where
  r₀ : Lanes
  r₁ : Lanes
  r₂ : Lanes
  r₃ : Lanes
  deriving DecidableEq, Repr

namespace Block

/-- The four quarter rounds on the columns. -/
def columns (x : Block) : Block :=
  let r₀ := x.r₀.add x.r₁
  let r₃ := (x.r₃.xor r₀).rotate 16
  let r₂ := x.r₂.add r₃
  let r₁ := (x.r₁.xor r₂).rotate 12
  let r₀ := r₀.add r₁
  let r₃ := (r₃.xor r₀).rotate 8
  let r₂ := r₂.add r₃
  let r₁ := (r₁.xor r₂).rotate 7
  ⟨r₀, r₁, r₂, r₃⟩

/-- A round on the columns, then one on the diagonals. -/
def doubleRound (x : Block) : Block :=
  let y := x.columns
  let z := (⟨y.r₀, y.r₁.turn, y.r₂.turn.turn, y.r₃.turn.turn.turn⟩ : Block).columns
  ⟨z.r₀, z.r₁.turn.turn.turn, z.r₂.turn.turn, z.r₃.turn⟩

def add (x y : Block) : Block := ⟨x.r₀.add y.r₀, x.r₁.add y.r₁, x.r₂.add y.r₂, x.r₃.add y.r₃⟩

def toList (x : Block) : List UInt32 := x.r₀.toList ++ x.r₁.toList ++ x.r₂.toList ++ x.r₃.toList

/-- Six double rounds, added to the block they start from. -/
def scramble (x : Block) : Block :=
  x.doubleRound.doubleRound.doubleRound.doubleRound.doubleRound.doubleRound.add x

end Block

structure Generator where
  key₁ : Lanes
  key₂ : Lanes
  position : Nat
  deriving DecidableEq, Repr

namespace Generator

/-- The next state of the congruential sequence that spreads a seed. -/
def spread (s : UInt64) : UInt64 := s * 6364136223846793005 + 11634580027462260723

/-- The word that a state of that sequence gives. -/
def word (s : UInt64) : UInt32 :=
  let x := (((s >>> 18) ^^^ s) >>> 27).toUInt32
  let r := (s >>> 59).toUInt32
  (x >>> r) ||| (x <<< ((32 - r) % 32))

def ofSeed (seed : UInt64) : Generator :=
  let s₁ := spread seed
  let s₂ := spread s₁
  let s₃ := spread s₂
  let s₄ := spread s₃
  let s₅ := spread s₄
  let s₆ := spread s₅
  let s₇ := spread s₆
  let s₈ := spread s₇
  ⟨⟨word s₁, word s₂, word s₃, word s₄⟩, ⟨word s₅, word s₆, word s₇, word s₈⟩, 0⟩

/-- The `n`-th block of the stream. -/
def block (g : Generator) (n : Nat) : Block :=
  Block.scramble ⟨⟨0x61707865, 0x3320646e, 0x79622d32, 0x6b206574⟩, g.key₁, g.key₂,
    ⟨UInt32.ofNat n, UInt32.ofNat (n / UInt32.size), 0, 0⟩⟩

/-- The word at a position of the stream. -/
def wordAt (g : Generator) (n : Nat) : UInt32 := (g.block (n / 16)).toList.getD (n % 16) 0

end Generator

/-- A computation that draws from a generator. -/
abbrev Draw := StateM Generator

namespace Draw

def next32 : Draw UInt32 := fun g => (g.wordAt g.position, { g with position := g.position + 1 })

/-- Two words, the low half first. -/
def next64 : Draw UInt64 := do
  let low ← next32
  let high ← next32
  pure (low.toUInt64 ||| (high.toUInt64 <<< 32))

/-- True with probability `p`; nothing is drawn when `p` is 1. -/
def flip (p : Float) : Draw Bool :=
  if p == 1.0 then pure true
  else do
    let x ← next64
    pure (decide (x < (p * 18446744073709551616.0).toUInt64))

/-- A number below `n`, for `0 < n ≤ 2 ^ 32`. A second word is drawn when the first leaves the
result open. -/
def below (n : Nat) : Draw Nat := do
  let m := (← next32).toNat * n
  let high := m / UInt32.size
  let low := m % UInt32.size
  if (UInt32.size - n) % UInt32.size < low then
    let carry := (← next32).toNat * n / UInt32.size
    pure (if UInt32.size ≤ low + carry then high + 1 else high)
  else pure high

/-- One of the items. -/
def choose? {α : Type} (items : List α) : Draw (Option α) := do
  let i ← below items.length
  pure items[i]?

end Draw
end Mutagen
