import Mutagen.Text.Bytes

/-!
# Path patterns

A pattern is matched against the bytes of a whole path. `?` stands for one byte,
`*` for a run of bytes, `[...]` for one byte of a set, `{...,...}` for one of
several patterns, and `**` between separators for a run of directories. Whether
`?` and `*` may stand for a separator is chosen when the pattern is read.

Matching marks the positions of the path that the pattern read so far can end
at, so that each token goes over the path once.
-/
namespace Mutagen

inductive GlobToken where
  | byte (b : UInt8)
  | any
  | star
  /-- Any directories, or none, at the start of a path. -/
  | leading
  /-- Any directories, or none, and the separators around them. -/
  | between
  /-- A separator and all that follows. -/
  | trailing
  | oneOf (negated : Bool) (ranges : List (UInt8 × UInt8))
  | choice (branches : List (List GlobToken))
  deriving Repr

structure Glob where
  /-- Whether `?` and `*` may stand for a separator. -/
  crossing : Bool
  tokens : List GlobToken
  deriving Repr

namespace Glob

def separator : UInt8 := 47

def dot : UInt8 := 46

def inRange (b : UInt8) (r : UInt8 × UInt8) : Bool := decide (r.1 ≤ b) && decide (b ≤ r.2)

/-! Tokens that stand for nothing at all. -/

mutual

def isVoid : GlobToken → Bool
  | .choice branches => allVoid branches
  | _ => false

def areVoid : List GlobToken → Bool
  | [] => true
  | t :: ts => isVoid t && areVoid ts

def allVoid : List (List GlobToken) → Bool
  | [] => true
  | ts :: rest => areVoid ts && allVoid rest

end

/-! Matching -/

/-- A mark for every position of a path, its end included. -/
abbrev Marks := List Bool

namespace Marks

/-- Only the start of a path. -/
def start (path : Bytes) : Marks := true :: path.map fun _ => false

def none (path : Bytes) : Marks := false :: path.map fun _ => false

/-- The positions of either. -/
def union (a b : Marks) : Marks := List.zipWith (· || ·) a b

/-- The positions one byte on, where the byte passes a test. -/
def advance (test : UInt8 → Bool) (path : Bytes) (m : Marks) : Marks :=
  false :: List.zipWith (fun b on => on && test b) path m

/-- The positions any number of bytes on, where each of them passes a test; `on` says whether the
first position is reached from before. -/
def spread (test : UInt8 → Bool) (on : Bool) : Bytes → Marks → Marks
  | _, [] => []
  | [], here :: _ => [on || here]
  | b :: path, here :: m => (on || here) :: spread test ((on || here) && test b) path m

/-- The positions just past a separator, any number of bytes on. -/
def pastSeparator (path : Bytes) (m : Marks) : Marks :=
  advance (· == separator) path (spread (fun _ => true) false path m)

end Marks

mutual

/-- The positions that a token can end at, when it starts at marked ones. -/
def tokenEnds (crossing : Bool) (path : Bytes) (m : Marks) : GlobToken → Marks
  | .byte b => m.advance (· == b) path
  | .any => m.advance (fun b => crossing || b != separator) path
  | .star => m.spread (fun b => crossing || b != separator) false path
  | .leading => m.union (m.pastSeparator path)
  | .between =>
    let after := m.advance (· == separator) path
    after.union (after.pastSeparator path)
  | .trailing => (m.advance (· == separator) path).spread (fun _ => true) false path
  | .oneOf negated ranges => m.advance (fun b => ranges.any (inRange b) != negated) path
  | .choice branches => if allVoid branches then m else branchesEnd crossing path m branches

def tokensEnd (crossing : Bool) (path : Bytes) (m : Marks) : List GlobToken → Marks
  | [] => m
  | t :: ts => tokensEnd crossing path (tokenEnds crossing path m t) ts

/-- The positions that one of the branches can end at; those that stand for nothing do not count. -/
def branchesEnd (crossing : Bool) (path : Bytes) (m : Marks) : List (List GlobToken) → Marks
  | [] => .none path
  | ts :: rest =>
    let others := branchesEnd crossing path m rest
    if areVoid ts then others else (tokensEnd crossing path m ts).union others

end

/-! Patterns that are about the name of a file, or about its extension. A path that ends in a dot
has neither. -/

/-- The bytes that tokens stand for, when they stand for no others. -/
def plain? : List GlobToken → Option Bytes
  | [] => some []
  | .byte b :: ts => (plain? ts).map (b :: ·)
  | _ :: _ => none

/-- The tokens behind leading directories, and whether there are any. -/
def behindLeading : List GlobToken → Bool × List GlobToken
  | .leading :: ts => (true, ts)
  | ts => (false, ts)

/-- Whether the pattern is a name in any directory. -/
def isName (g : Glob) : Bool :=
  match behindLeading g.tokens with
  | (true, t :: ts) => (plain? (t :: ts)).any fun bs => !bs.contains separator
  | _ => false

/-- Whether the pattern is a path without variation. -/
def isPlain (g : Glob) : Bool := (plain? g.tokens).any (· != [])

/-- Whether the pattern is any name with a given extension. -/
def isExtension (g : Glob) : Bool :=
  match behindLeading g.tokens with
  | (led, .star :: .byte b :: ts) => (led || g.crossing) && b == dot &&
      (plain? ts).any fun bs => !bs.contains separator && !bs.contains dot
  | _ => false

/-- Whether the pattern is a given end of a path. -/
def isEnding (g : Glob) : Bool :=
  let (led, ts) := behindLeading g.tokens
  match ts with
  | .star :: ts => g.crossing && (plain? ts).any fun bs => bs != [] && bs != [separator]
  | ts => (plain? ts).any fun bs => bs != [] && (led || bs != [separator])

/-- Whether tokens, the last first, end in a dot and a part of a name. -/
def endsInExtension : List GlobToken → Bool
  | .byte b :: ts => b == dot || (b != separator && endsInExtension ts)
  | _ => false

/-- Whether a path needs a name to match. -/
def needsName (g : Glob) : Bool :=
  g.isName || (!g.isPlain && (g.isExtension || (!g.isEnding && endsInExtension g.tokens.reverse)))

/-- Whether the pattern matches a whole path. `**` alone matches every path. -/
def matchesPath (g : Glob) (path : Bytes) : Bool :=
  match g.tokens with
  | [.leading] => true
  | ts => !(g.needsName && path.getLast? == some dot) &&
      (tokensEnd g.crossing path (.start path) ts).getLast? == some true

/-! How deep the parts of a pattern lie within each other. A sequence of two or more parts, a set, a
repetition, a choice and its branches each count for one. -/

/-- The number of parts that tokens are put together of. -/
def partCount : List GlobToken → Nat
  | [] => 0
  | t :: ts => (match t with
      | .trailing => 2
      | t => if isVoid t then 0 else 1) + partCount ts

mutual

def depthOf (crossing : Bool) : GlobToken → Nat
  | .byte _ => 0
  | .any => if crossing then 0 else 1
  | .star => if crossing then 1 else 2
  | .leading => 4
  | .between => 4
  | .trailing => 1
  | .oneOf _ ranges => if ranges.length < 2 then 1 else 2
  | .choice branches =>
    match branchDepths crossing branches with
    | [] => 0
    | [d] => d + 1
    | d :: ds => ds.foldl max d + 2

def deepest (crossing : Bool) : List GlobToken → Nat
  | [] => 0
  | t :: ts => max (depthOf crossing t) (deepest crossing ts)

/-- The depths of the branches that stand for something. -/
def branchDepths (crossing : Bool) : List (List GlobToken) → List Nat
  | [] => []
  | ts :: rest =>
    let others := branchDepths crossing rest
    if areVoid ts then others
    else (deepest crossing ts + if partCount ts < 2 then 0 else 1) :: others

end

/-- A pattern whose parts lie deeper than this cannot be used. -/
def depthLimit : Nat := 250

def isTooDeep (g : Glob) : Bool := decide (depthLimit < deepest g.crossing g.tokens + 1)

end Glob
end Mutagen
