/-!
# Derived seeds

A seed for one use is mixed from a base seed and byte strings by the FNV-1a
hash, so that every file and every mutation has a stream of its own.
-/
namespace Mutagen
namespace Seed

/-- Takes one byte into the hash. -/
def mix (hash : UInt64) (b : UInt8) : UInt64 := (hash ^^^ b.toUInt64) * 0x100000001b3

/-- The eight bytes of a word, the lowest first. -/
def bytes (seed : UInt64) : List UInt8 :=
  (List.range 8).map fun i => (seed >>> (8 * i).toUInt64).toUInt8

/-- The hash of a base seed followed by byte strings. -/
def derive (seed : UInt64) (parts : List (List UInt8)) : UInt64 :=
  (bytes seed ++ parts.flatten).foldl mix 0xcbf29ce484222325

end Seed
end Mutagen
