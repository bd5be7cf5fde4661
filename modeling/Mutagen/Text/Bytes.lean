import Mutagen.Text.Basic

/-!
# Bytes of a text
-/
namespace Mutagen

abbrev Bytes := List UInt8

/-- The UTF-8 form of a text. -/
def Text.bytes (t : Text) : Bytes := t.flatMap String.utf8EncodeChar

/-- The text with a given UTF-8 form. -/
def Bytes.text? (b : Bytes) : Option Text :=
  (String.fromUTF8? (ByteArray.mk b.toArray)).map String.toList

namespace Bytes

def newline : UInt8 := 10

def carriageReturn : UInt8 := 13

/-- What follows the start, and what follows each newline. -/
def lineStarts : Bytes → List Bytes
  | [] => [[]]
  | b :: rest =>
    match lineStarts rest with
    | [] => []
    | next :: more => if b == newline then (b :: next) :: next :: more else (b :: next) :: more

/-- The lines without their ends; a carriage return before a newline belongs to the end. -/
def lines : Bytes → List Bytes
  | [] => []
  | b :: rest =>
    if b == newline then [] :: lines rest
    else if b == carriageReturn && rest.head? == some newline then lines rest
    else match lines rest with
      | [] => [[b]]
      | line :: more => (b :: line) :: more

end Bytes
end Mutagen
