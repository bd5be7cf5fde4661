import Mutagen.Ignore.Level

/-!
# The personal ignore file

Apart from the ignore files around a path there is one of the user, for all
repositories. A settings file in the home directory can name it.
-/
namespace Mutagen
namespace Settings

def isBlank (b : UInt8) : Bool := b == 32 || (9 ≤ b && b ≤ 13)

def skipBlank (b : Bytes) : Bytes := b.dropWhile isBlank

def quote : UInt8 := 34

def equals : UInt8 := 61

def lowerByte (b : UInt8) : UInt8 := if 65 ≤ b && b ≤ 90 then b + 32 else b

/-- What follows a word in small letters, which may be written in any case. -/
def dropWord? : Bytes → Bytes → Option Bytes
  | [], b => some b
  | _ :: _, [] => none
  | w :: word, c :: b => if w == lowerByte c then dropWord? word b else none

/-- Whether a line ends before anything but blanks. -/
def endsLine (b : Bytes) : Bool :=
  (b.takeWhile isBlank).contains Bytes.newline || (skipBlank b).isEmpty

/-- Whether a line ends here, after a quote or without one. -/
def closes (b : Bytes) : Bool :=
  endsLine b || match skipBlank b with
    | c :: rest => c == quote && endsLine rest
    | [] => false

/-- The shortest word that a line can end behind. -/
def word? : Bytes → Option Bytes
  | [] => none
  | c :: b =>
    if isBlank c then none
    else if closes b then some [c]
    else (word? b).map (c :: ·)

/-- The value of a setting. A quote before it is taken for a part of it only if nothing else is. -/
def value? (b : Bytes) : Option Bytes :=
  match skipBlank b with
  | [] => none
  | c :: rest =>
    if c == quote then (word? (skipBlank rest)).or (word? (c :: rest)) else word? (c :: rest)

/-- The value of a setting at the start of a line. -/
def valueOf? (name : Bytes) (b : Bytes) : Option Bytes := do
  match skipBlank (← dropWord? name (skipBlank b)) with
  | c :: rest => if c == equals then value? rest else none
  | [] => none

/-- The value of the first setting of a name. -/
def find? (name : String) (b : Bytes) : Option Text :=
  (b.lineStarts.findSome? (valueOf? (Text.bytes name.toList))).bind Bytes.text?

end Settings

namespace Files

/-- The ignore file that a settings file names, where `~` is the home directory. -/
def namedIgnoreFile? (fs : Files) (home settings : String) : Option String :=
  match fs.read settings with
  | .ok b => (Settings.find? "excludesfile" b).map fun t =>
      String.ofList (t.flatMap fun c => if c = '~' then home.toList else [c])
  | .error _ => none

/-- The rules of the ignore file of the user with a home directory. -/
def personalRules (fs : Files) (home : String) : List IgnoreRule :=
  let path := ((fs.namedIgnoreFile? home (Path.join home ".gitconfig")).or
    (fs.namedIgnoreFile? home (Path.join home ".config/git/config"))).getD
      (Path.join home ".config/git/ignore")
  if fs.isFile path then fs.ignoreRules path else []

end Files
end Mutagen
