import Mutagen.Toml.Basic

/-!
# The characters of TOML

Blanks, comments, line ends, keys and strings. Every reader takes the rest of
the text and gives back what follows; it gives nothing on a mistake.
-/
namespace Mutagen
namespace Toml

abbrev Reader (α : Type) := Text → Option (α × Text)

/-- Characters that may not stand for themselves. -/
def isControl (c : Char) : Bool := (c.toNat < 32 && c != '\t') || c.toNat == 127

def isBareKey (c : Char) : Bool := c.isAlphanum || c == '_' || c == '-'

def isSpace (c : Char) : Bool := c == ' ' || c == '\t'

def skipSpace (t : Text) : Text := t.dropWhile isSpace

/-- Skips blanks, line ends and comments; `inComment` says that a comment has begun. -/
def skipTrivia (inComment : Bool) : Text → Option Text
  | [] => some []
  | '\r' :: '\n' :: t => skipTrivia false t
  | c :: t =>
    if c == '\n' then skipTrivia false t
    else if inComment then if isControl c then none else skipTrivia true t
    else if isSpace c then skipTrivia false t
    else if c == '#' then skipTrivia true t
    else some (c :: t)

/-- The end of a line: blanks, a comment, and a line end or the end of the text. -/
def endOfLine (inComment : Bool) : Text → Option Text
  | [] => some []
  | '\r' :: '\n' :: t => some t
  | c :: t =>
    if c == '\n' then some t
    else if inComment then if isControl c then none else endOfLine true t
    else if isSpace c then endOfLine false t
    else if c == '#' then endOfLine true t
    else none

def hexValue? (c : Char) : Option Nat :=
  if c.isDigit then some (c.toNat - 48)
  else if 'a' ≤ c ∧ c ≤ 'f' then some (c.toNat - 87)
  else if 'A' ≤ c ∧ c ≤ 'F' then some (c.toNat - 55)
  else none

/-- The character of a code point written in hexadecimal digits. -/
def codePoint? (digits : Text) : Option Char := do
  let n ← digits.foldlM (fun n c => do pure (16 * n + (← hexValue? c))) 0
  if h : n.isValidChar then some (Char.ofNatAux n h) else none

/-- The character of an escape, after the backslash. -/
def escape? : Reader Char
  | 'b' :: t => some ('\x08', t)
  | 't' :: t => some ('\t', t)
  | 'n' :: t => some ('\n', t)
  | 'f' :: t => some ('\x0c', t)
  | 'r' :: t => some ('\r', t)
  | '"' :: t => some ('"', t)
  | '\\' :: t => some ('\\', t)
  | 'u' :: a :: b :: c :: d :: t => (codePoint? [a, b, c, d]).map (·, t)
  | 'U' :: a :: b :: c :: d :: e :: f :: g :: h :: t =>
    (codePoint? [a, b, c, d, e, f, g, h]).map (·, t)
  | _ => none

/-- The rest of a string in double quotes. -/
def basic : Nat → Reader Text
  | 0, _ => none
  | fuel + 1, t =>
    match t with
    | [] => none
    | '"' :: t => some ([], t)
    | '\\' :: t => do
      let (c, t) ← escape? t
      let (s, t) ← basic fuel t
      pure (c :: s, t)
    | c :: t =>
      if isControl c then none
      else do
        let (s, t) ← basic fuel t
        pure (c :: s, t)

/-- The rest of a string in single quotes. -/
def literal : Reader Text
  | [] => none
  | '\'' :: t => some ([], t)
  | c :: t =>
    if isControl c then none
    else do
      let (s, t) ← literal t
      pure (c :: s, t)

/-- Drops the line end right after the opening of a string over several lines. -/
def dropFirstNewline : Text → Text
  | '\n' :: t => t
  | '\r' :: '\n' :: t => t
  | t => t

/-- Skips blanks and line ends after a backslash at the end of a line. -/
def skipFolded : Text → Text
  | '\r' :: '\n' :: t => skipFolded t
  | c :: t => if isSpace c || c == '\n' then skipFolded t else c :: t
  | [] => []

/-- Whether a backslash ends its line. -/
def endsLine (t : Text) : Bool :=
  match skipSpace t with
  | '\n' :: _ => true
  | '\r' :: '\n' :: _ => true
  | _ => false

/-- The end of a string over several lines at its quotes: up to two of them belong to it. -/
def closing? (quote : Char) (t : Text) : Option (Text × Text) :=
  let quotes := t.takeWhile (· == quote)
  if quotes.length < 3 then none
  else
    let inside := min (quotes.length - 3) 2
    some (quotes.take inside, t.drop (inside + 3))

/-- The rest of a string over several lines in double quotes. -/
def multiBasic : Nat → Reader Text
  | 0, _ => none
  | fuel + 1, t =>
    match t with
    | [] => none
    | '\\' :: t =>
      if endsLine t then multiBasic fuel (skipFolded t)
      else do
        let (c, t) ← escape? t
        let (s, t) ← multiBasic fuel t
        pure (c :: s, t)
    | '\r' :: '\n' :: t => do
      let (s, t) ← multiBasic fuel t
      pure ('\n' :: s, t)
    | c :: rest =>
      match if c == '"' then closing? '"' t else none with
      | some (s, t) => some (s, t)
      | none =>
        if isControl c && c != '\n' then none
        else do
          let (s, t) ← multiBasic fuel rest
          pure (c :: s, t)

/-- The rest of a string over several lines in single quotes. -/
def multiLiteral : Nat → Reader Text
  | 0, _ => none
  | fuel + 1, t =>
    match t with
    | [] => none
    | '\r' :: '\n' :: t => do
      let (s, t) ← multiLiteral fuel t
      pure ('\n' :: s, t)
    | c :: rest =>
      match if c == '\'' then closing? '\'' t else none with
      | some (s, t) => some (s, t)
      | none =>
        if isControl c && c != '\n' then none
        else do
          let (s, t) ← multiLiteral fuel rest
          pure (c :: s, t)

/-- A string of any of the four forms. -/
def quoted? : Reader Text
  | '"' :: '"' :: '"' :: t => multiBasic (t.length + 1) (dropFirstNewline t)
  | '\'' :: '\'' :: '\'' :: t => multiLiteral (t.length + 1) (dropFirstNewline t)
  | '"' :: t => basic (t.length + 1) t
  | '\'' :: t => literal t
  | _ => none

/-- A key without dots. -/
def simpleKey : Reader String
  | '"' :: t => (basic (t.length + 1) t).map fun (s, t) => (String.ofList s, t)
  | '\'' :: t => (literal t).map fun (s, t) => (String.ofList s, t)
  | t =>
    let key := t.takeWhile isBareKey
    if key.isEmpty then none else some (String.ofList key, t.drop key.length)

/-- A key with dots of at most so many parts, as their list. -/
def keyParts : Nat → Reader (List String)
  | 0, _ => none
  | most + 1, t => do
    let (k, t) ← simpleKey t
    match skipSpace t with
    | '.' :: t =>
      let (ks, t) ← keyParts most (skipSpace t)
      pure (k :: ks, t)
    | t => pure ([k], t)

/-- The most parts of a key, and the most arrays and tables around a value. -/
def deepest : Nat := 79

/-- A key with dots, as the list of its parts. -/
def dottedKey : Reader (List String) := keyParts deepest

end Toml
end Mutagen
