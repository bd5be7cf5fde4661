import Mutagen.Config.Basic
import Mutagen.Modifier.Literal

/-!
# Command-line arguments

Words of a command line are flags, in a long or a short spelling and with or
without a value, names of commands, and operands. Short flags can be written
together, a value can follow its flag in the same word or in the next one, and
after `--` every word is an operand. A flag can be given once to each command,
unless its values add up. A value in a word of its own is looked at when the next
flag or operand comes; if the name of a command comes, it is looked at when that
command has been read.
-/
namespace Mutagen

inductive Flag where
  | config
  | verbose
  | quiet
  | help
  | version
  | maxEntities
  | json
  | exclude
  | modifier
  | seed
  | likelihood
  | maxMutants
  | language
  | global
  deriving DecidableEq, Repr

/-- Why a command line is not run. -/
inductive Halt where
  | usage
  | help
  | version (command : String)
  deriving DecidableEq, Repr

namespace Arguments

/-- A whole number that fits into a word. -/
def word? (t : Text) : Option UInt64 :=
  let digits := match t with
    | '+' :: t => t
    | t => t
  if digits.isEmpty || !digits.all Char.isDigit || decide (UInt64.size ≤ Literal.value digits) then
    none
  else some (UInt64.ofNat (Literal.value digits))

/-- The exponent that a text consists of; an empty text is the exponent 0. -/
def exponent? : Text → Option Int
  | [] => some 0
  | c :: t =>
    let (negative, digits) := match t with
      | '-' :: t => (true, t)
      | '+' :: t => (false, t)
      | t => (false, t)
    if (c == 'e' || c == 'E') && !digits.isEmpty && digits.all Char.isDigit then
      some (if negative then -(Literal.value digits : Int) else Literal.value digits)
    else none

/-- A decimal number; digits may be missing on one side of the point. -/
def decimal? (t : Text) : Option Float := do
  let (negative, t) := match t with
    | '-' :: t => (true, t)
    | '+' :: t => (false, t)
    | t => (false, t)
  let whole := t.takeWhile Char.isDigit
  let t := t.drop whole.length
  let (fraction, t) := match t with
    | '.' :: t => (t.takeWhile Char.isDigit, t.dropWhile Char.isDigit)
    | t => ([], t)
  let power ← exponent? t
  if whole.isEmpty && fraction.isEmpty then none
  else pure (Decimal.toFloat negative ⟨Literal.value (whole ++ fraction), power - fraction.length⟩)

def probability? (t : Text) : Option Float := (decimal? t).filter isProbability

end Arguments

namespace Flag

def long : Flag → String
  | config => "config"
  | verbose => "verbose"
  | quiet => "quiet"
  | help => "help"
  | version => "version"
  | maxEntities => "max-entities"
  | json => "json"
  | exclude => "exclude"
  | modifier => "modifier"
  | seed => "seed"
  | likelihood => "likelihood"
  | maxMutants => "max-bugs"
  | language => "language"
  | global => "global"

def short? : Flag → Option Char
  | config => some 'c'
  | verbose => some 'v'
  | quiet => some 'q'
  | help => some 'h'
  | version => some 'V'
  | maxEntities => some 'n'
  | exclude => some 'e'
  | modifier => some 'm'
  | seed => some 's'
  | likelihood | language => some 'l'
  | json | maxMutants | global => none

def takesValue : Flag → Bool
  | config | maxEntities | exclude | modifier | seed | likelihood | maxMutants | language => true
  | verbose | quiet | help | version | json | global => false

def repeats : Flag → Bool
  | exclude | modifier => true
  | _ => false

/-- Whether a text is a value of the flag. -/
def accepts (f : Flag) (value : Text) : Bool :=
  match f with
  | config => !value.isEmpty
  | maxEntities | seed | maxMutants => (Arguments.word? value).isSome
  | likelihood => (Arguments.probability? value).isSome
  | _ => true

/-- Flags that every command has. -/
def shared : List Flag := [config, verbose, quiet, help, version]

end Flag

/-- What an operand is. -/
inductive Operand where
  | path
  | key
  deriving DecidableEq, Repr

/-- Whether a word can be an operand. -/
def Operand.accepts : Operand → String → Bool
  | path, word => !word.isEmpty
  | key, _ => true

/-- What a command takes. -/
structure Shape where
  title : String
  flags : List Flag
  /-- The one operand that it can have. -/
  operand : Option Operand
  hasCommands : Bool

/-- The flags of a command with their values, and its operand. -/
structure Words where
  flags : List (Flag × Text)
  operand : Option String

namespace Words

def empty : Words := ⟨[], none⟩

def has (w : Words) (f : Flag) : Bool := w.flags.any (·.1 == f)

def values (w : Words) (f : Flag) : List Text := (w.flags.filter (·.1 == f)).map (·.2)

def value? (w : Words) (f : Flag) : Option Text := (w.values f).head?

def word? (w : Words) (f : Flag) : Option UInt64 := (w.value? f).bind Arguments.word?

def strings (w : Words) (f : Flag) : List String := (w.values f).map String.ofList

/-- Adds a flag with its value, which is empty for flags without one. -/
def addFlag (s : Shape) (w : Words) (f : Flag) (value : Text) : Except Halt Words :=
  if f = .help then .error .help
  else if f = .version then .error (.version s.title)
  else if w.has f && !f.repeats || !f.accepts value then .error .usage
  else .ok { w with flags := w.flags ++ [(f, value)] }

def addOperand (s : Shape) (w : Words) (word : String) : Except Halt Words :=
  if w.operand.isNone && s.operand.any fun o => o.accepts word then
    .ok { w with operand := some word }
  else .error .usage

/-- Reads short flags written together; a flag without its value is left over. -/
def addCluster (s : Shape) (w : Words) : Text → Except Halt (Words × Option Flag)
  | [] => .ok (w, none)
  | c :: t =>
    match s.flags.find? fun f => f.short? == some c with
    | none => .error .usage
    | some f =>
      if f.takesValue then
        match t with
        | [] => .ok (w, some f)
        | '=' :: value => do pure (← addFlag s w f value, none)
        | value => do pure (← addFlag s w f value, none)
      else do addCluster s (← addFlag s w f []) t

/-- Reads a long flag; a flag without its value is left over. -/
def addLong (s : Shape) (w : Words) (t : Text) : Except Halt (Words × Option Flag) :=
  let name := t.takeWhile (· != '=')
  match s.flags.find? (fun f => f.long.toList == name), t.drop name.length with
  | none, _ => .error .usage
  | some f, '=' :: value =>
    if f.takesValue then do pure (← addFlag s w f value, none) else .error .usage
  | some f, _ =>
    if f.takesValue then .ok (w, some f) else do pure (← addFlag s w f [], none)

/-- A flag with its value, unless it still waits for one. -/
abbrev Held := Flag × Option Text

/-- Adds the flag that is held back. -/
def settle (s : Shape) (w : Words) : Option Held → Except Halt Words
  | none => .ok w
  | some (_, none) => .error .usage
  | some (f, some value) => addFlag s w f value

/-- The words of a command: its own, a flag with a value in the word before the name of a command
below, and that name with the words behind it. -/
structure Cut where
  words : Words
  held : Option Held
  next : Option (String × List String)

/-- Reads words up to the name of a command below; `held` is the flag before them. -/
def read (s : Shape) (w : Words) (held : Option Held) : List String → Except Halt Cut
  | [] => do pure ⟨← settle s w held, none, none⟩
  | word :: rest =>
    match held, word.toList with
    | some (_, none), '-' :: _ :: _ => .error .usage
    | some (f, none), value => read s w (some (f, some value)) rest
    | held, ['-', '-'] => do
      if s.hasCommands && !rest.isEmpty then .error .usage
      else pure ⟨← rest.foldlM (addOperand s) (← settle s w held), none, none⟩
    | held, '-' :: '-' :: t => do
      let (w, f) ← addLong s (← settle s w held) t
      read s w (f.map (·, none)) rest
    | held, '-' :: c :: t => do
      let (w, f) ← addCluster s (← settle s w held) (c :: t)
      read s w (f.map (·, none)) rest
    | held, _ =>
      if s.hasCommands then .ok ⟨w, held, some (word, rest)⟩
      else do read s (← addOperand s (← settle s w held) word) none rest

end Words
end Mutagen
