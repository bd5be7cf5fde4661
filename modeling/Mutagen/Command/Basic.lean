import Mutagen.Command.Arguments

/-!
# Commands

The commands of the program and how a command line names them.
-/
namespace Mutagen

/-- Settings of every command. -/
structure SharedOptions where
  /-- A configuration file in place of the one of the workspace. -/
  config : Option String
  verbose : Bool
  quiet : Bool
  deriving DecidableEq, Repr

structure MutateOptions where
  modifiers : List String
  seed : Option UInt64
  likelihood : Option Float
  maxMutants : Option UInt64

inductive Command where
  | extract (path : String) (maxEntities : Option UInt64) (exclude : List String) (json : Bool)
  | mutate (path : String) (options : MutateOptions) (maxEntities : Option UInt64)
      (exclude : List String) (json : Bool)
  | modifiers (language : Option String) (json : Bool)
  | languages (json : Bool)
  | showConfig (json : Bool)
  | getConfig (key : String) (json : Bool)
  | configPaths (json : Bool)
  | initConfig (global : Bool)

/-- A command with the words of the commands that lead to it, itself included. -/
structure Invocation where
  levels : List Words
  command : Command

namespace SharedOptions

/-- The settings given to a command; for a setting with a value the last level counts. -/
def ofLevels (levels : List Words) : SharedOptions where
  config := (levels.filterMap (·.value? .config)).getLast?.map String.ofList
  verbose := levels.any (·.has .verbose)
  quiet := levels.any (·.has .quiet)

end SharedOptions

namespace Invocation

def shared (i : Invocation) : SharedOptions := .ofLevels i.levels

/-- Whether a configuration file is given at every level. -/
def namesConfig (i : Invocation) : Bool := i.levels.all (·.has .config)

end Invocation

namespace Command

/-- The path whose source files a command is about. -/
def sourcePath? : Command → Option String
  | extract path .. => some path
  | mutate path .. => some path
  | _ => none

def programName : String := "bugforge"

def programVersion : String := "0.1.0"

/-- The shape of a command with a name below another one. -/
def shape (parent name : String) (flags : List Flag) (operand : Option Operand)
    (hasCommands : Bool) : Shape :=
  ⟨parent ++ "-" ++ name, Flag.shared ++ flags, operand, hasCommands⟩

def top : Shape := ⟨programName, Flag.shared, none, true⟩

/-- The path of a command; the working directory when none is given. -/
def pathOperand (w : Words) : String := w.operand.getD "."

/-- A command without commands below it. -/
def leaf (s : Shape) (rest : List String) (f : Words → Except Halt Command) :
    Except Halt Invocation := do
  let w := (← Words.read s .empty none rest).words
  pure ⟨[w], ← f w⟩

/-- A command with commands below it, which are read by name. -/
def branch (s : Shape) (rest : List String)
    (below : String → List String → Except Halt Invocation) : Except Halt Invocation := do
  let cut ← Words.read s .empty none rest
  match cut.next with
  | none => .error .usage
  | some (name, rest) => do
    let i ← below name rest
    pure ⟨(← cut.words.settle s cut.held) :: i.levels, i.command⟩

/-- The names of commands that help can be asked for. -/
def helpTopics : List (List String) :=
  [[], ["help"], ["extract"], ["mutate"], ["modifiers"], ["languages"], ["config"],
    ["config", "help"], ["config", "show"], ["config", "get"], ["config", "path"],
    ["config", "init"]]

def askHelp {α : Type} (topic : List String) : Except Halt α :=
  .error (if helpTopics.contains topic then .help else .usage)

/-- A command about configurations. -/
def parseConfig (parent name : String) (rest : List String) : Except Halt Invocation :=
  let s := shape parent name [] none true
  branch s rest fun name rest =>
    match name with
    | "show" => leaf (shape s.title name [.json] none false) rest fun w =>
        .ok (.showConfig (w.has .json))
    | "get" => leaf (shape s.title name [.json] (some .key) false) rest fun w =>
        match w.operand with
        | none => .error .usage
        | some key => .ok (.getConfig key (w.has .json))
    | "path" => leaf (shape s.title name [.json] none false) rest fun w =>
        .ok (.configPaths (w.has .json))
    | "init" => leaf (shape s.title name [.global] none false) rest fun w =>
        .ok (.initConfig (w.has .global))
    | "help" => askHelp ("config" :: rest)
    | _ => .error .usage

/-- The command of a command line. -/
def parse (args : List String) : Except Halt Invocation :=
  branch top args fun name rest =>
    match name with
    | "extract" =>
      leaf (shape top.title name [.maxEntities, .json, .exclude] (some .path) false) rest fun w =>
        .ok (.extract (pathOperand w) (w.word? .maxEntities) (w.strings .exclude) (w.has .json))
    | "mutate" =>
      leaf (shape top.title name [.modifier, .seed, .likelihood, .maxMutants, .maxEntities, .json,
          .exclude] (some .path) false) rest fun w =>
        .ok (.mutate (pathOperand w)
          ⟨w.strings .modifier, w.word? .seed, (w.value? .likelihood).bind Arguments.probability?,
            w.word? .maxMutants⟩
          (w.word? .maxEntities) (w.strings .exclude) (w.has .json))
    | "modifiers" => leaf (shape top.title name [.language, .json] none false) rest fun w =>
        .ok (.modifiers ((w.value? .language).map String.ofList) (w.has .json))
    | "languages" => leaf (shape top.title name [.json] none false) rest fun w =>
        .ok (.languages (w.has .json))
    | "config" => parseConfig top.title name rest
    | "help" => askHelp rest
    | _ => .error .usage

end Command
end Mutagen
