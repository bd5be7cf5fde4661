import Mutagen.Text.Case
import Mutagen.Path

/-!
# Languages

The languages whose sources can be handled, with their names and file
extensions. Extensions are compared without leading dots and in lowercase.
-/
namespace Mutagen

inductive Language where
  | python
  | javascript
  | typescript
  | tsx
  | rust
  | go
  | c
  | cpp
  | csharp
  | java
  | php
  | ruby
  deriving DecidableEq, Repr

/-- An extension without leading dots, in lowercase. -/
def normalizeExtension (ext : String) : String :=
  lowercase (String.ofList (ext.toList.dropWhile (· == '.')))

namespace Language

/-- Every language, in catalog order. -/
def all : List Language :=
  [python, javascript, typescript, tsx, rust, go, c, cpp, csharp, java, php, ruby]

@[simp] theorem mem_all (l : Language) : l ∈ all := by cases l <;> decide

def name : Language → String
  | python => "python"
  | javascript => "javascript"
  | typescript => "typescript"
  | tsx => "tsx"
  | rust => "rust"
  | go => "go"
  | c => "c"
  | cpp => "cpp"
  | csharp => "csharp"
  | java => "java"
  | php => "php"
  | ruby => "ruby"

def extensions : Language → List String
  | python => ["py"]
  | javascript => ["js", "mjs", "cjs", "jsx"]
  | typescript => ["ts", "mts", "cts"]
  | tsx => ["tsx"]
  | rust => ["rs"]
  | go => ["go"]
  | c => ["c", "h"]
  | cpp => ["cpp", "hpp", "cc", "cxx", "hh", "hxx"]
  | csharp => ["cs"]
  | java => ["java"]
  | php => ["php"]
  | ruby => ["rb"]

/-- Every extension, language by language. -/
def allExtensions : List String := all.flatMap extensions

/-- Whether the language has classes that can be mutated. -/
def hasClasses : Language → Bool
  | rust | go | c => false
  | _ => true

/-- The language of a name, in any spelling of its ASCII letters. -/
def ofName? (s : String) : Option Language := all.find? fun l => sameAscii l.name s

/-- The language of an extension, in any spelling of it. -/
def ofExtension? (ext : String) : Option Language :=
  all.find? fun l => l.extensions.contains (normalizeExtension ext)

def ofPath? (path : String) : Option Language := (Path.extension? path).bind ofExtension?

/-- The message for a path whose extension belongs to no language. -/
def unsupportedMessage (path : String) : String := "Unsupported language for file: " ++ path

end Language
end Mutagen
