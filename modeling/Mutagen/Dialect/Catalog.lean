import Mutagen.Dialect.CFamily
import Mutagen.Dialect.CSharp
import Mutagen.Dialect.Go
import Mutagen.Dialect.Java
import Mutagen.Dialect.Php
import Mutagen.Dialect.Python
import Mutagen.Dialect.Ruby
import Mutagen.Dialect.Rust
import Mutagen.Dialect.Script

/-! The dialect of every language. -/
namespace Mutagen
namespace Language

def dialect : Language → Dialect
  | python => .python
  | javascript => .javascript
  | typescript => .typescript
  | tsx => .tsx
  | rust => .rust
  | go => .go
  | c => .c
  | cpp => .cpp
  | csharp => .csharp
  | java => .java
  | php => .php
  | ruby => .ruby

@[simp] theorem language_dialect (l : Language) : l.dialect.language = l := by cases l <;> rfl

def grammar (l : Language) : Grammar := l.dialect.grammar

end Language
end Mutagen
