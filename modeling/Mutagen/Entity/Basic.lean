import Mutagen.Dialect.Catalog
import Mutagen.Entity.Handle
import Mutagen.Tree.Walk

/-!
# Entities

An entity is a function or a class of a source file with everything that can be
said about it: name, signature, stub, place, dedented text, properties and the
number of its decisions.
-/
namespace Mutagen

structure Entity where
  path : String
  language : Language
  kind : EntityKind
  name : Text
  signature : Text
  stub : Text
  /-- First and last line, counted from 1. -/
  lineStart : Nat
  lineEnd : Nat
  indentLevel : Nat
  indentUnit : Nat
  /-- The text without the indentation of its first line. -/
  code : Text
  tags : List Property
  complexity : Nat
  indent : Text
  handle : Handle

/-- A parsed source file. -/
structure SourceFile where
  path : String
  source : Text
  root : Node

namespace Dialect

/-- The properties of the entity at a site. -/
def tags (d : Dialect) (kind : EntityKind) (s : Site) (source : Text) : List Property :=
  Property.normalize (kind.property :: (s.preorder.flatMap fun t => d.properties t source) ++
    (if kind = .classLike ∧ d.hasParent s then [.hasParent] else []) ++
    (if d.decoration.on s then [.hasDecorator] else []))

/-- What one node adds to the complexity of the entity around it. -/
def weight (d : Dialect) (source : Text) (s : Site) : Nat :=
  (if s.named && d.isDecision s source then 1 else 0) + d.grammar.elseBranches s

/-- One more than the number of decisions. -/
def complexity (d : Dialect) (s : Site) (source : Text) : Nat :=
  s.preorder.foldr (fun t n => d.weight source t + n) 1

/-- The entity at a site. -/
def build (d : Dialect) (file : SourceFile) (kind : EntityKind) (s : Site) : Entity :=
  let source := file.source
  let unit := source.indentUnit
  let indent := source.lineIndent s.span.start
  let signature := d.signature s source
  { path := file.path
    language := d.language
    kind
    name := d.name s source
    signature
    stub := d.stub s kind signature
    lineStart := source.row s.span.start + 1
    lineEnd := source.row s.span.stop + 1
    indentLevel := indent.size / max unit 1
    indentUnit := unit
    code := Text.dedent (s.text source) indent
    tags := d.tags kind s source
    complexity := d.complexity s source
    indent
    handle := .ofSite file.root source s }

/-- The entity that a node defines. -/
def entityAt? (d : Dialect) (file : SourceFile) (s : Site) : Option Entity := do
  let kind ← d.entityKind? s
  let _ ← d.body? s
  pure (d.build file kind s)

/-- One visit of an extraction that has found some entities, the last first. -/
def visit (d : Dialect) (file : SourceFile) (limit : Option Nat) (s : Site)
    (found : List Entity) : Walk × List Entity :=
  if s.faulty then (.stop, found)
  else match d.entityAt? file s with
    | none => (.proceed, found)
    | some e =>
      if limit.any fun n => decide (n ≤ found.length + 1) then (.stop, e :: found)
      else (.proceed, e :: found)

/-- The entities of a file in document order, up to the first mistake in it, and at most
`limit` of them. -/
def extract (d : Dialect) (file : SourceFile) (limit : Option Nat) : List Entity :=
  if limit = some 0 then []
  else ((Site.top file.root).walk (d.visit file limit) []).2.reverse

end Dialect

/-- The node of an entity, with what is needed to look at it. -/
structure Target where
  site : Site
  source : Text
  dialect : Dialect

namespace Entity

def span (e : Entity) : Span := e.handle.span

/-- The text as it stands in the file. -/
def raw (e : Entity) : Text := e.handle.text

def hasTag (e : Entity) (p : Property) : Bool := e.tags.contains p

def target? (e : Entity) : Option Target := do
  let site ← e.handle.resolve?
  pure ⟨site, e.handle.source, e.language.dialect⟩

end Entity

namespace Target

def grammar (t : Target) : Grammar := t.dialect.grammar

def text (t : Target) (s : Site) : Text := s.text t.source

def body? (t : Target) : Option Site := t.dialect.body? t.site

end Target
end Mutagen
