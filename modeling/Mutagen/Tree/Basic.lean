import Mutagen.Span

/-!
# Syntax trees

A node carries a label and its children. A site is a node together with the way
down to it, so that parents and siblings can be asked for; two sites of one tree
are the same place exactly when their addresses agree.
-/
namespace Mutagen

/-- What a node says about itself: its kind, whether it is more than a token, whether it may
stand anywhere (as comments do), whether it stands for a mistake in the source, its span, and
the field under which its parent holds it. -/
structure Label where
  kind : String
  named : Bool
  extra : Bool
  error : Bool
  missing : Bool
  span : Span
  field : Option String
  deriving DecidableEq, Repr

inductive Node where
  | mk (label : Label) (children : List Node)

namespace Node

def label : Node → Label
  | mk l _ => l

def children : Node → List Node
  | mk _ cs => cs

@[simp] theorem label_mk (l : Label) (cs : List Node) : (mk l cs).label = l := rfl
@[simp] theorem children_mk (l : Label) (cs : List Node) : (mk l cs).children = cs := rfl

end Node

/-- A node and the nodes around it, the nearest first, each with the index of the child taken. -/
structure Site where
  node : Node
  above : List (Node × Nat)

namespace Site

/-- The place of a whole tree. -/
def top (root : Node) : Site := ⟨root, []⟩

def kind (s : Site) : String := s.node.label.kind
def named (s : Site) : Bool := s.node.label.named
def extra (s : Site) : Bool := s.node.label.extra
def field (s : Site) : Option String := s.node.label.field
def span (s : Site) : Span := s.node.label.span

/-- Whether the node stands for a mistake in the source. -/
def faulty (s : Site) : Bool := s.node.label.error || s.node.label.missing

/-- The child indices on the way down, the last first. -/
def address (s : Site) : List Nat := s.above.map (·.2)

/-- Whether two sites of one tree are the same place. -/
def same (s t : Site) : Bool := s.address == t.address

def text (s : Site) (source : Text) : Text := s.span.text source

def child (s : Site) (i : Nat) (c : Node) : Site := ⟨c, (s.node, i) :: s.above⟩

/-- Children of `s` given as nodes, the first of them at index `i`. -/
def childrenFrom (s : Site) : Nat → List Node → List Site
  | _, [] => []
  | i, c :: cs => s.child i c :: childrenFrom s (i + 1) cs

def children (s : Site) : List Site := s.childrenFrom 0 s.node.children

def namedChildren (s : Site) : List Site := s.children.filter named

def childrenByField (s : Site) (field : String) : List Site :=
  s.children.filter (·.field == some field)

def childByField? (s : Site) (field : String) : Option Site := (s.childrenByField field).head?

def hasChildOfKind (s : Site) (kind : String) : Bool := s.children.any (·.kind == kind)

/-- The first child of one of `kinds`. -/
def childOfKinds? (s : Site) (kinds : List String) : Option Site :=
  s.children.find? fun c => kinds.contains c.kind

def parent? (s : Site) : Option Site :=
  match s.above with
  | [] => none
  | (p, _) :: above => some ⟨p, above⟩

/-- The enclosing sites, the nearest first. -/
def ancestorsOf : List (Node × Nat) → List Site
  | [] => []
  | (p, _) :: above => ⟨p, above⟩ :: ancestorsOf above

def ancestors (s : Site) : List Site := ancestorsOf s.above

/-- The nearest enclosing site of one of `kinds`. -/
def ancestorOfKinds? (s : Site) (kinds : List String) : Option Site :=
  s.ancestors.find? fun a => kinds.contains a.kind

/-- The named siblings before the site, the nearest first. -/
def namedBefore (s : Site) : List Site :=
  match s.above with
  | [] => []
  | (p, i) :: above => ((⟨p, above⟩ : Site).children.take i).reverse.filter named

/-- Text of the child under a field, empty when there is none. -/
def fieldText (s : Site) (field : String) (source : Text) : Text :=
  match s.childByField? field with
  | some c => c.text source
  | none => []

@[simp] theorem address_top (root : Node) : (top root).address = [] := rfl
@[simp] theorem address_child (s : Site) (i : Nat) (c : Node) :
    (s.child i c).address = i :: s.address := rfl
@[simp] theorem parent?_child (s : Site) (i : Nat) (c : Node) :
    (s.child i c).parent? = some s := rfl

end Site
end Mutagen
