import Mutagen.Toml.Scalar

/-!
# Reading documents

A document is a list of statements: headers of tables and pairs of keys and
values. They are put together into one table, where a table may be opened only
once and a key may be given only once.
-/
namespace Mutagen
namespace Toml

/-- How a table came to be: under a header, above one, or through a key with dots. -/
inductive Origin where
  | header
  | above
  | dotted
  deriving DecidableEq, Repr

/-- A table under construction. -/
inductive Item where
  | value (v : Toml)
  | table (origin : Origin) (entries : List (String × Item))
  /-- An array of tables, the last first. -/
  | tables (items : List (List (String × Item)))

abbrev Entries := List (String × Item)

mutual

def Item.toToml : Item → Toml
  | .value v => v
  | .table _ entries => Toml.table (Item.entriesToToml entries)
  | .tables items => Toml.array (Item.tablesToToml items).reverse

def Item.entriesToToml : List (String × Item) → List (String × Toml)
  | [] => []
  | (k, item) :: rest => (k, item.toToml) :: Item.entriesToToml rest

def Item.tablesToToml : List (List (String × Item)) → List Toml
  | [] => []
  | entries :: rest => Toml.table (Item.entriesToToml entries) :: Item.tablesToToml rest

end

/-- Puts an item under a key, in place of one that is there. -/
def put (k : String) (item : Item) : Entries → Entries
  | [] => [(k, item)]
  | e :: rest => if e.1 = k then (k, item) :: rest else e :: put k item rest

/-- A table with its origin. -/
structure Open where
  origin : Origin
  entries : Entries

/-- Changes the table along a path of headers, opening tables on the way. -/
def descend (f : Open → Option Open) : List String → Open → Option Open
  | [], t => f t
  | k :: ks, t =>
    match t.entries.lookup k with
    | none => do
      let below ← descend f ks ⟨.above, []⟩
      pure { t with entries := put k (.table below.origin below.entries) t.entries }
    | some (.table origin entries) => do
      let below ← descend f ks ⟨origin, entries⟩
      pure { t with entries := put k (.table below.origin below.entries) t.entries }
    | some (.tables (last :: before)) => do
      let below ← descend f ks ⟨.header, last⟩
      pure { t with entries := put k (.tables (below.entries :: before)) t.entries }
    | some _ => none

/-- Changes the table along the dots of a key, which may not enter a table with a header. -/
def descendDots (f : Open → Option Open) : List String → Open → Option Open
  | [], t => f t
  | k :: ks, t =>
    match t.entries.lookup k with
    | none => do
      let below ← descendDots f ks ⟨.dotted, []⟩
      pure { t with entries := put k (.table below.origin below.entries) t.entries }
    | some (.table origin entries) =>
      if origin = .header then none
      else do
        let below ← descendDots f ks ⟨origin, entries⟩
        pure { t with entries := put k (.table below.origin below.entries) t.entries }
    | some (.tables (last :: before)) => do
      let below ← descendDots f ks ⟨.header, last⟩
      pure { t with entries := put k (.tables (below.entries :: before)) t.entries }
    | some _ => none

/-- Adds a pair to a table; the key is given by its dots and its last part. -/
def addPair (dots : List String) (key : String) (v : Toml) (t : Open) : Option Open :=
  descendDots (fun t =>
    if (t.origin == .dotted) == dots.isEmpty || (t.entries.lookup key).isSome then none
    else some { t with entries := t.entries ++ [(key, .value v)] }) dots t

/-- Opens a table that has no header yet. -/
def openTable (key : String) (t : Open) : Option Open :=
  match t.entries.lookup key with
  | none => some { t with entries := t.entries ++ [(key, .table .header [])] }
  | some (.table .above entries) =>
    some { t with entries := put key (.table .header entries) t.entries }
  | some _ => none

/-- Opens a further table of an array of tables. -/
def openElement (key : String) (t : Open) : Option Open :=
  match t.entries.lookup key with
  | none => some { t with entries := t.entries ++ [(key, .tables [[]])] }
  | some (.tables items) => some { t with entries := put key (.tables ([] :: items)) t.entries }
  | some _ => none

inductive Statement where
  | pair (key : List String) (v : Toml)
  | header (path : List String)
  | element (path : List String)

/-- A document under construction and the path of the table that pairs go to. -/
structure Progress where
  root : Open
  path : List String

def Progress.step (p : Progress) : Statement → Option Progress
  | .pair key v => do
    let last ← key.getLast?
    let root ← descend (addPair key.dropLast last v) p.path p.root
    pure { p with root }
  | .header path => do
    let last ← path.getLast?
    let root ← descend (openTable last) path.dropLast p.root
    pure ⟨root, path⟩
  | .element path => do
    let last ← path.getLast?
    let root ← descend (openElement last) path.dropLast p.root
    pure ⟨root, path⟩

/-- The document that statements describe. -/
def assemble? (statements : List Statement) : Option Toml := do
  let p ← statements.foldlM Progress.step ⟨⟨.header, []⟩, []⟩
  pure (Toml.table (Item.entriesToToml p.root.entries))

/-- A table in braces. -/
def inline? (pairs : List (List String × Toml)) : Option Toml :=
  assemble? (pairs.map fun p => .pair p.1 p.2)

mutual

/-- A value with at most `room` arrays and tables around its parts. -/
def value? (room : Nat) : Nat → Reader Toml
  | 0, _ => none
  | fuel + 1, t =>
    match t with
    | '[' :: t =>
      match room with
      | 0 => none
      | room + 1 => do
        let (items, t) ← items? room fuel (← skipTrivia false t)
        pure (array items, t)
    | '\x7b' :: t =>
      match room, skipSpace t with
      | 0, _ => none
      | _, '\x7d' :: t => some (table [], t)
      | room + 1, t => do
        let (pairs, t) ← pairs? room fuel t
        pure (← inline? pairs, t)
    | c :: rest =>
      if c == '"' || c == '\'' then (quoted? (c :: rest)).map fun (s, t) => (string s, t)
      else do
        let written := scalarText (c :: rest)
        pure (← scalar? written, (c :: rest).drop written.length)
    | [] => none

/-- The items of an array up to its closing bracket. -/
def items? (room : Nat) : Nat → Reader (List Toml)
  | 0, _ => none
  | fuel + 1, t =>
    match t with
    | ']' :: t => some ([], t)
    | t => do
      let (v, t) ← value? room fuel t
      match ← skipTrivia false t with
      | ',' :: t => do
        let (vs, t) ← items? room fuel (← skipTrivia false t)
        pure (v :: vs, t)
      | ']' :: t => pure ([v], t)
      | _ => none

/-- The pairs of a table in braces up to its closing brace. -/
def pairs? (room : Nat) : Nat → Reader (List (List String × Toml))
  | 0, _ => none
  | fuel + 1, t => do
    let (key, t) ← dottedKey t
    let '=' :: t := skipSpace t | none
    let (v, t) ← value? room fuel (skipSpace t)
    match skipSpace t with
    | ',' :: t => do
      let (ps, t) ← pairs? room fuel (skipSpace t)
      pure ((key, v) :: ps, t)
    | '\x7d' :: t => pure ([(key, v)], t)
    | _ => none

end

/-- The path of a header up to its closing bracket. -/
def headerPath : Reader (List String) := fun t => do
  let t := skipSpace t
  let (path, t) ← dottedKey t
  pure (path, skipSpace t)

/-- The statements of a document. -/
def statements? : Nat → Text → Option (List Statement)
  | 0, _ => none
  | fuel + 1, t => do
    match ← skipTrivia false t with
    | [] => pure []
    | '[' :: '[' :: t => do
      let (path, t) ← headerPath t
      let ']' :: ']' :: t := t | none
      pure (.element path :: (← statements? fuel (← endOfLine false t)))
    | '[' :: t => do
      let (path, t) ← headerPath t
      let ']' :: t := t | none
      pure (.header path :: (← statements? fuel (← endOfLine false t)))
    | t => do
      let (key, t) ← dottedKey t
      let '=' :: t := skipSpace t | none
      let t := skipSpace t
      let (v, t) ← value? deepest (2 * t.length + 1) t
      pure (.pair key v :: (← statements? fuel (← endOfLine false t)))

/-- Reads a document. -/
def read? (t : Text) : Option Toml := do
  let t := match t with
    | '\ufeff' :: t => t
    | t => t
  assemble? (← statements? (t.length + 1) t)

end Toml
end Mutagen
