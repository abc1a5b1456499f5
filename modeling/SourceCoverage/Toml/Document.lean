import SourceCoverage.Toml.Scalars

/-!
# Documents

A document is read line by line and then put together. The lines give values to keys; a *header*
line says into which table the keys that follow go. The table of a header in single brackets
comes about once; one in double brackets adds a table to a list each time.

Putting together enforces that nothing is defined twice. A path leads through tables, and into the
last one of a list of tables; where nothing is there yet, a table is put there. The path of a
header leads through every table but inline ones. The path of a dotted key leads through tables
only that no header and no braces have defined, and has to end in one that a dotted key brought
about.
-/

namespace SourceCoverage.Toml

open Scanner

/-! ### Putting tables together -/

/-- What a path leads through, and what is put where nothing is. -/
structure PathRule where
  passes : TableKind → Bool
  missing : TableKind

/-- The rule for headers. -/
def headerRule : PathRule := ⟨(· ≠ .inline), .implied⟩

/-- The rule for dotted keys. -/
def dottedRule : PathRule := ⟨fun kind => kind = .implied || kind = .dotted, .dotted⟩

/-- Changes the entries of the table that a path leads to, starting in a table of the kind
given. -/
def updateAt (rule : PathRule) (change : TableKind → Entries → Option Entries) :
    (path : List String) → (kind : TableKind) → Entries → Option Entries
  | [], kind, entries => change kind entries
  | key :: path, _, entries =>
    match entries.lookup key with
    | none => do
      let inner ← updateAt rule change path rule.missing []
      return entries ++ [(key, .table rule.missing inner)]
    | some (.table kind inner) =>
      if rule.passes kind then do
        let inner ← updateAt rule change path kind inner
        return entries.replace key (.table kind inner)
      else none
    | some (.tables elements) => do
      let inner ← updateAt rule change path .header (← elements.getLast?)
      return entries.replace key (.tables (elements.dropLast ++ [inner]))
    | some _ => none

/-- A value with the key that it is given to: the tables that the key leads through, and its last
part. -/
structure KeyValue where
  path : List String
  key : String
  value : Value

/-- Gives a value to a key of a table. -/
def addKeyValue (entries : Entries) (kv : KeyValue) : Option Entries :=
  let add (kind : TableKind) (entries : Entries) : Option Entries :=
    if kv.path ≠ [] ∧ kind ≠ .dotted then none else entries.add? kv.key kv.value
  updateAt dottedRule add kv.path .header entries

/-- Gives values to keys of a table, in order. -/
def addKeyValues (entries : Entries) (kvs : List KeyValue) : Option Entries :=
  kvs.foldlM addKeyValue entries

/-! ### Values with parts -/

/-- Takes an array, given how to take its elements. -/
def array (element : Scanner Value) : Scanner Value := do
  char '['
  blankLines
  let elements ←
    match ← optional? element with
    | none => pure []
    | some first => do
      let others ← many (do blankLines; char ','; blankLines; element)
      blankLines
      let _ ← optional? (char ',')
      pure (first :: others)
  blankLines
  char ']'
  return .array elements

/-- Takes a key and its value, given how to take values. -/
def keyValue (value : Scanner Value) : Scanner KeyValue := do
  let (path, key) ← dottedKey
  char '='
  blanks
  return ⟨path, key, ← value⟩

/-- Takes an inline table, given how to take values. -/
def inlineTable (value : Scanner Value) : Scanner Value := do
  char '\x7b'
  let kvs ←
    match ← optional? (keyValue value) with
    | none => pure []
    | some first => do
      let others ← many (do blanks; char ','; keyValue value)
      pure (first :: others)
  blanks
  char '\x7d'
  match addKeyValues [] kvs with
  | some entries => return .table .inline entries
  | none => failure

/-- Takes a value with no more than `depth` arrays and inline tables around any of its parts. -/
def value : (depth : Nat) → Scanner Value
  | 0 => scalar
  | depth + 1 => scalar <|> array (value depth) <|> inlineTable (value depth)

/-! ### Lines -/

/-- What a line says. -/
inductive Line where
  | nothing
  | keyValue (kv : KeyValue)
  /-- A header: whether it adds to a list of tables, and the path to its table. -/
  | header (isElement : Bool) (path : List String) (key : String)

/-- Takes a line. -/
def line : Scanner Line := do
  blanks
  (do lineEnd; return .nothing)
    <|> (do
      word ['[', '[']
      let (path, key) ← dottedKey
      word [']', ']']
      lineEnd
      return .header true path key)
    <|> (do
      char '['
      let (path, key) ← dottedKey
      char ']'
      lineEnd
      return .header false path key)
    <|> (do
      let kv ← keyValue (value (nestingLimit - 1))
      lineEnd
      return .keyValue kv)

/-- The lines of a text. -/
def lines? (text : List Char) : Option (List Line) := do
  let (lines, rest) ← (many line).run text
  if rest = [] then return lines else none

/-! ### Whole documents -/

/-- A header with the values that follow it. -/
structure TableSection where
  isElement : Bool
  path : List String
  key : String
  keyValues : List KeyValue

/-- The values that come before all headers, and the sections. -/
def sections (lines : List Line) : List KeyValue × List TableSection :=
  lines.foldr (fun line (kvs, sections) =>
    match line with
    | .nothing => (kvs, sections)
    | .keyValue kv => (kv :: kvs, sections)
    | .header isElement path key => ([], ⟨isElement, path, key, kvs⟩ :: sections)) ([], [])

/-- Puts a section into a document. -/
def addSection (document : Entries) (s : TableSection) : Option Entries :=
  let place (_ : TableKind) (entries : Entries) : Option Entries :=
    match s.isElement, entries.lookup s.key with
    | true, none => do
      return entries ++ [(s.key, .tables [← addKeyValues [] s.keyValues])]
    | true, some (.tables elements) => do
      let element ← addKeyValues [] s.keyValues
      return entries.replace s.key (.tables (elements ++ [element]))
    | false, none => do
      return entries ++ [(s.key, .table .header (← addKeyValues [] s.keyValues))]
    | false, some (.table .implied inner) => do
      return entries.replace s.key (.table .header (← addKeyValues inner s.keyValues))
    | _, _ => none
  updateAt headerRule place s.path .header document

/-- The text without the mark that may stand at its start. -/
def dropByteOrderMark : List Char → List Char
  | '\ufeff' :: text => text
  | text => text

/-- The document that a text spells. -/
def parse? (text : String) : Option Entries := do
  let (kvs, sections) := sections (← lines? (dropByteOrderMark text.toList))
  let document ← addKeyValues [] kvs
  sections.foldlM addSection document

end SourceCoverage.Toml
