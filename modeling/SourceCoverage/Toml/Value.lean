/-!
# Values of Configuration Documents

A TOML document is a table of values by key. Tables come about in several ways, and the way
decides what may be added to a table later on, so each table remembers it. Of numbers and dates no
more is kept than the rest of the library asks for.
-/

namespace SourceCoverage.Toml

/-- How a table came about. -/
inductive TableKind where
  /-- By a header of its own, or as the document itself. -/
  | header
  /-- As the parent of a table that has a header. -/
  | implied
  /-- As the part before the dot of a dotted key. -/
  | dotted
  /-- In braces. -/
  | inline
  deriving Repr, DecidableEq

/-- A value of a document. -/
inductive Value where
  | string (text : String)
  | integer (n : Int)
  | float
  | boolean (b : Bool)
  | dateTime
  | array (elements : List Value)
  | table (kind : TableKind) (entries : List (String × Value))
  /-- A list of tables, each with a header of its own. -/
  | tables (elements : List (List (String × Value)))
  deriving Repr

/-- The contents of a table: values by key, in order. -/
abbrev Entries := List (String × Value)

namespace Entries

/-- The entries with the value of a key replaced. -/
def replace (entries : Entries) (key : String) (value : Value) : Entries :=
  entries.map fun entry => if entry.1 = key then (key, value) else entry

/-- The entries with a new one, if the key is not taken. -/
def add? (entries : Entries) (key : String) (value : Value) : Option Entries :=
  if (entries.lookup key).isSome then none else some (entries ++ [(key, value)])

end Entries

end SourceCoverage.Toml
