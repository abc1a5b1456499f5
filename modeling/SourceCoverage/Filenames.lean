import SourceCoverage.Cursor
import SourceCoverage.Identity
import SourceCoverage.Zlib.Stream

/-!
# The Filenames Table

A module's mappings refer to source files by position in a table of paths, which stands once in
the module. In the encoded table three LEB128 values come first: the number of paths, the length
of the path data, and its compressed length, or zero if it is not compressed. The path data is
each path's length followed by its UTF-8 bytes.

Function records refer to the table by the hash of its *encoded* form, which is what a reader of
the object file has at hand.
-/

namespace SourceCoverage

/-- The paths of the source files that a module's mappings refer to. -/
structure FilenameTable where
  files : List String
  deriving Repr, DecidableEq

/-- An encoded table and its hash. -/
structure EncodedFilenames where
  blob : Bytes
  hash : UInt64
  deriving Repr, DecidableEq

namespace FilenameTable

/-- The table without paths. -/
def empty : FilenameTable := ⟨[]⟩

/-- The table with one path. -/
def single (path : String) : FilenameTable := ⟨[path]⟩

/-- The number of paths. -/
def size (table : FilenameTable) : Nat := table.files.length

/-- Whether there are no paths. -/
def isEmpty (table : FilenameTable) : Bool := table.files.isEmpty

/-- Adds a path behind the others, unless it is there already, and gives its position. -/
def insert (table : FilenameTable) (path : String) : FilenameTable × UInt32 :=
  match table.files.idxOf? path with
  | some position => (table, UInt32.ofNat position)
  | none => (⟨table.files ++ [path]⟩, UInt32.ofNat table.size)

/-- The path data: each path behind its length in bytes. -/
def pathData (table : FilenameTable) : Bytes :=
  table.files.flatMap fun path => Leb128.writeNat (utf8 path).length ++ utf8 path

/-- The encoded table around given compressed path data, if it is to be compressed. -/
def blob (table : FilenameTable) (compressed : Option Bytes) : Bytes :=
  Leb128.writeNat table.size ++ Leb128.writeNat table.pathData.length ++
    match compressed with
    | some data => Leb128.writeNat data.length ++ data
    | none => Leb128.writeNat 0 ++ table.pathData

/-- The encoded table with its hash, given a way to compress if it is to be compressed. -/
def encodeWith (compress : Bytes → Bytes) (table : FilenameTable) (compressing : Bool) :
    EncodedFilenames :=
  let compressed := if compressing then some (compress table.pathData) else none
  let blob := table.blob compressed
  ⟨blob, nameHash blob⟩

/-- The encoded table, compressed as this library does it or not at all, with its hash. -/
def encode (table : FilenameTable) (compressing : Bool) : EncodedFilenames :=
  table.encodeWith Zlib.compress compressing

end FilenameTable

/-! ### Reading a table -/

open Cursor

/-- Reads a path behind its length. -/
def readPath : Reader String := do
  let length ← uleb
  let bytes ← take length.toNat
  match ofUtf8? bytes with
  | some path => return path
  | none => fail .notUtf8

/-- Reading a path takes at least one byte. -/
theorem readPath_shortens {cursor next : Cursor} {path : String}
    (h : readPath cursor = .ok (path, next)) : next.rest.length < cursor.rest.length := by
  obtain ⟨length, _, hlength, h⟩ := Reader.bind_eq_ok.1 h
  obtain ⟨bytes, _, hbytes, h⟩ := Reader.bind_eq_ok.1 h
  have hshort := uleb_shortens hlength
  have hle := take_length_le hbytes
  cases htext : ofUtf8? bytes with
  | none => simp [htext, fail] at h
  | some text =>
    rw [htext] at h
    obtain ⟨_, rfl⟩ := Reader.pure_eq_ok.1 h
    omega

/-- Reads the paths that remain; `reversed` holds those known, last one first. -/
def readPathsAfter (reversed : List String) (cursor : Cursor) :
    Except MappingError (List String) :=
  if cursor.rest = [] then .ok reversed.reverse
  else
    match _h : readPath cursor with
    | .error e => .error e
    | .ok (path, next) => readPathsAfter (path :: reversed) next
termination_by cursor.rest.length
decreasing_by exact readPath_shortens ‹_›

/-- Reads paths up to the end. -/
def readPaths (cursor : Cursor) : Except MappingError (List String) := readPathsAfter [] cursor

/-- Reads the path data of a table, of which the lengths as they are and compressed are known.
`inflate` gives the text of a stream if it has the length given. -/
def readPathData (inflate : Nat → Bytes → Option Bytes) (length compressedLength : Nat) :
    Reader Bytes := do
  if compressedLength = 0 then take length
  else
    match inflate length (← take compressedLength) with
    | some data => return data
    | none => fail .notInflatable

/-- Reads the number of paths of a table and its path data, given a way to inflate streams. -/
def readTable (inflate : Nat → Bytes → Option Bytes) : Reader (UInt64 × Bytes) := do
  let count ← uleb
  let length ← uleb
  let compressedLength ← uleb
  let data ← readPathData inflate length.toNat compressedLength.toNat
  finish .afterTable
  return (count, data)

/-- Reads a table, given a way to inflate streams. -/
def readFilenamesWith (inflate : Nat → Bytes → Option Bytes) (blob : Bytes) :
    Except MappingError (List String) := do
  let ((count, data), _) ← (readTable inflate).run (start blob)
  let files ← readPaths (start data)
  if files.length ≠ count.toNat then throw (.malformed 0 .filenameCount)
  return files

/-- The paths of an encoded table. -/
def readFilenames (blob : Bytes) : Except MappingError (List String) :=
  readFilenamesWith Zlib.decompress? blob

end SourceCoverage
