import SourceCoverage.Pipeline.Lowering
import SourceCoverage.Proofs.Reading

/-!
# Reading the Table of Names Back

Each lowering adds a chunk to the table of names: the length of its names, a zero, and the names
separated by a byte 1. Nothing says how many chunks there are, and nothing stands between them. A
reader takes chunks off the front until there is nothing left, which works because a chunk tells its
own length; within a chunk the separator tells where a name ends, as long as no name contains it.

## Main results

* `readChunk?_append`: a chunk is read, and the reader stops behind it.
* `readNames?_nameTable`: a table is read as the names of its chunks.
-/

namespace SourceCoverage

/-! ### Chunks -/

/-- The chunk of some names. -/
def chunkOf (names : List String) : Bytes :=
  let joined := [nameSeparator].intercalate (names.map utf8)
  Leb128.writeNat joined.length ++ Leb128.writeNat 0 ++ joined

/-- The table of the names of several lowerings. -/
def nameTable (lowerings : List (List String)) : Bytes := lowerings.flatMap chunkOf

/-- The chunk that a lowering adds is that of the functions that it profiles. -/
theorem namesChunk_eq (profiled : List ProfiledName) :
    namesChunk profiled = chunkOf (profiled.map (·.function)) := by
  rw [namesChunk, chunkOf, List.map_map]
  rfl

/-- Further lowerings add their chunks behind the others. -/
theorem nameTable_append (lowerings others : List (List String)) :
    nameTable (lowerings ++ others) = nameTable lowerings ++ nameTable others :=
  List.flatMap_append

/-- So does a single one. -/
theorem nameTable_concat (lowerings : List (List String)) (names : List String) :
    nameTable (lowerings ++ [names]) = nameTable lowerings ++ chunkOf names := by
  rw [nameTable_append, nameTable, nameTable, List.flatMap_singleton]

/-! ### The reader -/

/-- The names of the chunk at the front, and what follows it. -/
def readChunk? (data : Bytes) : Option (List String × Bytes) := do
  let (length, n) ← Leb128.read? data
  let (compressed, k) ← Leb128.read? (data.drop n)
  let body := data.drop (n + k)
  if compressed ≠ 0 ∨ body.length < length.toNat then none
  let names ← ((body.take length.toNat).splitOn nameSeparator).mapM ofUtf8?
  return (names, body.drop length.toNat)

/-- Reading a chunk takes at least one byte. -/
theorem readChunk?_shortens {data rest : Bytes} {names : List String}
    (h : readChunk? data = some (names, rest)) : rest.length < data.length := by
  obtain ⟨⟨length, n⟩, hlength, h⟩ := Option.bind_eq_some_iff.mp h
  obtain ⟨⟨compressed, k⟩, -, h⟩ := Option.bind_eq_some_iff.mp h
  obtain ⟨⟨value, n⟩, hread, heq⟩ := Option.map_eq_some_iff.mp hlength
  obtain ⟨rfl, rfl⟩ := Prod.mk.inj heq
  have hpos := Leb128.length_pos_of_readFrom hread
  simp only at h
  split at h
  · cases h
  · obtain ⟨_, -, h⟩ := Option.bind_eq_some_iff.mp h
    obtain ⟨-, rfl⟩ := Prod.mk.inj (Option.some.inj h)
    simp only [List.length_drop]
    omega

/-- The names of all chunks, one after another. -/
def readNames? (data : Bytes) : Option (List (List String)) :=
  if data = [] then some []
  else
    match _h : readChunk? data with
    | none => none
    | some (names, rest) => (readNames? rest).map (names :: ·)
termination_by data.length
decreasing_by exact readChunk?_shortens ‹_›

/-- Behind a chunk that is read, the chunks are read on. -/
theorem readNames?_of_readChunk? {data rest : Bytes} {names : List String}
    (h : readChunk? data = some (names, rest)) :
    readNames? data = (readNames? rest).map (names :: ·) := by
  have hne : data ≠ [] := by
    rintro rfl
    cases readChunk?_shortens h
  rw [readNames?, if_neg hne]
  split
  · rename_i hnone
    cases h.symm.trans hnone
  · rename_i names' rest' hsome
    obtain ⟨rfl, rfl⟩ := Prod.mk.inj (Option.some.inj (h.symm.trans hsome))
    rfl

/-! ### Reading back -/

/-- Whether the name of a function can stand in a chunk. -/
def Separable (name : String) : Prop := nameSeparator ∉ utf8 name

/-- The bytes of a name are looked at one by one. -/
instance (name : String) : Decidable (Separable name) :=
  inferInstanceAs (Decidable (nameSeparator ∉ utf8 name))

/-- Names are read from their UTF-8 forms. -/
theorem mapM_ofUtf8?_utf8 (names : List String) : (names.map utf8).mapM ofUtf8? = some names := by
  induction names with
  | nil => rfl
  | cons name names ih => simp [ih]

/-- **A chunk is read**, and the reader stops behind it. -/
theorem readChunk?_append {names : List String} (hne : names ≠ [])
    (hnames : ∀ name ∈ names, Separable name) (hlength : (chunkOf names).length < UInt64.size)
    (rest : Bytes) : readChunk? (chunkOf names ++ rest) = some (names, rest) := by
  let joined := [nameSeparator].intercalate (names.map utf8)
  have hchunk : chunkOf names ++ rest = Leb128.writeNat joined.length
      ++ (Leb128.writeNat 0 ++ (joined ++ rest)) := by
    rw [chunkOf, List.append_assoc, List.append_assoc]
  have hjoined : joined.length < UInt64.size := by
    refine Nat.lt_of_le_of_lt ?_ hlength
    rw [chunkOf, List.length_append]
    exact Nat.le_add_left ..
  have hvalue : (UInt64.ofNat joined.length).toNat = joined.length :=
    UInt64.toNat_ofNat_of_lt hjoined
  have hsplit : joined.splitOn nameSeparator = names.map utf8 := by
    refine List.splitOn_intercalate nameSeparator ?_ (by simpa using hne)
    intro bytes hbytes
    obtain ⟨name, hname, rfl⟩ := List.mem_map.mp hbytes
    exact hnames name hname
  have hbody : (Leb128.writeNat joined.length ++ (Leb128.writeNat 0 ++ (joined ++ rest))).drop
      ((Leb128.writeNat joined.length).length + (Leb128.writeNat 0).length) = joined ++ rest := by
    rw [← List.append_assoc]
    exact List.drop_left' List.length_append
  have henough : ¬((UInt64.ofNat 0) ≠ 0 ∨ (joined ++ rest).length < joined.length) := by
    rw [List.length_append]
    simp
  rw [hchunk, readChunk?, Leb128.read?_writeNat _ hjoined]
  simp only [Option.bind_eq_bind, Option.bind_some, List.drop_left,
    Leb128.read?_writeNat _ (show 0 < UInt64.size by decide), hbody, hvalue, if_neg henough,
    List.take_left, hsplit, mapM_ofUtf8?_utf8, List.drop_left]
  rfl

/-- **A table is read as the names of its chunks.** Induction on the chunks, each of which is taken
off the front. -/
theorem readNames?_nameTable {lowerings : List (List String)}
    (hne : ∀ names ∈ lowerings, names ≠ [])
    (hnames : ∀ names ∈ lowerings, ∀ name ∈ names, Separable name)
    (hlength : (nameTable lowerings).length < UInt64.size) :
    readNames? (nameTable lowerings) = some lowerings := by
  induction lowerings with
  | nil =>
    rw [nameTable, List.flatMap_nil, readNames?]
    exact if_pos rfl
  | cons names lowerings ih =>
    obtain ⟨hfirst, hne⟩ := List.forall_mem_cons.mp hne
    obtain ⟨hseparable, hnames⟩ := List.forall_mem_cons.mp hnames
    have htable : nameTable (names :: lowerings) = chunkOf names ++ nameTable lowerings := rfl
    rw [htable, List.length_append] at hlength
    rw [htable, readNames?_of_readChunk? (readChunk?_append hfirst hseparable (by omega) _),
      ih hne hnames (by omega)]
    rfl

end SourceCoverage
