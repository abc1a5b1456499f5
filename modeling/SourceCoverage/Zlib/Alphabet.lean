import SourceCoverage.Zlib.PrefixCode

/-!
# The Symbols of Compressed Blocks

A compressed block is a sequence of literal bytes and of copies, each of which repeats a stretch
of what came before. One alphabet has the bytes, an end mark and the lengths of copies, another
the distances. Lengths and distances come in classes: the symbol of a class stands for its least
member, and a fixed number of bits after the symbol picks one.
-/

namespace SourceCoverage.Zlib

/-- A range of lengths or distances that share a symbol. -/
structure SizeClass where
  least : Nat
  extraBits : Nat
  deriving Repr, DecidableEq

/-- Whether a size belongs to a class. -/
def SizeClass.contains (c : SizeClass) (size : Nat) : Bool :=
  c.least ≤ size && size < c.least + 1 <<< c.extraBits

/-- What a symbol of the first alphabet stands for. -/
inductive Item where
  | literal (b : UInt8)
  | endOfBlock
  /-- A copy whose length belongs to the class at this position. -/
  | copy (lengthClass : Nat)
  deriving Repr, DecidableEq

namespace Item

/-- The item that a symbol stands for. -/
def ofSymbol (symbol : Nat) : Item :=
  if symbol < 256 then .literal (UInt8.ofNat symbol)
  else if symbol = 256 then .endOfBlock
  else .copy (symbol - 257)

/-- The symbol of an item. -/
def symbol : Item → Nat
  | literal b => b.toNat
  | endOfBlock => 256
  | copy lengthClass => 257 + lengthClass

/-- An item is read back from its symbol. -/
theorem ofSymbol_symbol (item : Item) : ofSymbol item.symbol = item := by
  cases item with
  | literal b => simp [ofSymbol, symbol, b.toNat_lt]
  | endOfBlock => rfl
  | copy n =>
    rw [ofSymbol, symbol, if_neg (by omega), if_neg (by omega), Nat.add_sub_cancel_left]

end Item

/-- The length classes, from symbol 257 on. The greatest length has a class of its own. -/
def lengthClasses : List SizeClass :=
  [⟨3, 0⟩, ⟨4, 0⟩, ⟨5, 0⟩, ⟨6, 0⟩, ⟨7, 0⟩, ⟨8, 0⟩, ⟨9, 0⟩, ⟨10, 0⟩,
   ⟨11, 1⟩, ⟨13, 1⟩, ⟨15, 1⟩, ⟨17, 1⟩, ⟨19, 2⟩, ⟨23, 2⟩, ⟨27, 2⟩, ⟨31, 2⟩,
   ⟨35, 3⟩, ⟨43, 3⟩, ⟨51, 3⟩, ⟨59, 3⟩, ⟨67, 4⟩, ⟨83, 4⟩, ⟨99, 4⟩, ⟨115, 4⟩,
   ⟨131, 5⟩, ⟨163, 5⟩, ⟨195, 5⟩, ⟨227, 5⟩, ⟨258, 0⟩]

/-- The distance classes, from symbol 0 on. -/
def distanceClasses : List SizeClass :=
  [⟨1, 0⟩, ⟨2, 0⟩, ⟨3, 0⟩, ⟨4, 0⟩, ⟨5, 1⟩, ⟨7, 1⟩, ⟨9, 2⟩, ⟨13, 2⟩,
   ⟨17, 3⟩, ⟨25, 3⟩, ⟨33, 4⟩, ⟨49, 4⟩, ⟨65, 5⟩, ⟨97, 5⟩, ⟨129, 6⟩, ⟨193, 6⟩,
   ⟨257, 7⟩, ⟨385, 7⟩, ⟨513, 8⟩, ⟨769, 8⟩, ⟨1025, 9⟩, ⟨1537, 9⟩, ⟨2049, 10⟩, ⟨3073, 10⟩,
   ⟨4097, 11⟩, ⟨6145, 11⟩, ⟨8193, 12⟩, ⟨12289, 12⟩, ⟨16385, 13⟩, ⟨24577, 13⟩]

/-- The lengths of the fixed code words for bytes, the end mark and lengths. -/
def fixedLiteralLengths : List Nat :=
  List.replicate 144 8 ++ List.replicate 112 9 ++ List.replicate 24 7 ++ List.replicate 8 8

/-- The lengths of the fixed code words for distances. -/
def fixedDistanceLengths : List Nat := List.replicate 32 5

end SourceCoverage.Zlib
