import SourceCoverage.Zlib.Bits

/-!
# Canonical Prefix Codes

A prefix code for the symbols `0, 1, …` is given by the list of its code word lengths, in which
zero stands for a symbol that has no code word. The code words follow from the lengths: in order
of length, and of symbol among equal lengths, each takes the next free stretch of the code space.
The space is measured in words of the greatest length, so that a word of length `l` takes
`2 ^ (15 - l)` of its `2 ^ 15` places, and the word is the leading `l` bits of the first place.

Bits are decoded by walking a tree that has the symbols at its leaves.

## Main results

* `PrefixCode.decode_shortens` — decoding a symbol takes at least one bit.
-/

namespace SourceCoverage.PrefixCode

/-- The greatest length of a code word. -/
def maxLength : Nat := 15

/-- The places of the code space that a word of the given length takes. -/
def places (length : Nat) : Nat := 1 <<< (maxLength - length)

/-- The used symbols of a code with their lengths, in the order of their code words: length by
length, and symbol by symbol. -/
def usedSymbols (lengths : List Nat) : List (Nat × Nat) :=
  (List.range' 1 maxLength).flatMap fun length => lengths.zipIdx.filter (·.1 = length)

/-- The code words of the used symbols, the first one at place `start`. -/
def assign (start : Nat) : List (Nat × Nat) → List (Nat × Bits)
  | [] => []
  | (length, symbol) :: rest =>
    (symbol, (Bits.ofNat length (start / places length)).reverse)
      :: assign (start + places length) rest

/-- The code words of a code, each with its symbol. -/
def codeWords (lengths : List Nat) : List (Nat × Bits) := assign 0 (usedSymbols lengths)

/-- Whether the code words fill the code space. -/
def isComplete (lengths : List Nat) : Bool :=
  (usedSymbols lengths).foldl (fun total (length, _) => total + places length) 0 == places 0

/-- Whether the lengths are those of a usable code: a complete one, one without code words, or one
whose only code word is a single bit. -/
def isUsable (lengths : List Nat) : Bool :=
  isComplete lengths || (usedSymbols lengths).all (·.1 = 1) && (usedSymbols lengths).length ≤ 1

/-- What the bits of a code word lead to. -/
inductive Tree where
  /-- Nothing: no code word starts this way. -/
  | unused
  | leaf (symbol : Nat)
  | node (zero one : Tree)

namespace Tree

/-- The tree with one more code word. -/
def insert (symbol : Nat) : Bits → Tree → Tree
  | [], _ => leaf symbol
  | false :: bits, node zero one => node (insert symbol bits zero) one
  | true :: bits, node zero one => node zero (insert symbol bits one)
  | false :: bits, _ => node (insert symbol bits unused) unused
  | true :: bits, _ => node unused (insert symbol bits unused)

/-- Walks down to the symbol that the bits lead to. -/
def walk : Tree → Bits → Option (Nat × Bits)
  | unused, _ => none
  | leaf symbol, bits => some (symbol, bits)
  | node _ _, [] => none
  | node zero one, b :: bits => if b then one.walk bits else zero.walk bits

theorem walk_length_le {tree : Tree} {symbol : Nat} {bits rest : Bits}
    (h : tree.walk bits = some (symbol, rest)) : rest.length ≤ bits.length := by
  induction tree generalizing bits with
  | unused => simp [walk] at h
  | leaf => simp_all [walk]
  | node zero one ihZero ihOne =>
    cases bits with
    | nil => simp [walk] at h
    | cons b bits =>
      cases b
      · have := ihZero (by simpa [walk] using h)
        simp only [List.length_cons]
        omega
      · have := ihOne (by simpa [walk] using h)
        simp only [List.length_cons]
        omega

end Tree

/-- The tree of a code. -/
def tree (lengths : List Nat) : Tree :=
  (codeWords lengths).foldl (fun tree (symbol, word) => tree.insert symbol word) .unused

/-- Decodes the symbol that the bits start with. -/
def decode : Tree → Bits → Option (Nat × Bits)
  | .node zero one, b :: bits => if b then one.walk bits else zero.walk bits
  | _, _ => none

/-- Decoding a symbol takes at least one bit. -/
theorem decode_shortens {tree : Tree} {symbol : Nat} {bits rest : Bits}
    (h : decode tree bits = some (symbol, rest)) : rest.length < bits.length := by
  unfold decode at h
  split at h
  · rename_i zero one b bits
    simp only [List.length_cons]
    split at h
    all_goals
      have := Tree.walk_length_le h
      omega
  · simp at h

/-- The code word of a symbol; nothing if it has none. -/
def wordOf (words : List (Nat × Bits)) (symbol : Nat) : Bits :=
  (words.lookup symbol).getD []

end SourceCoverage.PrefixCode
