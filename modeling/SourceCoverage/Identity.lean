import SourceCoverage.Md5

/-!
# Identities of Functions and Tables

Two hashes identify an instrumented function, and they are not interchangeable. The *function
hash* is the base-33 polynomial of the name's bytes, seeded with 5381, modulo `2 ^ 64`; it is
passed to every counter increment and written into the function's record. The *name hash* is the
low half of an MD5 digest; it keys records, and over an encoded filenames table it ties a record
to the table.

## Main results

* `functionHash_append` — the hash of a name is determined by the hash of a first part and the
  bytes that follow it.
-/

namespace SourceCoverage

/-- The state of the function hash before the first byte. -/
def functionHashSeed : UInt64 := 5381

/-- One step of the function hash: the state times 33, plus the byte, with wrap-around. -/
def functionHashStep (hash : UInt64) (b : UInt8) : UInt64 := (hash <<< 5) + hash + b.toUInt64

/-- The function hash of a name's bytes. -/
def functionHash (name : Bytes) : UInt64 := name.foldl functionHashStep functionHashSeed

/-- The low half of the MD5 digest. -/
def nameHash (bytes : Bytes) : UInt64 := (Md5.digest bytes).low

/-- The hash of a name is determined by the hash of a first part and the bytes that follow. -/
theorem functionHash_append (first rest : Bytes) :
    functionHash (first ++ rest) = rest.foldl functionHashStep (functionHash first) := by
  simp [functionHash, List.foldl_append]

/-- The identity of an instrumented function: everything else about it is derived from its
symbol name, so two identities computed at different times from one name agree. -/
structure FunctionIdentity where
  name : String
  deriving Repr, DecidableEq

namespace FunctionIdentity

/-- The hash that the function's increments carry. -/
def structuralHash (identity : FunctionIdentity) : UInt64 := functionHash (utf8 identity.name)

/-- The key of the function's record. -/
def nameHash (identity : FunctionIdentity) : UInt64 :=
  SourceCoverage.nameHash (utf8 identity.name)

end FunctionIdentity

end SourceCoverage
