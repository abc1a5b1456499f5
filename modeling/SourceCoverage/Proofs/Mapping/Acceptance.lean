import SourceCoverage.Proofs.Mapping.Reachability
import SourceCoverage.Proofs.Mapping.Sorting
import SourceCoverage.Proofs.Mapping.Validity

/-!
# Writing into a Buffer

A mapping is written into a buffer completely or not at all. It is refused for a region that
cannot be represented, or for a reference that leads from a region out of the expression table;
what no region reaches may refer to what it likes.

Lines are written as differences, of unsigned words. None of them is negative: a region that is
not refused ends no earlier than it starts, and regions are in order. To say so, the written form
is given a second time, by functions that have no result where a difference is negative.

## Main results

* `Mapping.exists_canonical_iff`: which mappings are not refused.
* `Mapping.regionsToBytes?_arrange`: no difference of line numbers is negative.
* `Mapping.writeAll_eq`: what several writes leave in one buffer.
* `Mapping.write_spec`: a write succeeds on encodable mappings, and is all or nothing.
-/

namespace SourceCoverage

/-! ### Differences of line numbers -/

/-- The difference to an earlier line, if it is not negative. -/
def lineDifference? (line earlier : UInt32) : Option UInt32 :=
  if earlier ≤ line then some (line - earlier) else none

/-- The written form of a region, unless it has a negative difference. -/
def Region.toBytes? (expressions : List Expression) (previousLine : UInt32) (region : Region) :
    Option Bytes := do
  let line ← lineDifference? region.span.lineStart previousLine
  let lines ← lineDifference? region.span.lineEnd region.span.lineStart
  return region.kind.toBytes expressions
    ++ Leb128.writeNat line.toNat
    ++ Leb128.writeNat region.span.columnStart.toNat
    ++ Leb128.writeNat lines.toNat
    ++ Leb128.writeNat region.markedColumnEnd.toNat

/-- The written form of the regions of a file, unless it has a negative difference. -/
def regionsToBytes? (expressions : List Expression) (previousLine : UInt32) :
    List Region → Option Bytes
  | [] => some []
  | region :: rest => do
    let bytes ← region.toBytes? expressions previousLine
    let others ← regionsToBytes? expressions region.span.lineStart rest
    return bytes ++ others

/-- Behind a region that starts no later, one that ends no earlier than it starts has no negative
difference. -/
theorem Region.toBytes?_eq_some {expressions : List Expression} {previousLine : UInt32}
    {region : Region} (hprevious : previousLine ≤ region.span.lineStart)
    (hlines : region.span.lineStart ≤ region.span.lineEnd) :
    region.toBytes? expressions previousLine = some (region.toBytes expressions previousLine) := by
  rw [toBytes?, lineDifference?, if_pos hprevious, lineDifference?, if_pos hlines]
  rfl

/-- Regions in the order of their lines have no negative differences. Induction on the regions:
each takes the place of the one before it. -/
theorem regionsToBytes?_eq_some {expressions : List Expression} {previousLine : UInt32}
    {regions : List Region} (hlines : ∀ r ∈ regions, r.span.lineStart ≤ r.span.lineEnd)
    (hprevious : ∀ r ∈ regions, previousLine ≤ r.span.lineStart)
    (hordered : regions.Pairwise fun r s => r.span.lineStart ≤ s.span.lineStart) :
    regionsToBytes? expressions previousLine regions
      = some (regionsToBytes expressions previousLine regions) := by
  induction regions generalizing previousLine with
  | nil => rfl
  | cons region regions ih =>
      obtain ⟨hline, hlines⟩ := List.forall_mem_cons.1 hlines
      obtain ⟨hfirst, hrest⟩ := List.pairwise_cons.1 hordered
      have hregion : region.toBytes? expressions previousLine
          = some (region.toBytes expressions previousLine) :=
        Region.toBytes?_eq_some (hprevious region (List.mem_cons_self ..)) hline
      rw [regionsToBytes?, hregion, ih hlines hfirst hrest]
      rfl

namespace Mapping

variable {mapping : Mapping}

/-- Where all regions are representable, the canonical form has no negative differences. -/
theorem regionsToBytes?_arrange
    (hvalid : ∀ r ∈ mapping.regions, r.Representable mapping.files.length) (order : List Nat)
    (file : Nat) :
    regionsToBytes? (mapping.arrange order).expressions 0 ((mapping.arrange order).regionsOf file)
      = some (regionsToBytes (mapping.arrange order).expressions 0
          ((mapping.arrange order).regionsOf file)) := by
  refine regionsToBytes?_eq_some ?_ ?_ ?_
  · intro r hr
    obtain ⟨r, hmem, rfl⟩ := List.mem_map.1 (List.mem_filter.1 hr).1
    rcases (hvalid r (List.mem_mergeSort.1 hmem)).forward with hlt | ⟨heq, -⟩
    · exact UInt32.le_of_lt hlt
    · exact UInt32.le_of_eq heq
  · intro r _
    simp [UInt32.le_iff_toNat_le]
  · exact pairwise_regionsOf (pairwise_regions_arrange mapping order) file

/-! ### Refusals -/

/-- Whether a mapping can be encoded: all its regions are representable, and what is within their
reach stands in the expression table. -/
structure Encodable (mapping : Mapping) : Prop where
  regions : ∀ r ∈ mapping.regions, r.Representable mapping.files.length
  expressions : ∀ id, mapping.Reaches id → id.toNat < mapping.expressions.length

/-- **A mapping has a canonical form exactly if it is encodable.** -/
theorem exists_canonical_iff :
    (∃ canonical, mapping.canonical = .ok canonical) ↔ mapping.Encodable := by
  constructor
  · rintro ⟨canonical, hcanonical⟩
    obtain ⟨hvalid, order, horder, -⟩ := canonical_eq_ok_iff.1 hcanonical
    exact ⟨hvalid, exists_expressionOrder_iff.1 ⟨order, horder⟩⟩
  · rintro ⟨hvalid, hknown⟩
    obtain ⟨order, horder⟩ := exists_expressionOrder_iff.2 hknown
    exact ⟨_, canonical_eq_ok_iff.2 ⟨hvalid, order, horder, rfl⟩⟩

/-! ### The buffer -/

/-- A mapping that is refused leaves the buffer as it is. -/
theorem write_of_error {e : MappingError} (h : mapping.canonical = .error e) (buffer : Bytes) :
    mapping.write buffer = .error e buffer := by
  rw [write, h]
  rfl

/-- A mapping that is not refused is written behind what the buffer holds. -/
theorem write_of_ok {canonical : Mapping} (h : mapping.canonical = .ok canonical)
    (buffer : Bytes) : mapping.write buffer = .ok () (buffer ++ canonical.toBytes) := by
  rw [write, h]
  rfl

/-- What a write that succeeds leaves in the buffer. -/
theorem write_eq_ok_iff {buffer buffer' : Bytes} : mapping.write buffer = .ok () buffer'
    ↔ ∃ canonical, mapping.canonical = .ok canonical ∧ buffer' = buffer ++ canonical.toBytes := by
  constructor
  · intro hwrite
    cases hcanonical : mapping.canonical with
    | error e =>
        rw [write_of_error hcanonical] at hwrite
        cases hwrite
    | ok canonical =>
        rw [write_of_ok hcanonical] at hwrite
        cases hwrite
        exact ⟨canonical, rfl, rfl⟩
  · rintro ⟨canonical, hcanonical, rfl⟩
    exact write_of_ok hcanonical buffer

/-- What a write that fails leaves in the buffer. -/
theorem eq_of_write_eq_error {e : MappingError} {buffer buffer' : Bytes}
    (hwrite : mapping.write buffer = .error e buffer') : buffer' = buffer := by
  cases hcanonical : mapping.canonical with
  | error e =>
      rw [write_of_error hcanonical] at hwrite
      cases hwrite
      rfl
  | ok canonical =>
      rw [write_of_ok hcanonical] at hwrite
      cases hwrite

/-- Writes several mappings into one buffer, and passes over those that are refused. -/
def writeAll : List Mapping → EStateM MappingError Bytes Unit
  | [] => return ()
  | mapping :: mappings => fun buffer =>
    match mapping.write buffer with
    | .ok () buffer => writeAll mappings buffer
    | .error _ buffer => writeAll mappings buffer

/-- **Several writes into one buffer** leave there what it held, and behind it the encodings of the
mappings that have one. -/
theorem writeAll_eq (mappings : List Mapping) (buffer : Bytes) :
    writeAll mappings buffer
      = .ok () (buffer ++ (mappings.filterMap (·.encode.toOption)).flatten) := by
  induction mappings generalizing buffer with
  | nil =>
      rw [List.filterMap_nil, List.flatten_nil, List.append_nil]
      rfl
  | cons mapping mappings ih =>
      cases hcanonical : mapping.canonical with
      | error e =>
          have hencode : mapping.encode.toOption = none := by
            rw [encode_eq, hcanonical]
            rfl
          rw [writeAll]
          simp only [write_of_error hcanonical, ih, List.filterMap_cons, hencode]
      | ok canonical =>
          have hencode : mapping.encode.toOption = some canonical.toBytes := by
            rw [encode_eq, hcanonical]
            rfl
          rw [writeAll]
          simp only [write_of_ok hcanonical, ih, List.filterMap_cons, hencode, List.flatten_cons,
            List.append_assoc]

/-- **A write is all or nothing.** It succeeds exactly on the encodable mappings, and then appends
the encoding, in which no difference of line numbers is negative; if it fails, the buffer is as
before. Of several writes into one buffer, those that succeed leave their encodings there. -/
theorem write_spec (mapping : Mapping) (buffer : Bytes) :
    ((∃ buffer', mapping.write buffer = .ok () buffer') ↔ mapping.Encodable) ∧
    (∀ buffer', mapping.write buffer = .ok () buffer' →
      ∃ canonical bytes, mapping.canonical = .ok canonical ∧ mapping.encode = .ok bytes ∧
        buffer' = buffer ++ bytes ∧
        ∀ file, regionsToBytes? canonical.expressions 0 (canonical.regionsOf file)
          = some (regionsToBytes canonical.expressions 0 (canonical.regionsOf file))) ∧
    (∀ e buffer', mapping.write buffer = .error e buffer' → buffer' = buffer) ∧
    ∀ mappings, writeAll mappings buffer
      = .ok () (buffer ++ (mappings.filterMap (·.encode.toOption)).flatten) := by
  refine ⟨?_, ?_, fun _ _ => eq_of_write_eq_error, fun mappings => writeAll_eq mappings buffer⟩
  · rw [← exists_canonical_iff]
    constructor
    · rintro ⟨_, hwrite⟩
      obtain ⟨canonical, hcanonical, -⟩ := write_eq_ok_iff.1 hwrite
      exact ⟨canonical, hcanonical⟩
    · rintro ⟨canonical, hcanonical⟩
      exact ⟨_, write_of_ok hcanonical buffer⟩
  · intro buffer' hwrite
    obtain ⟨_, hcanonical, rfl⟩ := write_eq_ok_iff.1 hwrite
    obtain ⟨hvalid, order, -, rfl⟩ := canonical_eq_ok_iff.1 hcanonical
    refine ⟨_, _, hcanonical, ?_, rfl, regionsToBytes?_arrange hvalid order⟩
    rw [encode_eq, hcanonical]
    rfl

end Mapping

end SourceCoverage
