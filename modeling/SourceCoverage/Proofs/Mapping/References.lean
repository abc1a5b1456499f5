import SourceCoverage.Proofs.Consumption
import SourceCoverage.Proofs.Mapping.Rereading
import SourceCoverage.Proofs.Mapping.Validity

/-!
# What Decoded Mappings Refer To

The bytes of a mapping can come from anywhere, and its counters, headers and counts are checked
one by one as they are read. Together the checks see to it that a mapping that is decoded is
*closed*: a counter that refers to an expression refers to one of the table, be it that it stands
before the expression or behind it, and every region lies in a file of the mapping. They also see
to it that the regions are *regular*, in order and with lines that do not run backwards.

There is one reference that they do not follow. The file that a region expands is taken as it is
read, although the encoder refuses a mapping for it. So a decoded mapping can be refused by the
encoder for what it refers to, but for this one reason only.

## Main results

* `Mapping.takesAll_read`: what the reader of mappings makes sure of.
* `Mapping.closed_of_decode`: the same for decoded mappings.
* `Mapping.encode_of_decode`: which references the encoder can refuse a decoded mapping for.
-/

namespace SourceCoverage

open Reader

/-! ### Counters -/

/-- A counter that is read refers to one of the expressions, if it refers to one. -/
theorem Counter.takes_ofWord (count : Nat) (value : UInt64) :
    Takes (ofWord count value) fun read n => read.1.Within count ∧ n = 0 := by
  unfold ofWord
  simp only
  split
  · exact .fail
  · next hwide =>
      split
      · exact .pure ⟨nofun, rfl⟩
      · split
        · exact .pure ⟨nofun, rfl⟩
        · split
          · exact .fail
          · next hknown =>
              refine .pure ⟨fun id h => ?_, rfl⟩
              obtain rfl := Counter.expression.inj h
              rw [UInt32.toNat_ofNat_of_lt' (Nat.lt_of_not_le hwide)]
              exact Nat.lt_of_not_le hknown

/-- So does one that is read behind its value. -/
theorem Counter.takes_read (count : Nat) :
    Takes (Counter.read count) fun read n => read.1.Within count ∧ 1 ≤ n :=
  Takes.uleb.bind fun value _ hm => (takes_ofWord count value).mono fun _ _ ⟨hwithin, hn⟩ =>
    ⟨hwithin, by omega⟩

/-- The operands of an expression that is read are among the expressions. -/
theorem Expression.takes_read (count : Nat) :
    Takes (Expression.read count) fun read n =>
      (read.1.1.Within count ∧ read.1.2.Within count) ∧ 2 ≤ n := by
  refine (Counter.takes_read count).bind fun (lhs, _) m ⟨hlhs, hm⟩ => ?_
  refine (Counter.takes_read count).bind fun (rhs, _) m' ⟨hrhs, hm'⟩ => .pure ⟨⟨hlhs, hrhs⟩, ?_⟩
  omega

/-! ### Regions -/

/-- The counters of a region that is read are among the expressions. -/
theorem RegionKind.takes_read (count : Nat) :
    Takes (RegionKind.read count) fun read n =>
      (∀ c ∈ read.1.counters, c.Within count) ∧ 1 ≤ n := by
  refine Takes.uleb.bind fun header m hm => ?_
  split
  · refine (Counter.takes_ofWord count header).bind ?_
    rintro ⟨counter, _⟩ n ⟨hcounter, hn⟩
    refine .pure ⟨?_, by omega⟩
    simpa [counters] using hcounter
  · split
    · split
      · exact .fail_bind
      · exact .pure ⟨by simp [counters], hm⟩
    · split
      · refine .pure ⟨?_, hm⟩
        simp [counters, Counter.Within]
      · exact .pure ⟨by simp [counters], hm⟩
      · refine (Counter.takes_read count).bind ?_
        rintro ⟨whenTrue, _⟩ n ⟨htrue, hn⟩
        refine (Counter.takes_read count).bind ?_
        rintro ⟨whenFalse, _⟩ n' ⟨hfalse, hn'⟩
        refine .pure ⟨?_, by omega⟩
        simpa [counters] using ⟨htrue, hfalse⟩
      · exact .fail

/-- A mark for a gap changes no counters. -/
@[simp] theorem RegionKind.counters_asGap (kind : RegionKind) :
    kind.asGap.counters = kind.counters := by
  cases kind <;> rfl

namespace Region

/-- What the reader makes sure of in a region: its counters refer to one of the first `count`
expressions, it ends on no earlier line than it starts, and its end column is without the bit that
marks gaps. -/
structure Bounded (count : Nat) (region : Region) : Prop where
  counters : ∀ c ∈ region.kind.counters, c.Within count
  lines : region.span.lineStart ≤ region.span.lineEnd
  column : region.span.columnEnd < gapBit

/-- An end column is without the marker bit once that is taken off. -/
theorem unmarked_lt (columnEnd : UInt32) :
    (if gapBit ≤ columnEnd then columnEnd - gapBit else columnEnd) < gapBit := by
  split
  · next hmarked =>
      have hlt := columnEnd.toNat_lt
      rw [UInt32.lt_iff_toNat_lt, UInt32.toNat_sub_of_le _ _ hmarked]
      simp only [gapBit, UInt32.reduceToNat]
      omega
  · next hunmarked => exact UInt32.not_le.1 hunmarked

/-- A sum of lines that does not overflow is not before the first one. -/
theorem le_add_of_not_overflow {line lines : UInt32}
    (h : ¬UInt32.size ≤ line.toNat + lines.toNat) : line ≤ line + lines := by
  have hsum : (line + lines).toNat = line.toNat + lines.toNat := by
    rw [UInt32.toNat_add, Nat.mod_eq_of_lt (Nat.lt_of_not_le h)]
  rw [UInt32.le_iff_toNat_le, hsum]
  omega

/-- A region that is read starts on no earlier line than the one before it. -/
theorem takes_read (count : Nat) (file previousLine : UInt32) :
    Takes (Region.read count file previousLine) fun read n =>
      (read.1.Bounded count ∧ read.1.file = file ∧ previousLine ≤ read.1.span.lineStart) ∧
        5 ≤ n := by
  refine (RegionKind.takes_read count).bind fun (kind, _) m ⟨hkind, hm⟩ => ?_
  refine Takes.uleb32.bind fun down m₁ hm₁ => ?_
  refine Takes.uleb32.bind fun columnStart m₂ hm₂ => ?_
  refine Takes.uleb32.bind fun height m₃ hm₃ => ?_
  refine Takes.uleb32.bind fun columnEnd m₄ hm₄ => ?_
  simp only
  split
  · exact .fail_bind
  · next hstart =>
      split
      · exact .fail_bind
      · next hend =>
          refine .pure ⟨⟨⟨?_, le_add_of_not_overflow hend, unmarked_lt columnEnd⟩, rfl,
            le_add_of_not_overflow hstart⟩, by omega⟩
          intro c hc
          refine hkind c ?_
          split at hc
          · simpa using hc
          · exact hc

/-- The order in which regions are read: by file, and in a file by the line that they start on. -/
def NoLater (r s : Region) : Prop :=
  r.file < s.file ∨ r.file = s.file ∧ r.span.lineStart ≤ s.span.lineStart

end Region

/-- The regions of a file are read in the order of their lines. Induction on their number: each
starts no earlier than the one before it. -/
theorem takes_readRegions (count : Nat) (file : UInt32) (n : Nat) (previousLine : UInt32) :
    Takes (readRegions count file n previousLine) fun read taken =>
      (∀ r ∈ read.1, r.Bounded count ∧ r.file = file ∧ previousLine ≤ r.span.lineStart) ∧
        read.1.Pairwise Region.NoLater ∧ 5 * read.1.length ≤ taken := by
  induction n generalizing previousLine with
  | zero => exact .pure ⟨by simp, .nil, Nat.le_refl _⟩
  | succ n ih =>
      refine (Region.takes_read count file previousLine).bind fun (region, _) m ⟨hregion, hm⟩ => ?_
      refine (ih region.span.lineStart).bind fun (others, _) k ⟨hothers, hordered, hk⟩ => .pure ?_
      refine ⟨List.forall_mem_cons.2 ⟨hregion, fun r hr => ?_⟩,
        List.pairwise_cons.2 ⟨fun r hr => ?_, hordered⟩, ?_⟩
      · obtain ⟨hbounded, hfile, hline⟩ := hothers r hr
        exact ⟨hbounded, hfile, UInt32.le_trans hregion.2.2 hline⟩
      · obtain ⟨-, hfile, hline⟩ := hothers r hr
        exact .inr ⟨hregion.2.1.trans hfile.symm, hline⟩
      · simp only [List.length_cons] at hk ⊢
        omega

/-- The regions of several files are read file by file. -/
theorem takes_readFiles (count : Nat) {files : List Nat} (hsorted : files.Pairwise (· < ·))
    (hfiles : ∀ file ∈ files, file < UInt32.size) :
    Takes (readFiles count files) fun read taken =>
      (∀ r ∈ read.1, r.Bounded count ∧ r.file.toNat ∈ files) ∧
        read.1.Pairwise Region.NoLater ∧ files.length + 5 * read.1.length ≤ taken := by
  induction files with
  | nil => exact .pure ⟨by simp, .nil, Nat.le_refl _⟩
  | cons file files ih =>
      obtain ⟨hfirst, hsorted⟩ := List.pairwise_cons.1 hsorted
      obtain ⟨hfile, hfiles⟩ := List.forall_mem_cons.1 hfiles
      have hnumber : (UInt32.ofNat file).toNat = file := UInt32.toNat_ofNat_of_lt' hfile
      refine Takes.uleb.bind fun n m hm => ?_
      refine (takes_readRegions count (UInt32.ofNat file) n.toNat 0).bind
        fun (regions, _) k ⟨hregions, hordered, hk⟩ => ?_
      refine (ih hsorted hfiles).bind fun (others, _) l ⟨hothers, hordered', hl⟩ => .pure ?_
      refine ⟨fun r hr => ?_, List.pairwise_append.2 ⟨hordered, hordered', fun r hr s hs => ?_⟩, ?_⟩
      · rcases List.mem_append.1 hr with hr | hr
        · obtain ⟨hbounded, hregion, -⟩ := hregions r hr
          rw [hregion, hnumber]
          exact ⟨hbounded, List.mem_cons_self ..⟩
        · obtain ⟨hbounded, hmem⟩ := hothers r hr
          exact ⟨hbounded, List.mem_cons_of_mem _ hmem⟩
      · left
        rw [(hregions r hr).2.1, UInt32.lt_iff_toNat_lt, hnumber]
        exact hfirst _ (hothers s hs).2
      · simp only [List.length_append, List.length_cons] at hk hl ⊢
        omega

/-! ### Mappings -/

namespace Mapping

/-- Whether everything that the counters and regions of a mapping refer to is part of it. What
regions expand is not among the things said of them. -/
structure Closed (mapping : Mapping) : Prop where
  operand : ∀ e ∈ mapping.expressions, ∀ c ∈ e.operands, c.Within mapping.expressions.length
  counter : ∀ c ∈ mapping.regionCounters, c.Within mapping.expressions.length
  file : ∀ r ∈ mapping.regions, r.file.toNat < mapping.files.length

/-- Whether the regions of a mapping look as the reader makes them: in order of files and lines,
none with its lines in reverse, and none with a mark in its end column. -/
structure Regular (mapping : Mapping) : Prop where
  ordered : mapping.regions.Pairwise Region.NoLater
  lines : ∀ r ∈ mapping.regions, r.span.lineStart ≤ r.span.lineEnd
  column : ∀ r ∈ mapping.regions, r.span.columnEnd < gapBit

/-- With an operator for each of the operands, these become as many expressions, and have no other
operands. -/
theorem within_zipWith {count : Nat} {operands : List ((Counter × Counter) × List Mention)}
    {operators : List Operator} (hoperands : operands.length = count)
    (hoperators : operators.length = count)
    (hwithin : ∀ read ∈ operands, read.1.1.Within count ∧ read.1.2.Within count)
    {expressions : List Expression} (hexpressions : expressions
      = operands.zipWith (fun ((lhs, rhs), _) operator => ⟨operator, lhs, rhs⟩) operators) :
    expressions.length = count ∧
      ∀ e ∈ expressions, ∀ c ∈ e.operands, c.Within expressions.length := by
  have hlength : expressions.length = count := by
    rw [hexpressions, List.length_zipWith, hoperands, hoperators, Nat.min_self]
  refine ⟨hlength, fun e he c hc => ?_⟩
  rw [hlength]
  obtain ⟨i, hi, rfl⟩ := List.getElem_of_mem he
  obtain ⟨hlhs, hrhs⟩ := hwithin _ (List.getElem_mem (by omega : i < operands.length))
  simp only [hexpressions, List.getElem_zipWith, Expression.operands, List.mem_cons,
    List.not_mem_nil, or_false] at hc
  rcases hc with rfl | rfl
  · exact hlhs
  · exact hrhs

/-- **What is read, is read from all the bytes.** Everything that a mapping that is read refers to
is part of it, except for what its regions expand, and whatever it holds took bytes. -/
theorem takesAll_read : TakesAll read .afterRegions fun mapping n =>
    mapping.Closed ∧ mapping.Regular ∧
      2 + mapping.files.length + 2 * mapping.expressions.length
        + mapping.files.length % UInt32.size + 5 * mapping.regions.length ≤ n := by
  have huleb32 : Takes Cursor.uleb32 fun _ n => True ∧ 1 ≤ n :=
    Takes.uleb32.mono fun _ _ hn => ⟨trivial, hn⟩
  refine TakesAll.bind .uleb fun fileCount m hm => ?_
  refine TakesAll.bind (huleb32.repeatedly _) fun files m₁ ⟨_, _, hm₁⟩ => ?_
  refine TakesAll.bind .uleb fun count m₂ hm₂ => ?_
  refine TakesAll.unlessShort ?_
  refine TakesAll.bind ((Expression.takes_read count.toNat).repeatedly _)
    fun operands m₃ ⟨hoperandCount, hoperands, hm₃⟩ => ?_
  have hranges : ∀ file ∈ List.range (files.length % UInt32.size), file < UInt32.size :=
    fun file hfile => Nat.lt_trans (List.mem_range.1 hfile) (Nat.mod_lt _ (by decide))
  refine TakesAll.bind (takes_readFiles count.toNat List.pairwise_lt_range hranges)
    fun (regions, mentioned) m₄ ⟨hregions, hordered, hm₄⟩ => TakesAll.finish ?_
  obtain ⟨hcount, hwithin⟩ := within_zipWith hoperandCount
    ((Array.length_toList ..).trans (size_operatorTable ..)) hoperands rfl
  refine ⟨⟨hwithin, fun c hc => ?_, fun r hr => ?_⟩,
    ⟨hordered, fun r hr => (hregions r hr).1.lines, fun r hr => (hregions r hr).1.column⟩, ?_⟩
  · obtain ⟨r, hr, hc⟩ := List.mem_flatMap.1 hc
    exact hcount.symm ▸ (hregions r hr).1.counters c hc
  · exact Nat.lt_of_lt_of_le (List.mem_range.1 (hregions r hr).2) (Nat.mod_le ..)
  · change 2 + files.length + 2 * (List.zipWith _ operands _).length
      + files.length % UInt32.size + 5 * regions.length ≤ _
    simp only [List.length_range] at hm₄
    rw [hcount]
    omega

/-! ### Encoding a decoded mapping -/

variable {mapping : Mapping} {bytes : Bytes}

/-- What holds of a mapping that is read holds of one that is decoded. -/
theorem closed_of_decode (h : decode bytes = .ok mapping) : mapping.Closed ∧ mapping.Regular ∧
    2 + mapping.files.length + 2 * mapping.expressions.length
      + mapping.files.length % UInt32.size + 5 * mapping.regions.length ≤ bytes.length := by
  obtain ⟨⟨_, next⟩, hread, rfl⟩ := map_eq_ok_iff.1 h
  exact (takesAll_read (Cursor.start bytes) _ next hread).1

/-- In a closed mapping, whatever is within reach of the regions is there. -/
theorem Closed.known (h : mapping.Closed) {id : UInt32} (hid : mapping.Reaches id) :
    id.toNat < mapping.expressions.length := by
  cases hid with
  | counter hmem => exact h.counter _ hmem id rfl
  | operand _ he hmem => exact h.operand _ (List.mem_of_getElem? he) _ hmem id rfl

/-- A closed mapping is refused for a region only. -/
theorem Closed.encode_eq_error_iff (h : mapping.Closed) {e : MappingError} :
    mapping.encode = .error e ↔
      ∃ region, Region.FirstRefused mapping.files.length mapping.regions region e := by
  obtain ⟨order, horder⟩ := exists_expressionOrder_iff.2 fun id hid => h.known hid
  exact Mapping.encode_eq_error_iff horder

/-- The region that a closed mapping is refused for lies in one of its files. -/
theorem Closed.refusal (h : mapping.Closed) {e : MappingError} (he : mapping.encode = .error e) :
    ∃ before region after, mapping.regions = before ++ region :: after ∧
      (∀ r ∈ before, r.Representable mapping.files.length) ∧
      region.file.toNat < mapping.files.length ∧ region.Refusal mapping.files.length e := by
  obtain ⟨region, before, after, hregions, hbefore, hcheck⟩ := h.encode_eq_error_iff.1 he
  have hmem : region ∈ mapping.regions := hregions ▸ List.mem_append_right _ (List.mem_cons_self ..)
  exact ⟨before, region, after, hregions, hbefore, h.file region hmem,
    Region.refusal_of_check hcheck⟩

/-- **References in decoded mappings.** Every counter of a decoded mapping that refers to an
expression refers to one of the mapping, and every region lies in one of its files. So the mapping
is not refused for an expression that does not exist, nor for the file of a region. What a region
expands is not looked at when it is read: the mapping is refused for it if, of the regions that
have to be refused, the first one expands a file beyond those of the mapping. -/
theorem encode_of_decode (h : decode bytes = .ok mapping) :
    mapping.Closed ∧
    (∀ id count, mapping.encode ≠ .error (.unknownExpression id count)) ∧
    (∀ file count, mapping.encode ≠ .error (.fileOutOfRange file count)) ∧
    ∀ file count, mapping.encode = .error (.expansionOutOfRange file count) ↔
      count = mapping.files.length ∧ ∃ before region after,
        mapping.regions = before ++ region :: after ∧
        (∀ r ∈ before, r.Representable mapping.files.length) ∧
        region.kind = .expansion file ∧ mapping.files.length ≤ file.toNat := by
  have hclosed := (closed_of_decode h).1
  refine ⟨hclosed, fun id count he => ?_, fun file count he => ?_, fun file count => ⟨?_, ?_⟩⟩
  · obtain ⟨_, _, _, _, _, _, hrefusal⟩ := hclosed.refusal he
    cases hrefusal
  · obtain ⟨_, _, _, _, _, hlt, hrefusal⟩ := hclosed.refusal he
    cases hrefusal with
    | file hle => omega
  · intro he
    obtain ⟨before, region, after, hregions, hbefore, -, hrefusal⟩ := hclosed.refusal he
    cases hrefusal with
    | expansion _ hkind hle => exact ⟨rfl, before, region, after, hregions, hbefore, hkind, hle⟩
  · rintro ⟨rfl, before, region, after, hregions, hbefore, hkind, hle⟩
    have hmem : region ∈ mapping.regions :=
      hregions ▸ List.mem_append_right _ (List.mem_cons_self ..)
    refine hclosed.encode_eq_error_iff.2 ⟨region, before, after, hregions, hbefore, ?_⟩
    exact Region.check_of_expansion (hclosed.file region hmem) hkind hle

/-- A mapping of one file with a region that expands a second one. -/
def strayExpansion : Mapping where
  files := [0]
  expressions := []
  regions := [⟨.expansion 1, 0, ⟨1, 1, 1, 9⟩⟩]

/-- It is decoded, and cannot be encoded. -/
theorem encode_strayExpansion : decode [1, 0, 0, 1, 12, 1, 1, 0, 9] = .ok strayExpansion ∧
    strayExpansion.encode = .error (.expansionOutOfRange 1 1) := by
  have hdecode : decode [1, 0, 0, 1, 12, 1, 1, 0, 9] = .ok strayExpansion := by rfl
  obtain ⟨-, -, -, hexpansion⟩ := encode_of_decode hdecode
  exact ⟨hdecode, (hexpansion 1 1).2 ⟨rfl, [], _, [], rfl, by simp, rfl, by decide⟩⟩

end Mapping

end SourceCoverage
