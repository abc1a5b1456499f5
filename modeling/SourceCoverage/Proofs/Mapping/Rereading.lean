import SourceCoverage.Mapping.Decoding
import SourceCoverage.Proofs.Mapping.Reachability
import SourceCoverage.Proofs.Mapping.Sorting
import SourceCoverage.Proofs.Reading

/-!
# Written Mappings Are Read Back

A mapping that is *presentable* is read back, from its written form, as it is. Presentable are
the mappings whose regions are in order and representable, whose counters refer to expressions
that exist, and in which something refers to every expression; the last is what lets the reader
find out the operators, which are not written with the expressions but with the references.

The proof follows the written form from the counters up. Each reader gives its value together
with what it mentions, and what a written mapping mentions is true of its expressions.

## Main results

* `Mapping.decode_toBytes`: a presentable mapping is read back from its written form.
* `operatorOf_mentionsOf`: truthful mentions determine the operator of every expression mentioned.
-/

namespace SourceCoverage

open Reader

/-! ### Counters -/

/-- Whether a counter that refers to an expression refers to one of the first `count`. -/
def Counter.Within (count : Nat) (counter : Counter) : Prop :=
  ∀ id, counter = .expression id → id.toNat < count

/-- What the reader learns from a written counter: the operator of the expression it refers
to. -/
def Counter.mentions (expressions : List Expression) : Counter → List Mention
  | .expression id => (expressions[id.toNat]?).toList.map fun e => ⟨id, e.operator⟩
  | _ => []

/-- What the reader learns from written counters in a row. -/
def mentionsOf (expressions : List Expression) (counters : List Counter) : List Mention :=
  counters.flatMap (·.mentions expressions)

theorem mentionsOf_append (expressions : List Expression) (counters counters' : List Counter) :
    mentionsOf expressions (counters ++ counters')
      = mentionsOf expressions counters ++ mentionsOf expressions counters' :=
  List.flatMap_append ..

namespace Counter

variable {expressions : List Expression} {counter : Counter}

/-- The value of a counter is told by 34 bits. -/
theorem word_lt (expressions : List Expression) (counter : Counter) :
    counter.word expressions < UInt64.size := by
  have hid : counter.id.toNat < UInt32.size := counter.id.toNat_lt
  simp only [UInt64.size, UInt32.size] at hid ⊢
  cases counter with
  | zero => simp [word]
  | physical id =>
      simp only [Counter.id] at hid
      simp only [word]
      omega
  | expression id =>
      simp only [Counter.id] at hid
      simp only [word]
      split <;> omega

/-- What a value stands for, by its two tag bits and what is above them. -/
theorem ofWord_eq {count : Nat} {value : UInt64} (tag id : Nat)
    (hvalue : value.toNat = tag + 4 * id) (htag : tag < 4) (hid : id < UInt32.size) :
    ofWord count value = if tag = 0 then pure (.zero, [])
      else if tag = 1 then pure (.physical (UInt32.ofNat id), [])
      else if count ≤ id then Cursor.fail .missingExpression
      else pure (.expression (UInt32.ofNat id),
        [⟨UInt32.ofNat id, if tag = 3 then .add else .subtract⟩]) := by
  have hmod : value.toNat % 4 = tag := by omega
  have hdiv : value.toNat / 4 = id := by omega
  simp only [ofWord, hmod, hdiv]
  rw [if_neg (by omega)]

/-- The value of a counter stands for that counter. -/
theorem ofWord_word (h : counter.Within expressions.length) :
    ofWord expressions.length (UInt64.ofNat (counter.word expressions))
      = pure (counter, counter.mentions expressions) := by
  have hword : (UInt64.ofNat (counter.word expressions)).toNat = counter.word expressions :=
    UInt64.toNat_ofNat_of_lt (word_lt ..)
  cases counter with
  | zero => exact ofWord_eq 0 0 hword (by omega) (by decide)
  | physical id =>
      rw [ofWord_eq 1 _ hword (by omega) id.toNat_lt]
      simp [mentions]
  | expression id =>
      have hlt : id.toNat < expressions.length := h id rfl
      cases he : expressions[id.toNat] with
      | mk operator lhs rhs =>
          have hget : expressions[id.toNat]? = some ⟨operator, lhs, rhs⟩ := by
            rw [List.getElem?_eq_getElem hlt, he]
          cases operator with
          | subtract =>
              simp only [word, hget] at hword ⊢
              rw [ofWord_eq 2 _ hword (by omega) id.toNat_lt, if_neg (by omega),
                if_neg (by omega), if_neg (by omega)]
              simp [mentions, hget]
          | add =>
              simp only [word, hget] at hword ⊢
              rw [ofWord_eq 3 _ hword (by omega) id.toNat_lt, if_neg (by omega),
                if_neg (by omega), if_neg (by omega)]
              simp [mentions, hget]

/-- A written counter is read back. -/
theorem reads (h : counter.Within expressions.length) :
    Reads (Counter.read expressions.length) (counter.toBytes expressions)
      (counter, counter.mentions expressions) := by
  refine (Reads.uleb (word_lt expressions counter)).andThen ?_
  rw [ofWord_word h]
  exact Reads.pure _

end Counter

/-- The written operands of an expression are read back. -/
theorem Expression.reads {expressions : List Expression} {e : Expression}
    (hlhs : e.lhs.Within expressions.length) (hrhs : e.rhs.Within expressions.length) :
    Reads (Expression.read expressions.length) (e.toBytes expressions)
      ((e.lhs, e.rhs), mentionsOf expressions [e.lhs, e.rhs]) := by
  unfold Expression.read Expression.toBytes
  refine (Counter.reads hlhs).bind ?_
  refine (Counter.reads hrhs).andThen ?_
  simpa [mentionsOf] using Reads.pure _

/-! ### Regions -/

namespace RegionKind

variable {expressions : List Expression}

/-- The kind of a region as its header shows it, where a gap is code. -/
def asCode : RegionKind → RegionKind
  | gap count => code count
  | kind => kind

/-- A header that is a counter is read as code. -/
theorem reads_counter {counter : Counter} (h : counter.Within expressions.length) :
    Reads (RegionKind.read expressions.length) (counter.toBytes expressions)
      (.code counter, counter.mentions expressions) := by
  have hword : (UInt64.ofNat (counter.word expressions)).toNat = counter.word expressions :=
    UInt64.toNat_ofNat_of_lt (Counter.word_lt ..)
  refine (Reads.uleb (Counter.word_lt expressions counter)).andThen ?_
  by_cases hzero : counter.word expressions % 4 = 0
  · -- only the zero counter has no tag
    obtain rfl : counter = .zero := by
      cases counter with
      | zero => rfl
      | physical id => simp only [Counter.word] at hzero; omega
      | expression id =>
          simp only [Counter.word] at hzero
          split at hzero <;> omega
    rw [hword]
    simpa [Counter.word, Counter.mentions] using Reads.pure _
  · rw [hword, if_pos hzero, Counter.ofWord_word h]
    exact Reads.pure _

/-- A written header is read back. -/
theorem reads {kind : RegionKind} (h : ∀ c ∈ kind.counters, c.Within expressions.length) :
    Reads (RegionKind.read expressions.length) (kind.toBytes expressions)
      (kind.asCode, mentionsOf expressions kind.counters) := by
  cases kind with
  | code count =>
      simpa [mentionsOf, counters, asCode, toBytes] using
        reads_counter (h count (by simp [counters]))
  | gap count =>
      simpa [mentionsOf, counters, asCode, toBytes] using
        reads_counter (h count (by simp [counters]))
  | skipped => exact (Reads.uleb (by decide)).andThen (Reads.pure _)
  | expansion file =>
      have hfile : file.toNat < UInt32.size := file.toNat_lt
      have hlt : 4 + 8 * file.toNat < UInt64.size := by
        simp only [UInt32.size, UInt64.size] at hfile ⊢
        omega
      refine (Reads.uleb hlt).andThen ?_
      rw [UInt64.toNat_ofNat_of_lt' hlt, if_neg (by omega), if_pos (by omega),
        if_neg (by omega), show (4 + 8 * file.toNat) / 8 = file.toNat by omega,
        UInt32.ofNat_toNat]
      exact Reads.pure _
  | branch whenTrue whenFalse =>
      have hcounters : whenTrue.Within expressions.length ∧ whenFalse.Within expressions.length :=
        ⟨h whenTrue (by simp [counters]), h whenFalse (by simp [counters])⟩
      rw [toBytes, List.append_assoc]
      refine (Reads.uleb (by decide)).bind ?_
      refine (Counter.reads hcounters.1).bind ?_
      refine (Counter.reads hcounters.2).andThen ?_
      simpa [mentionsOf, counters, asCode] using Reads.pure _

end RegionKind

namespace Region

/-- Whether a region has a written form among the given expressions that tells all of it. -/
structure Presentable (expressions : List Expression) (region : Region) : Prop where
  counters : ∀ c ∈ region.kind.counters, c.Within expressions.length
  lines : region.span.lineStart ≤ region.span.lineEnd
  column : region.span.columnEnd < gapBit

variable {expressions : List Expression} {region : Region}

/-- The marker bit of a written end column tells gaps from code, and is no part of the column. -/
theorem markedColumnEnd_spec (h : region.span.columnEnd < gapBit) :
    (if gapBit ≤ region.markedColumnEnd then region.kind.asCode.asGap else region.kind.asCode)
        = region.kind ∧
      (if gapBit ≤ region.markedColumnEnd then region.markedColumnEnd - gapBit
        else region.markedColumnEnd) = region.span.columnEnd := by
  by_cases hgap : ∃ count, region.kind = .gap count
  · obtain ⟨count, hkind⟩ := hgap
    have hor : region.span.columnEnd ||| gapBit = gapBit + region.span.columnEnd := by
      have hcolumn : region.span.columnEnd.toNat < 2 ^ 31 := by
        simpa [UInt32.lt_iff_toNat_lt, gapBit] using h
      apply UInt32.toNat_inj.1
      rw [UInt32.toNat_or, UInt32.toNat_add, Nat.or_comm]
      have hsum := Nat.two_pow_add_eq_or_of_lt hcolumn 1
      simp only [Nat.mul_one, Nat.reducePow] at hsum
      simp only [gapBit, UInt32.reduceToNat]
      omega
    have hmarked : region.markedColumnEnd = gapBit + region.span.columnEnd := by
      rw [markedColumnEnd, hkind]
      exact hor
    have hle : gapBit ≤ region.markedColumnEnd := by
      rw [hmarked, UInt32.le_iff_toNat_le, UInt32.toNat_add]
      have hcolumn := UInt32.lt_iff_toNat_lt.1 h
      simp only [gapBit, UInt32.reduceToNat] at hcolumn ⊢
      omega
    rw [if_pos hle, if_pos hle, hmarked, hkind]
    refine ⟨rfl, ?_⟩
    rw [UInt32.add_comm, UInt32.add_sub_cancel]
  · have hmarked : region.markedColumnEnd = region.span.columnEnd := by
      rw [markedColumnEnd]
      split
      · exact absurd ⟨_, ‹_›⟩ hgap
      · rfl
    have hcode : region.kind.asCode = region.kind := by
      cases hkind : region.kind with
      | gap count => exact absurd ⟨count, hkind⟩ hgap
      | _ => rfl
    rw [hmarked, if_neg (UInt32.not_le.2 h), if_neg (UInt32.not_le.2 h), hcode]
    exact ⟨rfl, rfl⟩

/-- A written region is read back, behind one that starts on no later line. -/
theorem reads {previousLine : UInt32} (h : region.Presentable expressions)
    (hprevious : previousLine ≤ region.span.lineStart) :
    Reads (Region.read expressions.length region.file previousLine)
      (region.toBytes expressions previousLine)
      (region, mentionsOf expressions region.kind.counters) := by
  have hstart : previousLine.toNat + (region.span.lineStart - previousLine).toNat
      = region.span.lineStart.toNat := by
    have hle := UInt32.le_iff_toNat_le.1 hprevious
    rw [UInt32.toNat_sub_of_le _ _ hprevious]
    omega
  have hend : region.span.lineStart.toNat
      + (region.span.lineEnd - region.span.lineStart).toNat = region.span.lineEnd.toNat := by
    have hle := UInt32.le_iff_toNat_le.1 h.lines
    rw [UInt32.toNat_sub_of_le _ _ h.lines]
    omega
  have hstart' : previousLine + (region.span.lineStart - previousLine)
      = region.span.lineStart := by
    rw [UInt32.add_comm, UInt32.sub_add_cancel]
  have hend' : region.span.lineStart + (region.span.lineEnd - region.span.lineStart)
      = region.span.lineEnd := by
    rw [UInt32.add_comm, UInt32.sub_add_cancel]
  have hlines : region.span.lineStart.toNat < UInt32.size ∧
      region.span.lineEnd.toNat < UInt32.size :=
    ⟨region.span.lineStart.toNat_lt, region.span.lineEnd.toNat_lt⟩
  obtain ⟨hkindBack, hcolumnBack⟩ := markedColumnEnd_spec h.column
  unfold Region.read Region.toBytes
  simp only [List.append_assoc]
  refine (RegionKind.reads h.counters).bind ?_
  refine (Reads.uleb32 _).bind ?_
  refine (Reads.uleb32 _).bind ?_
  refine (Reads.uleb32 _).bind ?_
  refine (Reads.uleb32 _).andThen ?_
  simp only [hkindBack, hcolumnBack, hstart, hend, hstart', hend']
  rw [if_neg (by omega), if_neg (by omega)]
  exact Reads.pure _

end Region

/-- Written regions of one file are read back, behind one that starts on no later line than any
of them. Induction on the regions: each takes the place of the one before it. -/
theorem reads_regions {expressions : List Expression} {file previousLine : UInt32}
    {regions : List Region} (h : ∀ r ∈ regions, r.Presentable expressions ∧ r.file = file)
    (hprevious : ∀ r ∈ regions, previousLine ≤ r.span.lineStart)
    (hordered : regions.Pairwise fun r s => r.span.lineStart ≤ s.span.lineStart) :
    Reads (readRegions expressions.length file regions.length previousLine)
      (regionsToBytes expressions previousLine regions)
      (regions, mentionsOf expressions (regions.flatMap (·.kind.counters))) := by
  induction regions generalizing previousLine with
  | nil => exact Reads.pure _
  | cons region regions ih =>
      obtain ⟨hfirst, hrest⟩ := List.pairwise_cons.1 hordered
      obtain ⟨hregion, rfl⟩ := h region (List.mem_cons_self ..)
      have hothers := ih (fun r hr => h r (List.mem_cons_of_mem _ hr)) hfirst hrest
      refine (Region.reads hregion (hprevious region (List.mem_cons_self ..))).bind ?_
      refine hothers.andThen ?_
      simpa [mentionsOf] using Reads.pure _

/-! ### Operators -/

/-- Truthful mentions determine the operator of every expression that is mentioned. -/
theorem operatorOf_mentionsOf {expressions : List Expression} {counters : List Counter}
    {id : UInt32} {e : Expression} (he : expressions[id.toNat]? = some e)
    (hmem : .expression id ∈ counters) :
    operatorOf (mentionsOf expressions counters) id.toNat = e.operator := by
  unfold operatorOf
  cases hfind : (mentionsOf expressions counters).reverse.find? (·.id.toNat = id.toNat) with
  | none =>
      have hmentioned : (⟨id, e.operator⟩ : Mention) ∈ mentionsOf expressions counters :=
        List.mem_flatMap.2 ⟨_, hmem, by simp [Counter.mentions, he]⟩
      have hall := List.find?_eq_none.1 hfind _ (List.mem_reverse.2 hmentioned)
      simp at hall
  | some mention =>
      have hid : mention.id.toNat = id.toNat := by simpa using List.find?_some hfind
      have hmention := List.mem_reverse.1 (List.mem_of_find?_eq_some hfind)
      obtain ⟨counter, -, hcounter⟩ := List.mem_flatMap.1 hmention
      cases counter with
      | zero => simp [Counter.mentions] at hcounter
      | physical _ => simp [Counter.mentions] at hcounter
      | expression id' =>
          obtain ⟨e', he', rfl⟩ := List.mem_map.1 hcounter
          obtain rfl : id' = id := UInt32.toNat_inj.1 hid
          rw [he, Option.toList_some, List.mem_singleton] at he'
          rw [he']

namespace Mapping

/-- Whether a mapping is read back from its written form: its lists are no longer than their
counts can tell, its regions are in order and each has a written form, its counters refer to
expressions that exist, and something refers to every expression. -/
structure Presentable (mapping : Mapping) : Prop where
  files_lt : mapping.files.length < UInt32.size
  regions_lt : mapping.regions.length < UInt64.size
  ordered : mapping.regions.Pairwise fun r s => r.le s = true
  region : ∀ r ∈ mapping.regions, r.Presentable mapping.expressions
  file : ∀ r ∈ mapping.regions, r.file.toNat < mapping.files.length
  operand : ∀ e ∈ mapping.expressions, ∀ c ∈ e.operands, c.Within mapping.expressions.length
  mentioned : ∀ i < mapping.expressions.length, ∃ id : UInt32, id.toNat = i ∧
    .expression id ∈ mapping.expressions.flatMap (·.operands) ++ mapping.regionCounters

variable {mapping : Mapping}

/-- The written regions of one file are read back. -/
theorem Presentable.reads_file (h : mapping.Presentable) (file : Nat) :
    Reads (do
        let n ← Cursor.uleb
        readRegions mapping.expressions.length (UInt32.ofNat file) n.toNat 0)
      (mapping.fileToBytes file)
      (mapping.regionsOf file,
        mentionsOf mapping.expressions ((mapping.regionsOf file).flatMap (·.kind.counters))) := by
  have hsub : (mapping.regionsOf file).Sublist mapping.regions := List.filter_sublist
  have hlength : (mapping.regionsOf file).length < UInt64.size :=
    Nat.lt_of_le_of_lt hsub.length_le h.regions_lt
  have hpresentable : ∀ r ∈ mapping.regionsOf file,
      r.Presentable mapping.expressions ∧ r.file = UInt32.ofNat file := by
    intro r hr
    refine ⟨h.region r (hsub.subset hr), ?_⟩
    have hkey : r.file.toNat = file := by simpa [regionsOf] using (List.mem_filter.1 hr).2
    rw [← hkey, UInt32.ofNat_toNat]
  refine (Reads.uleb hlength).bind ?_
  rw [UInt64.toNat_ofNat_of_lt' hlength]
  exact reads_regions hpresentable (fun r _ => by simp [UInt32.le_iff_toNat_le])
    (pairwise_regionsOf h.ordered file)

/-- The written regions of several files are read back. -/
theorem Presentable.reads_files (h : mapping.Presentable) (files : List Nat) :
    Reads (readFiles mapping.expressions.length files) (files.flatMap mapping.fileToBytes)
      (files.flatMap mapping.regionsOf, mentionsOf mapping.expressions
        ((files.flatMap mapping.regionsOf).flatMap (·.kind.counters))) := by
  induction files with
  | nil => exact Reads.pure _
  | cons file files ih =>
      have hboth : Reads (_ >>= fun (read : List Region × List Mention) => do
          let others ← readFiles mapping.expressions.length files
          return (read.1 ++ others.1, read.2 ++ others.2)) _ _ :=
        (h.reads_file file).bind (ih.andThen (Reads.pure _))
      simpa [readFiles, mentionsOf] using hboth

/-- The operators that are read off the mentions complete the operands to the expressions. -/
theorem Presentable.zipWith_operatorTable (h : mapping.Presentable) :
    (mapping.expressions.map fun e =>
        ((e.lhs, e.rhs), mentionsOf mapping.expressions [e.lhs, e.rhs])).zipWith
      (fun (operands : (Counter × Counter) × List Mention) operator =>
        (⟨operator, operands.1.1, operands.1.2⟩ : Expression))
      (operatorTable mapping.expressions.length (mentionsOf mapping.expressions
        (mapping.expressions.flatMap (·.operands) ++ mapping.regionCounters))).toList
      = mapping.expressions := by
  refine List.ext_getElem? fun i => ?_
  rw [List.getElem?_zipWith', List.getElem?_map, Array.getElem?_toList, getElem?_operatorTable]
  by_cases hi : i < mapping.expressions.length
  · obtain ⟨id, rfl, hmem⟩ := h.mentioned i hi
    have he := List.getElem?_eq_getElem hi
    rw [operatorOf_mentionsOf he hmem, if_pos hi, he]
    rfl
  · rw [List.getElem?_eq_none (Nat.le_of_not_lt hi)]
    rfl

/-- The operands of an expression take at least one byte each. -/
theorem length_le_length_operands (expressions table : List Expression) :
    expressions.length ≤ (expressions.flatMap (·.toBytes table)).length := by
  induction expressions with
  | nil => simp
  | cons e expressions ih =>
      have hpos : 0 < (e.lhs.toBytes table).length :=
        List.length_pos_iff.2 (Leb128.digits_ne_nil _)
      have htwo : (e.toBytes table).length
          = (e.lhs.toBytes table).length + (e.rhs.toBytes table).length := List.length_append
      rw [List.length_cons, List.flatMap_cons, List.length_append]
      omega

/-- There are no more expressions than 32-bit words. -/
theorem Presentable.length_expressions_le (h : mapping.Presentable) :
    mapping.expressions.length ≤ UInt32.size := by
  refine Nat.le_of_not_lt fun hlt => ?_
  obtain ⟨id, hid, -⟩ := h.mentioned UInt32.size hlt
  exact absurd (hid ▸ id.toNat_lt) (Nat.lt_irrefl _)

/-- **A presentable mapping is read back** from its written form as it is. -/
theorem decode_toBytes (h : mapping.Presentable) : decode mapping.toBytes = .ok mapping := by
  have hfiles : mapping.files.length < UInt64.size :=
    Nat.lt_trans h.files_lt (by decide)
  have hcount : mapping.expressions.length < UInt64.size :=
    Nat.lt_of_le_of_lt h.length_expressions_le (by decide)
  have hoperands : ∀ e ∈ mapping.expressions,
      Reads (Expression.read mapping.expressions.length) (e.toBytes mapping.expressions)
        ((e.lhs, e.rhs), mentionsOf mapping.expressions [e.lhs, e.rhs]) := fun e he =>
    Expression.reads (h.operand e he _ (by simp [Expression.operands]))
      (h.operand e he _ (by simp [Expression.operands]))
  have hread : ReadsAll read mapping.toBytes mapping := by
    unfold read toBytes
    simp only [List.append_assoc]
    refine ReadsAll.bind (Reads.uleb hfiles) ?_
    rw [UInt64.toNat_ofNat_of_lt' hfiles]
    refine ReadsAll.bind (Reads.repeatedly mapping.files fun file _ => Reads.uleb32 file) ?_
    refine ReadsAll.bind (Reads.uleb hcount) ?_
    rw [UInt64.toNat_ofNat_of_lt' hcount]
    refine ReadsAll.get fun offset => ?_
    have hlong := length_le_length_operands mapping.expressions mapping.expressions
    rw [if_neg (by rw [List.length_append]; omega)]
    refine ReadsAll.bind (Reads.repeatedly mapping.expressions hoperands) ?_
    rw [List.map_id']
    rw [Nat.mod_eq_of_lt h.files_lt]
    refine ReadsAll.andThen (h.reads_files (List.range mapping.files.length)) ?_
    refine ReadsAll.finish ?_
    rw [flatMap_regionsOf h.ordered h.file]
    have hmentions : (mapping.expressions.map fun e => ((e.lhs, e.rhs),
          mentionsOf mapping.expressions [e.lhs, e.rhs])).flatMap (·.2)
        ++ mentionsOf mapping.expressions (mapping.regions.flatMap (·.kind.counters))
        = mentionsOf mapping.expressions
          (mapping.expressions.flatMap (·.operands) ++ mapping.regionCounters) := by
      rw [mentionsOf_append]
      simp [mentionsOf, List.flatMap_map, List.flatMap_assoc, Expression.operands,
        regionCounters]
    simp only [hmentions]
    rw [h.zipWith_operatorTable]
    exact ReadsAll.pure mapping
  rw [decode, StateT.run, Cursor.start, hread 0]
  rfl

end Mapping

end SourceCoverage
