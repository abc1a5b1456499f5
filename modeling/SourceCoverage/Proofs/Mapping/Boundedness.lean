import SourceCoverage.Proofs.Mapping.References
import SourceCoverage.Proofs.Mapping.Simulation

/-!
# The Decoding of Hostile Bytes

The bytes of a mapping can come from anywhere, and the counts in them may claim any number of files,
expressions and regions that a 64-bit word can tell. The decoder believes none of them: whatever is
counted has to be read from bytes of its own, and the bytes run out. The guarded machine simulates
the readers part by part. So it decodes as they do, without a fault; its work is bounded by the
number of bytes alone; and what it gives is no larger than the bytes.

The number of files is the one count that the machine narrows, to the 32 bits of a file's number.
Below 2 ^ 32 bytes no more files than that can have been listed when it does.

## Main results

* `expressionTable`: the table as it stands while expressions and mentions are still read.
* `Mapping.simulates_read`: the machine decodes as the reader does.
* `Mapping.decode_bounded`: what that means for the decoder.
-/

namespace SourceCoverage

/-! ### The table of expressions -/

/-- The table of `count` expressions of which some have their operands and some their operators
already: the operands of the first ones, and what is claimed for their operators so far. -/
def expressionTable (count : Nat) (operands : List (Counter × Counter)) (mentions : List Mention) :
    Array Expression :=
  Array.ofFn fun index : Fin count =>
    let (lhs, rhs) := operands[index.val]?.getD (.zero, .zero)
    ⟨operatorOf mentions index.val, lhs, rhs⟩

section Table

variable {count : Nat} {operands : List (Counter × Counter)} {mentions : List Mention}

@[simp] theorem size_expressionTable : (expressionTable count operands mentions).size = count :=
  Array.size_ofFn

/-- A table that is allocated holds nothing yet. -/
theorem replicate_eq_expressionTable :
    Array.replicate count ⟨.subtract, .zero, .zero⟩ = expressionTable count [] [] := by
  refine Array.ext (by simp) fun index _ _ => ?_
  simp [expressionTable, operatorOf]

/-- A further mention settles the operator of an expression. -/
theorem modify_operator_expressionTable {id : Nat} (hid : id < UInt32.size) (operator : Operator) :
    (expressionTable count operands mentions).modify id ({ · with operator })
      = expressionTable count operands (mentions ++ [⟨UInt32.ofNat id, operator⟩]) := by
  have hnumber : (UInt32.ofNat id).toNat = id := UInt32.toNat_ofNat_of_lt' hid
  refine Array.ext (by simp) fun index _ _ => ?_
  simp only [expressionTable, Array.getElem_modify, Array.getElem_ofFn,
    operatorOf_append_singleton, hnumber]
  split <;> rfl

/-- The operands of a further expression. -/
theorem modify_operands_expressionTable (lhs rhs : Counter) :
    ((expressionTable count operands mentions).modify operands.length ({ · with lhs })).modify
      operands.length ({ · with rhs })
        = expressionTable count (operands ++ [(lhs, rhs)]) mentions := by
  refine Array.ext (by simp) fun index _ _ => ?_
  simp only [expressionTable, Array.getElem_modify, Array.getElem_ofFn]
  split
  · next heq =>
      subst heq
      simp
  · next hne =>
      have hsame : (operands ++ [(lhs, rhs)])[index]? = operands[index]? := by
        rcases Nat.lt_or_ge index operands.length with hlt | hge
        · exact List.getElem?_append_left hlt
        · rw [List.getElem?_eq_none hge, List.getElem?_eq_none (by simp; omega)]
      rw [hsame]

/-- **The table when all is read** holds the expressions of the mapping. -/
theorem toList_expressionTable {reads : List ((Counter × Counter) × List Mention)}
    (h : reads.length = count) : (expressionTable count (reads.map (·.1)) mentions).toList
      = reads.zipWith (fun ((lhs, rhs), _) operator => ⟨operator, lhs, rhs⟩)
        (operatorTable count mentions).toList := by
  refine List.ext_getElem (by simp [h]) fun index hindex _ => ?_
  rw [Array.length_toList, size_expressionTable] at hindex
  have hoperator : (operatorTable count mentions)[index]? = some (operatorOf mentions index) := by
    rw [getElem?_operatorTable, if_pos hindex]
  obtain ⟨_, hoperator⟩ := Array.getElem?_eq_some_iff.1 hoperator
  simp only [expressionTable, Array.getElem_toList, Array.getElem_ofFn, List.getElem_zipWith,
    hoperator]
  rw [List.getElem?_map, List.getElem?_eq_getElem (h.symm ▸ hindex)]
  rfl

end Table

/-! ### The parts of a mapping -/

/-- The machine gives the same as the reader, and its table has the operators that were mentioned
meanwhile. -/
def Noted {α : Type} (count : Nat) (operands : List (Counter × Counter)) (mentions : List Mention)
    (read : α × List Mention) (a : α) (table : Array Expression) : Prop :=
  read.1 = a ∧ table = expressionTable count operands (mentions ++ read.2)

section Parts

variable {bytes : Bytes} {n count : Nat} {ops : List (Counter × Counter)}
  {mentions : List Mention}

/-- The counter that a value stands for. -/
theorem Counter.simulates_ofWord (value : UInt64) :
    Simulates bytes n (expressionTable count ops mentions) (Counter.ofWord count value)
      (Machine.counterOf value) (Noted count ops mentions) n := by
  refine .getTable ?_
  rw [size_expressionTable]
  refine .ite (fun _ => .refuse) fun hwide => ?_
  refine .ite (fun _ => .pure ⟨rfl, by rw [List.append_nil]⟩ (Nat.le_refl _)) fun _ => ?_
  refine .ite (fun _ => .pure ⟨rfl, by rw [List.append_nil]⟩ (Nat.le_refl _)) fun _ => ?_
  refine .ite (fun _ => .refuse) fun hknown => ?_
  refine .update (by rw [size_expressionTable]; exact Nat.lt_of_not_le hknown) ?_
  rw [modify_operator_expressionTable (Nat.lt_of_not_le hwide)]
  exact .pure ⟨rfl, rfl⟩ (Nat.le_refl _)

/-- A counter behind its value. -/
theorem Counter.simulates_read (hlength : bytes.length < 2 ^ 64) :
    Simulates bytes n (expressionTable count ops mentions) (Counter.read count)
      (Machine.counter bytes) (Noted count ops mentions) (n + 1) := by
  refine (Simulates.uleb hlength).bind ?_
  rintro value _ _ ⟨rfl, rfl⟩
  exact simulates_ofWord value

/-- Two counters, the second of which finds what the first one has noted. -/
theorem Counter.simulates_read_read (hlength : bytes.length < 2 ^ 64) {α β : Type}
    {next : Counter × List Mention → Counter × List Mention → Reader α}
    {next' : Counter → Counter → Machine β} {goes : α → β → Array Expression → Prop} {k : Nat}
    (h : ∀ first second : Counter × List Mention, Simulates bytes (n + 2)
      (expressionTable count ops (mentions ++ (first.2 ++ second.2)))
      (next first second) (next' first.1 second.1) goes k) :
    Simulates bytes n (expressionTable count ops mentions)
      (Counter.read count >>= fun first => Counter.read count >>= next first)
      (Machine.counter bytes >>= fun first => Machine.counter bytes >>= next' first) goes k := by
  refine (simulates_read hlength).bind ?_
  rintro first _ _ ⟨rfl, rfl⟩
  refine (simulates_read hlength).bind ?_
  rintro second _ _ ⟨rfl, rfl⟩
  rw [List.append_assoc]
  exact h first second

/-- The operands of an expression. -/
theorem Expression.simulates_read (hlength : bytes.length < 2 ^ 64) :
    Simulates bytes n (expressionTable count ops mentions) (Expression.read count)
      (Machine.expression bytes) (Noted count ops mentions) (n + 2) :=
  Counter.simulates_read_read hlength fun _ _ => .pure ⟨rfl, rfl⟩ (Nat.le_refl _)

/-- The operands of the expressions that remain. Induction on their number: each of them has its
place in the table. -/
theorem simulates_operands (hlength : bytes.length < 2 ^ 64) (remaining : Nat)
    (hcount : ops.length + remaining = count) :
    Simulates bytes 1 (expressionTable count ops mentions)
      (Cursor.repeatedly (Expression.read count) remaining)
      (Machine.operands bytes remaining ops.length)
      (fun reads _ table => reads.length = remaining ∧ table = expressionTable count
        (ops ++ reads.map (·.1)) (mentions ++ reads.flatMap (·.2))) 1 := by
  induction remaining generalizing ops mentions with
  | zero => exact .pure ⟨rfl, by simp⟩ (Nat.le_refl _)
  | succ remaining ih =>
      have hone : Simulates bytes 0 (expressionTable count ops mentions) (Expression.read count)
          (Machine.expression bytes) (Noted count ops mentions) 1 :=
        (Expression.simulates_read hlength).leave (by decide)
      refine (hone.bind ?_).spend (Nat.le_refl 1)
      rintro ⟨⟨lhs, rhs⟩, mentioned⟩ _ _ ⟨rfl, rfl⟩
      have hindex : ops.length < count := by omega
      refine .update (by simpa using hindex) (.update (by simpa using hindex) ?_)
      rw [modify_operands_expressionTable, ← bind_pure (Machine.operands bytes remaining _)]
      have hrest := @ih (ops ++ [(lhs, rhs)]) (mentions ++ mentioned)
        (by rw [List.length_append, List.length_singleton]; omega)
      rw [List.length_append, List.length_singleton] at hrest
      refine hrest.bind ?_
      rintro others _ _ ⟨rfl, rfl⟩
      refine .pure ⟨rfl, ?_⟩ (Nat.le_refl _)
      rw [List.map_cons, List.flatMap_cons, List.append_assoc, List.append_assoc]
      rfl

/-- The header of a region. -/
theorem RegionKind.simulates_read (hlength : bytes.length < 2 ^ 64) :
    Simulates bytes n (expressionTable count ops mentions) (RegionKind.read count)
      (Machine.regionKind bytes) (Noted count ops mentions) (n + 1) := by
  refine (Simulates.uleb hlength).bind ?_
  rintro header _ _ ⟨rfl, rfl⟩
  refine .ite (fun _ => ?_) fun _ => .ite (fun _ => ?_) fun _ => ?_
  · refine (Counter.simulates_ofWord header).bind ?_
    rintro read _ _ ⟨rfl, rfl⟩
    exact .pure ⟨rfl, rfl⟩ (Nat.le_refl _)
  · exact .ite (fun _ => .refuse_bind) fun _ =>
      .pure ⟨rfl, by rw [List.append_nil]⟩ (Nat.le_refl _)
  · generalize header.toNat / 8 = shape
    match shape with
    | 0 => exact .pure ⟨rfl, by rw [List.append_nil]⟩ (Nat.le_refl _)
    | 2 => exact .pure ⟨rfl, by rw [List.append_nil]⟩ (Nat.le_refl _)
    | 4 => exact Counter.simulates_read_read hlength fun whenTrue whenFalse =>
        .pure ⟨rfl, rfl⟩ (by omega)
    | 1 => exact .refuse
    | 3 => exact .refuse
    | _ + 5 => exact .refuse

/-- A sum of lines. -/
theorem simulates_addLines {α β : Type} {table : Array Expression} {lines others : UInt32}
    {next : Unit → Reader α} {next' : UInt32 → Machine β} {goes : α → β → Array Expression → Prop}
    {k : Nat} (h : Simulates bytes n table (next ()) (next' (lines + others)) goes k) :
    Simulates bytes n table
      (if UInt32.size ≤ lines.toNat + others.toNat then Cursor.fail .lineOverflow >>= next
        else next ())
      (Machine.addLines lines others >>= next') goes k := by
  rw [Machine.addLines]
  by_cases hfits : UInt32.size ≤ lines.toNat + others.toNat
  · rw [if_pos hfits, if_pos hfits]
    exact .refuse_bind
  · have hsum : UInt32.ofNat (lines.toNat + others.toNat) = lines + others := by
      rw [UInt32.ofNat_add, UInt32.ofNat_toNat, UInt32.ofNat_toNat]
    rw [if_neg hfits, if_neg hfits, Machine.word_bind (Nat.lt_of_not_le hfits)]
    rw [← hsum] at h
    exact h

/-- A region. -/
theorem Region.simulates_read (hlength : bytes.length < 2 ^ 64) (file previousLine : UInt32) :
    Simulates bytes n (expressionTable count ops mentions) (Region.read count file previousLine)
      (Machine.region bytes file previousLine) (Noted count ops mentions) (n + 1) := by
  refine (RegionKind.simulates_read hlength).bind ?_
  rintro kind _ _ ⟨rfl, rfl⟩
  refine (Simulates.uleb32 hlength).bind ?_
  rintro down _ _ ⟨rfl, rfl⟩
  refine (Simulates.uleb32 hlength).bind ?_
  rintro columnStart _ _ ⟨rfl, rfl⟩
  refine (Simulates.uleb32 hlength).bind ?_
  rintro height _ _ ⟨rfl, rfl⟩
  refine (Simulates.uleb32 hlength).bind ?_
  rintro columnEnd _ _ ⟨rfl, rfl⟩
  refine simulates_addLines (simulates_addLines ?_)
  exact .pure ⟨rfl, rfl⟩ (by omega)

/-- The regions of a file. Induction on their number. -/
theorem simulates_readRegions (hlength : bytes.length < 2 ^ 64) (file : UInt32) (remaining : Nat)
    (previousLine : UInt32) : Simulates bytes 1 (expressionTable count ops mentions)
      (readRegions count file remaining previousLine)
      (Machine.regions bytes file remaining previousLine) (Noted count ops mentions) 1 := by
  induction remaining generalizing previousLine mentions with
  | zero => exact .pure ⟨rfl, by rw [List.append_nil]⟩ (Nat.le_refl _)
  | succ remaining ih =>
      refine ((Region.simulates_read hlength file previousLine).bind ?_).spend (Nat.le_refl 1)
      rintro ⟨region, mentioned⟩ _ _ ⟨rfl, rfl⟩
      refine (ih region.span.lineStart).bind ?_
      rintro ⟨others, mentioned'⟩ _ _ ⟨rfl, rfl⟩
      exact .pure ⟨rfl, by rw [List.append_assoc]⟩ (Nat.le_refl _)

/-- The regions of several files. Induction on the files. -/
theorem simulates_readFiles (hlength : bytes.length < 2 ^ 64) (files : List Nat) :
    Simulates bytes 1 (expressionTable count ops mentions) (readFiles count files)
      (Machine.fileRegions bytes files) (Noted count ops mentions) 1 := by
  induction files generalizing mentions with
  | nil => exact .pure ⟨rfl, by rw [List.append_nil]⟩ (Nat.le_refl _)
  | cons file files ih =>
      refine ((Simulates.uleb hlength).bind ?_).spend (Nat.le_refl 1)
      rintro n _ _ ⟨rfl, rfl⟩
      refine (simulates_readRegions hlength (UInt32.ofNat file) n.toNat 0).bind ?_
      rintro ⟨regions, mentioned⟩ _ _ ⟨rfl, rfl⟩
      refine ih.bind ?_
      rintro ⟨others, mentioned'⟩ _ _ ⟨rfl, rfl⟩
      exact .pure ⟨rfl, by rw [List.append_assoc]⟩ (Nat.le_refl _)

end Parts

/-! ### Mappings -/

namespace Mapping

/-- **The machine decodes as the reader does.** -/
theorem simulates_read {bytes : Bytes} (hlength : bytes.length < 2 ^ 32) :
    Simulates bytes (2 * bytes.length) #[] Mapping.read (Machine.mapping bytes)
      (fun mapping mapping' _ => mapping = mapping') 0 := by
  have hwords : bytes.length < 2 ^ 64 := by omega
  have huleb32 : Reader.Takes Cursor.uleb32 fun _ n => True ∧ 1 ≤ n :=
    Reader.Takes.uleb32.mono fun _ _ hn => ⟨trivial, hn⟩
  refine (Simulates.uleb hwords).bind ?_
  rintro fileCount _ _ ⟨rfl, rfl⟩
  refine Simulates.spend (n := 1 + bytes.length) ?_ (by omega)
  refine (((Simulates.times (Simulates.uleb32 hwords) fileCount.toNat).frame
    bytes.length).and_takes (huleb32.repeatedly _)).bind ?_
  rintro files _ _ ⟨⟨rfl, rfl⟩, taken, htaken, hfiles, -, hcount⟩
  refine (Simulates.uleb hwords).bind ?_
  rintro count _ _ ⟨rfl, rfl⟩
  refine .unlessShort fun hexpressions => ?_
  refine .allocate (n := 1) ?_ (by omega)
  rw [replicate_eq_expressionTable]
  refine (simulates_operands hwords count.toNat (by simp)).bind ?_
  rintro operands _ _ ⟨hoperands, rfl⟩
  have hfits : fileCount.toNat < 2 ^ 32 := by omega
  have hmod : files.length % UInt32.size = fileCount.toNat := by
    rw [hfiles]
    exact Nat.mod_eq_of_lt hfits
  rw [Machine.word_bind hfits, hmod]
  refine (simulates_readFiles hwords _).bind ?_
  rintro ⟨regions, mentioned⟩ _ _ ⟨rfl, rfl⟩
  refine Simulates.finish.bind ?_
  rintro _ _ _ rfl
  refine .getTable (.pure ?_ (Nat.zero_le _))
  rw [List.nil_append, List.nil_append, toList_expressionTable hoperands]

/-- **Decoding is bounded.** On fewer than 2 ^ 32 bytes, whatever these claim to count, the machine
ends as the decoder does: it comes to no fault, and does no more than four units of work for each of
the bytes. What is decoded is no larger than the bytes: each of the files, expressions and regions
took some of them. The regions lie in files of the mapping and are in order, and their lines and end
columns are as they should be. -/
theorem decode_bounded {bytes : Bytes} (hlength : bytes.length < 2 ^ 32) :
    (∃ p : Progress, p.work ≤ 4 * bytes.length ∧
      Machine.mapping bytes {} = match decode bytes with
        | .ok mapping => .ok mapping p
        | .error e => .error (.refused e) p) ∧
    ∀ mapping, decode bytes = .ok mapping →
      2 + 2 * mapping.files.length + 2 * mapping.expressions.length + 5 * mapping.regions.length
        ≤ bytes.length ∧
      (∀ r ∈ mapping.regions, r.file.toNat < mapping.files.length ∧
        r.span.lineStart ≤ r.span.lineEnd ∧ r.span.columnEnd.toNat < 2 ^ 31) ∧
      mapping.regions.Pairwise fun r s =>
        r.file < s.file ∨ r.file = s.file ∧ r.span.lineStart ≤ s.span.lineStart := by
  have hsimulates := simulates_read hlength
  have hdecode : decode bytes = (read (({} : Progress).cursor bytes)).map (·.1) := rfl
  have hpotential : ({} : Progress).potential bytes = 2 * bytes.length := Nat.zero_add _
  have hstart : ({} : Progress).position ≤ bytes.length := Nat.zero_le _
  refine ⟨?_, fun mapping hdecode => ?_⟩
  · rw [hdecode]
    cases hread : read (({} : Progress).cursor bytes) with
    | ok r =>
        obtain ⟨_, p, hrun, rfl, -, -, hwork⟩ := hsimulates.ok rfl hstart hread
        rw [hpotential, Progress.potential] at hwork
        exact ⟨p, by omega, hrun⟩
    | error e =>
        obtain ⟨p, hrun, hwork⟩ := hsimulates.error rfl hstart hread
        rw [hpotential] at hwork
        exact ⟨p, by omega, hrun⟩
  · obtain ⟨hclosed, hregular, hsize⟩ := closed_of_decode hdecode
    have hfiles : mapping.files.length % UInt32.size = mapping.files.length :=
      Nat.mod_eq_of_lt (Nat.lt_of_le_of_lt (by omega) hlength)
    refine ⟨by omega, fun r hr => ⟨hclosed.file r hr, hregular.lines r hr, ?_⟩, hregular.ordered⟩
    exact UInt32.lt_iff_toNat_lt.1 (hregular.column r hr)

/-- Bytes that claim to list 2 ^ 64 - 1 files. -/
def hostileBytes : Bytes := [255, 255, 255, 255, 255, 255, 255, 255, 255, 1]

/-- Bytes of a mapping with two files, an expression, and three regions, one of them a gap. -/
def crossedBytes : Bytes :=
  [2, 0, 1, 1, 1, 5, 2, 3, 1, 1, 2, 9, 1, 1, 3, 0, 133, 128, 128, 128, 8, 1, 16, 1, 1, 0, 4]

/-- The hostile bytes are refused after little work, and the others are decoded. -/
theorem decode_bounded_hostileBytes : hostileBytes.length < 2 ^ 32 ∧
    (∃ p : Progress, p.work ≤ 40 ∧ Machine.mapping hostileBytes {}
      = .error (.refused (.malformed 10 .truncatedValue)) p) ∧
    crossedBytes.length < 2 ^ 32 ∧ ∃ mapping : Mapping, mapping.files.length = 2 ∧
      mapping.expressions.length = 1 ∧ mapping.regions.length = 3 ∧
      decode crossedBytes = .ok mapping ∧
      ∃ p : Progress, p.work ≤ 108 ∧ Machine.mapping crossedBytes {} = .ok mapping p := by
  have hlength : hostileBytes.length < 2 ^ 32 := by decide
  have hlength' : crossedBytes.length < 2 ^ 32 := by decide
  have hrefused : decode hostileBytes = .error (.malformed 10 .truncatedValue) := by rfl
  have hdecoded : decode crossedBytes = .ok ⟨[0, 1], [⟨.add, .physical 0, .physical 1⟩],
    [⟨.code (.expression 0), 0, ⟨1, 1, 3, 9⟩⟩, ⟨.gap (.physical 0), 0, ⟨2, 3, 2, 5⟩⟩,
      ⟨.skipped, 1, ⟨1, 1, 1, 4⟩⟩]⟩ := by rfl
  obtain ⟨⟨p, hwork, hrun⟩, -⟩ := decode_bounded hlength
  obtain ⟨⟨p', hwork', hrun'⟩, -⟩ := decode_bounded hlength'
  rw [hrefused] at hrun
  rw [hdecoded] at hrun'
  exact ⟨hlength, ⟨p, hwork, hrun⟩, hlength', _, rfl, rfl, rfl, hdecoded, p', hwork', hrun'⟩

end Mapping

end SourceCoverage
