import Mathlib.Data.List.Nodup
import SourceCoverage.Proofs.Instrumentation
import SourceCoverage.Proofs.Mapping.Validity

/-!
# The Effect of an Emission

Emission can fail in one way only on a module that follows a history: the encoded filenames table
may be too long for its header to tell the length, and then the module is left alone. Otherwise
there is a record for each counter array, in module order, all of them with the mapping of the
placeholder region, and of the functions of the module nothing changes but that the entry point of
the profiling runtime is declared.

## Main results

* `CoverageOptions.fits_of_uncompressed`, `CoverageOptions.not_fits_of_uncompressed`: when the
  length of a filenames table that is not compressed can be told.
* `encode_placeholderMapping`: the mapping of the placeholder region has an encoding.
* `Action.emitRecords_spec`: the records for a list of global variables.
* `Action.emitWith_spec`, `Action.emitWith_of_not_fits`: emission on a module that follows a
  history, however it compresses.
-/

namespace SourceCoverage

/-! ### What is emitted -/

/-- A character takes up at least one byte. -/
theorem length_le_length_utf8_ofList (chars : List Char) :
    chars.length ≤ (utf8 (String.ofList chars)).length := by
  have hbytes (chars : List Char) : (utf8 (String.ofList chars)).length = chars.utf8Encode.size :=
    Array.length_toList
  induction chars with
  | nil => exact Nat.zero_le _
  | cons c chars ih =>
      have hpositive := c.utf8Size_pos
      rw [hbytes] at ih
      rw [hbytes, List.utf8Encode_cons, ByteArray.size_append, List.utf8Encode_singleton,
        List.size_toByteArray, String.length_utf8EncodeChar, List.length_cons]
      omega

namespace CoverageOptions

variable {options : CoverageOptions} {compress : Bytes → Bytes}

/-- The filenames table of an emission, encoded with a way to compress. -/
def filenames (compress : Bytes → Bytes) (options : CoverageOptions) : EncodedFilenames :=
  (FilenameTable.single options.sourceFile).encodeWith compress options.compressFilenames

/-- Whether the header can tell the length of the encoded filenames table. -/
def Fits (compress : Bytes → Bytes) (options : CoverageOptions) : Prop :=
  (options.filenames compress).blob.length < UInt32.size

/-- Lengths are compared by looking. -/
instance (options : CoverageOptions) : Decidable (options.Fits compress) :=
  inferInstanceAs (Decidable ((options.filenames compress).blob.length < UInt32.size))

/-- A table that is not compressed takes up no more than a few bytes besides its path. -/
theorem length_blob_of_uncompressed (hplain : options.compressFilenames = false) :
    (utf8 options.sourceFile).length ≤ (options.filenames compress).blob.length ∧
      (options.filenames compress).blob.length ≤ (utf8 options.sourceFile).length + 40 := by
  let table := FilenameTable.single options.sourceFile
  have hpathData : table.pathData
      = Leb128.writeNat (utf8 options.sourceFile).length ++ utf8 options.sourceFile :=
    List.flatMap_singleton ..
  have hblob : (options.filenames compress).blob = Leb128.writeNat table.size
      ++ Leb128.writeNat table.pathData.length ++ (Leb128.writeNat 0 ++ table.pathData) := by
    rw [filenames, hplain]
    rfl
  have hsize := Leb128.length_writeNat_le table.size
  have hdata := Leb128.length_writeNat_le table.pathData.length
  have hcompressed := Leb128.length_writeNat_le 0
  have hpath := Leb128.length_writeNat_le (utf8 options.sourceFile).length
  rw [hblob]
  simp only [List.length_append]
  rw [hpathData, List.length_append] at hdata ⊢
  omega

/-- A table that is not compressed fits, unless its path has almost as many bytes as the header can
count. -/
theorem fits_of_uncompressed (hplain : options.compressFilenames = false)
    (hlength : (utf8 options.sourceFile).length + 40 < UInt32.size) : options.Fits compress :=
  Nat.lt_of_le_of_lt (length_blob_of_uncompressed hplain).2 hlength

/-- It does not fit if its path has more bytes than the header can count. -/
theorem not_fits_of_uncompressed (hplain : options.compressFilenames = false)
    (hlength : UInt32.size ≤ (utf8 options.sourceFile).length) : ¬options.Fits compress :=
  Nat.not_lt.2 (Nat.le_trans hlength (length_blob_of_uncompressed hplain).1)

/-- Options with a path that is a letter as often as is wanted, and is not compressed. -/
def repeated (count : Nat) : CoverageOptions where
  sourceFile := String.ofList (List.replicate count 'a')
  compressFilenames := false

/-- Such a table does not fit if there are more letters than the header can count. -/
theorem not_fits_repeated (compress : Bytes → Bytes) {count : Nat} (h : UInt32.size ≤ count) :
    ¬(repeated count).Fits compress := by
  have hlength := length_le_length_utf8_ofList (List.replicate count 'a')
  rw [List.length_replicate] at hlength
  exact not_fits_of_uncompressed rfl (Nat.le_trans h hlength)

/-- What the path `a.c` is compressed to, with its length in front. -/
theorem compress_pathData_short : Zlib.compress (FilenameTable.single "a.c").pathData
    = [120, 218, 99, 78, 212, 75, 6, 0, 1, 242, 0, 246] := by
  decide +kernel

/-- The table of this path fits, compressed or not. -/
theorem fits_short (atomicCounters compressFilenames : Bool) (format : ObjectFormat) :
    (CoverageOptions.mk "a.c" atomicCounters compressFilenames format).Fits Zlib.compress := by
  cases compressFilenames with
  | false =>
      have hlength : (utf8 "a.c").length + 40 < UInt32.size := by decide
      exact fits_of_uncompressed rfl hlength
  | true =>
      have hblob : ((CoverageOptions.mk "a.c" atomicCounters true format).filenames
          Zlib.compress).blob = (FilenameTable.single "a.c").blob (some (Zlib.compress _)) := rfl
      rw [Fits, hblob, compress_pathData_short]
      decide +kernel

end CoverageOptions

/-- The encoding of the mapping of the placeholder region: one file, no expressions, one region
that counts with counter 0. -/
def placeholderBytes : Bytes := [1, 0, 0, 1, 1, 1, 1, 0, 10]

/-- **The placeholder region has an encoding.** -/
theorem encode_placeholderMapping : placeholderMapping.encode = .ok placeholderBytes := by
  have hvalid : ∀ r ∈ placeholderMapping.regions, r.Representable 1 := by
    intro r hr
    obtain rfl := List.mem_singleton.1 hr
    exact Region.check_eq_ok_iff.1 rfl
  have horder : placeholderMapping.expressionOrder = .ok [] := by
    rw [Mapping.expressionOrder,
      show placeholderMapping.regionCounters = [.physical 0] from rfl, numberFrom, numberFrom]
  have hbytes : (placeholderMapping.arrange []).toBytes = placeholderBytes := by cbv
  exact Mapping.encode_eq_ok_iff.2 ⟨hvalid, [], horder, hbytes⟩

/-- What is emitted for a function, given the hash of the filenames table. -/
def emittedFor (filenamesHash : UInt64) (function : String) : EmittedRecord where
  function := function
  global := Symbol.coverageRecord function
  record :=
    { nameHash := (FunctionIdentity.mk function).nameHash
      functionHash := (FunctionIdentity.mk function).structuralHash
      filenamesHash := filenamesHash
      mapping := placeholderBytes
      mapping_length_lt := by decide }

/-- The record of a function holds its mapping. -/
theorem ofMapping_placeholderBytes (filenamesHash : UInt64) (function : String) :
    FunctionRecord.ofMapping ⟨function⟩ filenamesHash placeholderBytes
      = .ok (emittedFor filenamesHash function).record :=
  dif_pos (by decide)

/-- The record that is emitted for a function. -/
def CoverageOptions.emitted (compress : Bytes → Bytes) (options : CoverageOptions)
    (function : String) : EmittedRecord :=
  emittedFor (options.filenames compress).hash function

/-- The functions that have a counter array. -/
def Module.counted (m : Module) : List String := m.globalNames.filterMap Symbol.countersOwner?

/-- The functions that have a counter array are those whose counter array is a global variable. -/
theorem Module.mem_counted_iff {m : Module} {function : String} :
    function ∈ m.counted ↔ Symbol.counters function ∈ m.globalNames ∧ function ≠ "" := by
  rw [counted, List.mem_filterMap]
  constructor
  · rintro ⟨name, hmem, howner⟩
    obtain ⟨rfl, hne⟩ := Symbol.countersOwner?_eq_some_iff.1 howner
    exact ⟨hmem, hne⟩
  · rintro ⟨hmem, hne⟩
    exact ⟨_, hmem, Symbol.countersOwner?_eq_some_iff.2 ⟨rfl, hne⟩⟩

/-- Distinct global variables are counter arrays of distinct functions. -/
theorem Module.nodup_counted {m : Module} (h : m.globalNames.Nodup) : m.counted.Nodup := by
  refine List.Nodup.filterMap (fun name name' function hfunction hfunction' => ?_) h
  obtain ⟨rfl, -⟩ := Symbol.countersOwner?_eq_some_iff.1 (Option.mem_def.1 hfunction)
  exact (Symbol.countersOwner?_eq_some_iff.1 (Option.mem_def.1 hfunction')).1.symm

/-- A symbol of instrumentation of another kind is no counter array. -/
theorem OwnSymbol.countersOwner?_eq_none (symbol : OwnSymbol)
    (h : ∀ function, symbol ≠ .counters function) : Symbol.countersOwner? symbol.name = none := by
  refine Option.eq_none_iff_forall_ne_some.2 fun function heq => ?_
  obtain ⟨hname, -⟩ := Symbol.countersOwner?_eq_some_iff.1 heq
  exact h function (OwnSymbol.name_inj.1 hname)

/-- A variable that is no counter array leaves the functions that have one as they are. -/
theorem Module.counted_putVariable {m : Module} {v : Variable}
    (h : Symbol.countersOwner? v.name = none) : (m.putVariable v).counted = m.counted := by
  rw [counted, globalNames_putVariable, counted]
  split
  · rfl
  · rw [List.filterMap_append, List.filterMap_cons_none h, List.filterMap_nil, List.append_nil]

/-- A header is no counter array. -/
theorem Module.counted_putVariable_headerVariable {m : Module} {options : CoverageOptions}
    {header : TableHeader} {filenames : Bytes} :
    (m.putVariable (headerVariable options header filenames)).counted = m.counted :=
  counted_putVariable (OwnSymbol.countersOwner?_eq_none .coverageMapping nofun)

/-- The module with the entry point of the profiling runtime declared. -/
def Module.withRuntime (m : Module) : Module :=
  if m.hasFunction Symbol.profileRuntime then m
  else
    { m with
      functions := m.functions ++ [⟨Symbol.profileRuntime, .externalLinkage, none, false⟩] }

/-- The functions are those there were and the entry point. -/
theorem Module.mem_functionNames_withRuntime {m : Module} {name : String} :
    name ∈ m.withRuntime.functionNames ↔ name ∈ m.functionNames ∨ name = Symbol.profileRuntime := by
  rw [Module.withRuntime]
  by_cases hhas : m.hasFunction Symbol.profileRuntime
  · rw [if_pos hhas]
    constructor
    · exact .inl
    · rintro (hmem | rfl)
      · exact hmem
      · exact hasFunction_iff.1 hhas
  · rw [if_neg hhas]
    simp [Module.functionNames]

namespace Module.Follows

variable {m : Module} {history : History}

/-- The entry point is declared without a trace in the history. -/
theorem withRuntime (h : m.Follows history) : m.withRuntime.Follows history := by
  rw [Module.withRuntime]
  by_cases hhas : m.hasFunction Symbol.profileRuntime
  · rwa [if_pos hhas]
  · rw [if_neg hhas]
    exact h.append (fun hmem => hhas (hasFunction_iff.2 hmem)) .runtime

end Module.Follows

/-! ### The steps of an emission -/

namespace Action

variable {s : Session} {history : History} {compress : Bytes → Bytes}

/-- Reporting events adds to the log and to nothing else. -/
theorem reportAll_spec {ε : Type} (events : List Event) (s : Session) :
    ∃ log, reportAll (ε := ε) events s = .ok () { s with log } := by
  induction events generalizing s with
  | nil => exact ⟨s.log, rfl⟩
  | cons event events ih => exact ih (s.record event)

/-- Encoding the placeholder mapping succeeds. -/
theorem encodeMapping_spec (s : Session) :
    ∃ log, encodeMapping placeholderMapping s = .ok placeholderBytes { s with log } := by
  obtain ⟨log, hreport⟩ := reportAll_spec (ε := CoverageError) placeholderMapping.encodingEvents s
  refine ⟨log, ?_⟩
  rw [encodeMapping, bind_of_ok hreport, encode_placeholderMapping]
  rfl

/-- Encoding a filenames table succeeds, however it is compressed. -/
theorem encodeFilenames_spec {ε : Type} (compress : Bytes → Bytes) (table : FilenameTable)
    (compressing : Bool) (s : Session) :
    ∃ log, encodeFilenames (ε := ε) compress table compressing s
      = .ok (table.encodeWith compress compressing) { s with log } := by
  obtain ⟨log, hreport⟩ :=
    reportAll_spec (ε := ε) (table.encodingEventsWith compress compressing) s
  refine ⟨log, ?_⟩
  rw [encodeFilenames, bind_of_ok hreport]
  rfl

/-- Defining a variable on a module that follows a history: its name has to be that of a symbol
other than the two functions. -/
theorem defineVariable_of_follows (h : s.module.Follows history) {v : Variable}
    (symbol : OwnSymbol) (hname : v.name = symbol.name) (hincrement : symbol ≠ .incrementIntrinsic)
    (hruntime : symbol ≠ .profileRuntime)
    (hreferences : ∀ name ∈ v.value.references, s.module.hasSymbol name) :
    ∃ log, defineVariable v s = .ok () { s with module := s.module.putVariable v, log } :=
  ⟨_, defineVariable_spec (hname ▸ h.not_mem_functionNames symbol hincrement hruntime) hreferences⟩

/-- The header is defined if it can tell the length of the table. -/
theorem emitHeader_spec (h : s.module.Follows history) (options : CoverageOptions)
    {filenames : EncodedFilenames} (hfits : filenames.blob.length < UInt32.size) :
    ∃ header log, emitHeader options filenames s = .ok header { s with
      module := s.module.putVariable (headerVariable options header filenames.blob)
      log } := by
  have hlength : filenamesLength filenames.blob = .ok (UInt32.ofNat filenames.blob.length) :=
    if_pos hfits
  let header := TableHeader.ofLength (UInt32.ofNat filenames.blob.length)
  let v := headerVariable options header filenames.blob
  have hreferences : ∀ name ∈ v.value.references, s.module.hasSymbol name := by
    intro name hname
    simp [v, headerVariable, TableHeader.toConstant, Constant.references,
      Constant.referencesOfAll] at hname
  obtain ⟨log, hdefine⟩ :=
    defineVariable_of_follows h .coverageMapping (v := v) rfl (by simp) (by simp) hreferences
  refine ⟨header, log.push (.headerEmitted options.sourceFile
    (UInt32.ofNat filenames.blob.length) filenames.hash options.objectFormat.sections.mapping), ?_⟩
  rw [emitHeader, hlength, ofExcept_ok_bind, bind_of_ok hdefine]
  rfl

/-- Otherwise nothing is done. -/
theorem emitHeader_of_not_fits (options : CoverageOptions) {filenames : EncodedFilenames}
    (hfits : ¬filenames.blob.length < UInt32.size) (s : Session) :
    emitHeader options filenames s
      = .error (.mappingTooLarge Symbol.coverageMapping filenames.blob.length) s := by
  have hlength : filenamesLength filenames.blob
      = .error (.mappingTooLarge Symbol.coverageMapping filenames.blob.length) := if_neg hfits
  rw [emitHeader, hlength]
  rfl

/-- The record of a function is emitted. -/
theorem emitRecord_spec (h : s.module.Follows history) (options : CoverageOptions) (hash : UInt64)
    (function : String) :
    ∃ log, emitRecord options hash function s = .ok (emittedFor hash function) { s with
      module := s.module.putVariable
        (recordVariable options function (emittedFor hash function).record)
      log } := by
  let record := (emittedFor hash function).record
  obtain ⟨log₁, hencode⟩ := encodeMapping_spec s
  have hrecord : FunctionRecord.ofMapping ⟨function⟩ hash placeholderBytes = .ok record :=
    ofMapping_placeholderBytes hash function
  have hfollows : ({ s with log := log₁ } : Session).module.Follows history := h
  obtain ⟨log₂, hdefine⟩ := defineVariable_of_follows hfollows (.coverageRecord function)
    (v := recordVariable options function record) rfl nofun nofun nofun
  refine ⟨log₂.push (.recordEmitted function record.nameHash record.functionHash
    record.mappingLength), ?_⟩
  rw [emitRecord, bind_of_ok hencode, hrecord, ofExcept_ok_bind, bind_of_ok hdefine]
  rfl

/-- **The records for a list of global variables.** -/
theorem emitRecords_spec (h : s.module.Follows history) (options : CoverageOptions) (hash : UInt64)
    (globals : List String) : ∃ skipped s', emitRecords options hash globals s
        = .ok ((globals.filterMap Symbol.countersOwner?).map (emittedFor hash), skipped) s' ∧
      s'.module.Follows history ∧ s'.module.functions = s.module.functions := by
  induction globals generalizing s with
  | nil => exact ⟨[], s, rfl, h, rfl⟩
  | cons global globals ih =>
      cases howner : Symbol.countersOwner? global with
      | none =>
          obtain ⟨skipped, s', hrest, hfollows, hfunctions⟩ :=
            @ih (s.record (.notCounters global)) h
          refine ⟨global :: skipped, s', ?_, hfollows, hfunctions⟩
          rw [List.filterMap_cons_none howner, emitRecords]
          simp only [howner]
          have hreport : report (ε := CoverageError) (.notCounters global) s
              = .ok () (s.record (.notCounters global)) := rfl
          rw [bind_of_ok hreport, bind_of_ok hrest]
          rfl
      | some function =>
          obtain ⟨log, hone⟩ := emitRecord_spec h options hash function
          let v := recordVariable options function (emittedFor hash function).record
          have hput : (s.module.putVariable v).Follows history :=
            h.putVariable (.coverageRecord function) ⟨_, _, rfl⟩ nofun
          obtain ⟨skipped, s', hrest, hfollows, hfunctions⟩ :=
            @ih { s with module := s.module.putVariable v, log } hput
          refine ⟨skipped, s', ?_, hfollows, ?_⟩
          · rw [List.filterMap_cons_some howner, emitRecords]
            simp only [howner]
            rw [bind_of_ok hone, bind_of_ok hrest]
            rfl
          · rw [hfunctions, Module.functions_putVariable]

/-- The profiling runtime is referred to. -/
theorem referToRuntime_spec (h : s.module.Follows history) :
    ∃ s', referToRuntime s = .ok () s' ∧ s'.module.Follows history ∧
      s'.module.functions = s.module.withRuntime.functions := by
  have hglobal : Symbol.profileRuntime ∉ s.module.globalNames :=
    h.not_mem_globalNames .profileRuntime fun _ => id
  have hdeclare : s.module.declareFunction Symbol.profileRuntime = .ok s.module.withRuntime :=
    Module.declareFunction_eq_ok_iff.2 ⟨hglobal, rfl⟩
  let s₁ : Session := { s with module := s.module.withRuntime }
  have hattempt : attempt (·.declareFunction Symbol.profileRuntime) s = .ok () s₁ := by
    rw [attempt, hdeclare]
  have hfollows : s₁.module.Follows history := h.withRuntime
  have hruntime : Symbol.profileRuntime ∈ s₁.module.functionNames :=
    Module.mem_functionNames_withRuntime.2 (.inr rfl)
  have hreferences : ∀ name ∈ runtimeUserVariable.value.references, s₁.module.hasSymbol name := by
    intro name hname
    obtain rfl := List.mem_singleton.1 hname
    exact Module.hasSymbol_iff.2 (.inr hruntime)
  obtain ⟨log, hdefine⟩ :=
    defineVariable_of_follows hfollows .profileRuntimeUser rfl (by simp) (by simp) hreferences
  refine ⟨{ s₁ with module := s₁.module.putVariable runtimeUserVariable, log }, ?_,
    hfollows.putVariable .profileRuntimeUser rfl fun _ => hruntime,
    Module.functions_putVariable⟩
  rw [referToRuntime, bind_of_ok hattempt]
  exact hdefine

/-! ### The emission -/

/-- **The effect of an emission** on a module that follows a history, if the filenames table is
short enough: there is a record for each counter array. -/
theorem emitWith_spec (h : s.module.Follows history) (options : CoverageOptions)
    (hfits : options.Fits compress) : ∃ summary s', emitWith compress options s = .ok summary s' ∧
      s'.module.Follows history ∧ s'.module.functions = s.module.withRuntime.functions ∧
      summary.records = s.module.counted.map (options.emitted compress) ∧
      summary.filenamesHash = (options.filenames compress).hash := by
  let filenames := options.filenames compress
  obtain ⟨log₁, hfilenames⟩ := encodeFilenames_spec (ε := CoverageError) compress
    (.single options.sourceFile) options.compressFilenames s
  let s₁ : Session := { s with log := log₁ }
  obtain ⟨header, log₂, hheader⟩ := emitHeader_spec (s := s₁) h options hfits
  let v := headerVariable options header filenames.blob
  let s₂ : Session := { s with module := s.module.putVariable v, log := log₂ }
  replace hfilenames : encodeFilenames compress (.single options.sourceFile)
    options.compressFilenames s = .ok filenames s₁ := hfilenames
  replace hheader : emitHeader options filenames s₁ = .ok header s₂ := hheader
  have hfollows₂ : s₂.module.Follows history :=
    h.putVariable .coverageMapping ⟨options, header, filenames.blob, rfl⟩ nofun
  obtain ⟨skipped, s₃, hrecords, hfollows₃, hfunctions₃⟩ :=
    emitRecords_spec hfollows₂ options filenames.hash s₂.module.globalNames
  obtain ⟨s₄, hruntime, hfollows₄, hfunctions₄⟩ := referToRuntime_spec hfollows₃
  have hcounted : s₂.module.globalNames.filterMap Symbol.countersOwner? = s.module.counted :=
    Module.counted_putVariable_headerVariable
  rw [hcounted] at hrecords
  let records := s.module.counted.map (options.emitted compress)
  refine ⟨⟨header, filenames.blob, filenames.hash, records, skipped⟩,
    s₄.record (.coverageEmitted records.length skipped.length options.objectFormat.text),
    ?_, hfollows₄, ?_, rfl, rfl⟩
  · rw [emitWith, bind_of_ok hfilenames, bind_of_ok hheader, getModule_bind, bind_of_ok hrecords]
    dsimp only
    rw [bind_of_ok hruntime]
    rfl
  · have hdeclares : s₃.module.withRuntime.functions = s.module.withRuntime.functions := by
      have hfunctions : s₃.module.functions = s.module.functions :=
        hfunctions₃.trans Module.functions_putVariable
      have hhas : s₃.module.hasFunction Symbol.profileRuntime
          = s.module.hasFunction Symbol.profileRuntime := by
        rw [Module.hasFunction, Module.function?, hfunctions]
        rfl
      rw [Module.withRuntime, Module.withRuntime, hhas]
      split
      · exact hfunctions
      · exact congrArg (· ++ _) hfunctions
    exact hfunctions₄.trans hdeclares

/-- Otherwise emission fails and leaves the module alone. -/
theorem emitWith_of_not_fits (options : CoverageOptions) (hfits : ¬options.Fits compress)
    (s : Session) : ∃ log, emitWith compress options s = .error
      (.mappingTooLarge Symbol.coverageMapping (options.filenames compress).blob.length)
      { s with log } := by
  obtain ⟨log, hfilenames⟩ := encodeFilenames_spec (ε := CoverageError) compress
    (.single options.sourceFile) options.compressFilenames s
  refine ⟨log, ?_⟩
  rw [emitWith, bind_of_ok hfilenames]
  exact bind_of_error (emitHeader_of_not_fits options hfits _) _

end Action

end SourceCoverage
