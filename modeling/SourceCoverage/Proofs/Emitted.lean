import SourceCoverage.Proofs.Building
import SourceCoverage.Proofs.Emission
import SourceCoverage.Proofs.Filenames
import SourceCoverage.Proofs.Layout
import SourceCoverage.Proofs.Mapping.Rereading
import SourceCoverage.Proofs.Pipeline.Passage

/-!
# Emitted Coverage Data Is Read Back

An emission may fail on an arbitrary module, which may use its names for functions. Where it
succeeds, it has put the header with the filenames table and the records into the module, in this
order and each under its own name, and after them the reference to the runtime. Names tell the
variables apart, but for counter arrays that share a name: their records are the same. So each
variable is found in the end as it was put there, and what a reader makes of its image is what the
summary tells: the header, the filenames table with the source file, the records with the hash of
that table, and in each record the mapping of the placeholder region.

Compression is any way to compress and inflate that fit each other on the path data.

## Main results

* `Action.made_of_emitWith`: what an emission that succeeded has done.
* `Action.emitWith_readable`: what it wrote is read back.
-/

namespace SourceCoverage

/-! ### What is made by an emission -/

/-- The variable that holds an emitted record. -/
def EmittedRecord.toVariable (options : CoverageOptions) (r : EmittedRecord) : Variable :=
  recordVariable options r.function r.record

/-- The variables that a summary tells of: the header with the filenames table, and the records. -/
def EmissionSummary.variables (options : CoverageOptions) (summary : EmissionSummary) :
    List Variable :=
  headerVariable options summary.header summary.filenames
    :: summary.records.map (·.toVariable options)

/-- What an emission that succeeded has done: it tells of the filenames table and of a record for
each counter array, and has put them into the module before it referred to the runtime. -/
structure EmissionSummary.Made (options : CoverageOptions) (encoded : EncodedFilenames)
    (m : Module) (summary : EmissionSummary) (m' : Module) : Prop where
  fits : encoded.blob.length < UInt32.size
  header : summary.header = .ofLength (UInt32.ofNat encoded.blob.length)
  filenames : summary.filenames = encoded.blob
  filenamesHash : summary.filenamesHash = encoded.hash
  records : summary.records = m.counted.map (emittedFor encoded.hash)
  module : m' = (m.putAll (summary.variables options)).withRuntime.putVariable runtimeUserVariable

/-- The names of the global variables once the header is there. -/
def Module.namesWithHeader (m : Module) : List String :=
  if Symbol.coverageMapping ∈ m.globalNames then m.globalNames
  else m.globalNames ++ [Symbol.coverageMapping]

namespace Action

variable {s s' : Session} {options : CoverageOptions}

/-- A variable that was defined has been put into the module. -/
theorem module_of_defineVariable {v : Variable} {u : Unit} (h : defineVariable v s = .ok u s') :
    s'.module = s.module.putVariable v := by
  rw [defineVariable] at h
  cases hdefine : s.module.defineVariable v with
  | error e => simp [hdefine] at h
  | ok m =>
      rw [hdefine] at h
      obtain ⟨-, rfl⟩ := EStateM.Result.ok.inj h
      exact (Module.defineVariable_eq_ok_iff.1 hdefine).2.2

/-- A header that was emitted tells the length of the table, and is in the module with it. -/
theorem made_of_emitHeader {filenames : EncodedFilenames} {header : TableHeader}
    (h : emitHeader options filenames s = .ok header s') :
    filenames.blob.length < UInt32.size ∧
      header = .ofLength (UInt32.ofNat filenames.blob.length) ∧
      s'.module = s.module.putVariable (headerVariable options header filenames.blob) := by
  rw [emitHeader, filenamesLength] at h
  by_cases hfits : filenames.blob.length < UInt32.size
  · rw [if_pos hfits, ofExcept_ok_bind] at h
    obtain ⟨_, s₁, hdefine, h⟩ := bind_eq_ok_iff.1 h
    obtain ⟨rfl, rfl⟩ := EStateM.Result.ok.inj h
    have hmodule := module_of_defineVariable hdefine
    exact ⟨hfits, rfl, hmodule⟩
  · rw [if_neg hfits] at h
    cases h

/-- A record that was emitted is that of its function, and is in the module. -/
theorem made_of_emitRecord {hash : UInt64} {function : String} {r : EmittedRecord}
    (h : emitRecord options hash function s = .ok r s') :
    r = emittedFor hash function ∧ s'.module = s.module.putVariable (r.toVariable options) := by
  obtain ⟨log, hencode⟩ := encodeMapping_spec s
  rw [emitRecord, bind_of_ok hencode, ofMapping_placeholderBytes, ofExcept_ok_bind] at h
  obtain ⟨_, s₁, hdefine, h⟩ := bind_eq_ok_iff.1 h
  obtain ⟨rfl, rfl⟩ := EStateM.Result.ok.inj h
  have hmodule := module_of_defineVariable hdefine
  exact ⟨rfl, hmodule⟩

/-- The records that were emitted for a list of global variables are those for the counter arrays
among them, and are in the module; the others were skipped. -/
theorem made_of_emitRecords {hash : UInt64} {globals skipped : List String}
    {records : List EmittedRecord}
    (h : emitRecords options hash globals s = .ok (records, skipped) s') :
    records = (globals.filterMap Symbol.countersOwner?).map (emittedFor hash) ∧
      skipped = globals.filter (Symbol.countersOwner? · |>.isNone) ∧
      s'.module = s.module.putAll (records.map (·.toVariable options)) := by
  induction globals generalizing s records skipped with
  | nil =>
      obtain ⟨heq, rfl⟩ := EStateM.Result.ok.inj h
      obtain ⟨rfl, rfl⟩ := Prod.mk.inj heq
      exact ⟨rfl, rfl, rfl⟩
  | cons global globals ih =>
      rw [emitRecords] at h
      cases howner : Symbol.countersOwner? global with
      | none =>
          simp only [howner] at h
          obtain ⟨_, s₁, hreport, h⟩ := bind_eq_ok_iff.1 h
          obtain ⟨-, rfl⟩ := EStateM.Result.ok.inj hreport
          obtain ⟨⟨others, otherNames⟩, s₂, hothers, h⟩ := bind_eq_ok_iff.1 h
          obtain ⟨heq, rfl⟩ := EStateM.Result.ok.inj h
          obtain ⟨rfl, rfl⟩ := Prod.mk.inj heq
          obtain ⟨hrecords, hskipped, hrest⟩ := ih hothers
          have hlisted : (global :: globals).filter (Symbol.countersOwner? · |>.isNone)
              = global :: globals.filter (Symbol.countersOwner? · |>.isNone) :=
            List.filter_cons_of_pos (by rw [howner]; rfl)
          rw [List.filterMap_cons_none howner, hlisted, ← hskipped]
          exact ⟨hrecords, rfl, hrest⟩
      | some function =>
          simp only [howner] at h
          obtain ⟨r, s₁, hone, h⟩ := bind_eq_ok_iff.1 h
          obtain ⟨⟨others, otherNames⟩, s₂, hothers, h⟩ := bind_eq_ok_iff.1 h
          obtain ⟨heq, rfl⟩ := EStateM.Result.ok.inj h
          obtain ⟨rfl, rfl⟩ := Prod.mk.inj heq
          obtain ⟨hr, hmodule⟩ := made_of_emitRecord hone
          obtain ⟨hrecords, hskipped, hrest⟩ := ih hothers
          have hlisted : (global :: globals).filter (Symbol.countersOwner? · |>.isNone)
              = globals.filter (Symbol.countersOwner? · |>.isNone) :=
            List.filter_cons_of_neg (by rw [howner]; exact Bool.false_ne_true)
          rw [List.filterMap_cons_some howner, List.map_cons, ← hr, ← hrecords, hlisted]
          refine ⟨rfl, hskipped, ?_⟩
          rw [hrest, hmodule]
          rfl

/-- A reference to the runtime that was made is in the module, with the entry point declared. -/
theorem made_of_referToRuntime (h : referToRuntime s = .ok () s') :
    s'.module = s.module.withRuntime.putVariable runtimeUserVariable := by
  rw [referToRuntime] at h
  obtain ⟨_, s₁, hattempt, h⟩ := bind_eq_ok_iff.1 h
  have hdeclared : s₁.module = s.module.withRuntime := by
    rw [attempt] at hattempt
    cases hdeclare : s.module.declareFunction Symbol.profileRuntime with
    | error e => simp [hdeclare] at hattempt
    | ok m =>
        rw [hdeclare] at hattempt
        obtain ⟨-, rfl⟩ := EStateM.Result.ok.inj hattempt
        exact (Module.declareFunction_eq_ok_iff.1 hdeclare).2
  rw [module_of_defineVariable h, hdeclared]

/-- **What an emission that succeeded has done**, however it compresses, and which global variables
it has skipped: of those there are with the header, the ones that are no counter arrays. -/
theorem made_and_skipped_of_emitWith {compress : Bytes → Bytes} {summary : EmissionSummary}
    (h : emitWith compress options s = .ok summary s') :
    summary.Made options
      ((FilenameTable.single options.sourceFile).encodeWith compress options.compressFilenames)
      s.module s'.module ∧
    summary.skipped = s.module.namesWithHeader.filter (Symbol.countersOwner? · |>.isNone) := by
  let encoded :=
    (FilenameTable.single options.sourceFile).encodeWith compress options.compressFilenames
  obtain ⟨log, hencode⟩ := encodeFilenames_spec (ε := CoverageError) compress
    (.single options.sourceFile) options.compressFilenames s
  rw [emitWith, bind_of_ok hencode] at h
  obtain ⟨header, s₁, hheader, h⟩ := bind_eq_ok_iff.1 h
  obtain ⟨hfits, hlength, hmodule₁⟩ := made_of_emitHeader hheader
  rw [getModule_bind] at h
  obtain ⟨⟨records, skipped⟩, s₂, hrecords, h⟩ := bind_eq_ok_iff.1 h
  obtain ⟨hmade, hskipped, hmodule₂⟩ := made_of_emitRecords hrecords
  obtain ⟨_, s₃, hruntime, h⟩ := bind_eq_ok_iff.1 h
  have hmodule₃ := made_of_referToRuntime hruntime
  obtain ⟨rfl, rfl⟩ := EStateM.Result.ok.inj h
  replace hmodule₁ :
      s₁.module = s.module.putVariable (headerVariable options header encoded.blob) := hmodule₁
  refine ⟨⟨hfits, hlength, rfl, rfl, ?_, ?_⟩, ?_⟩
  · have hcounted : s₁.module.counted = s.module.counted := by
      rw [hmodule₁, Module.counted_putVariable_headerVariable]
    rw [hmade, ← hcounted]
    rfl
  · rw [show (Session.record s₃ _).module = s₃.module from rfl, hmodule₃, hmodule₂, hmodule₁]
    rfl
  · have hnames : s₁.module.globalNames = s.module.namesWithHeader := by
      rw [hmodule₁, Module.globalNames_putVariable]
      rfl
    rw [← hnames]
    exact hskipped

/-- What an emission that succeeded has done. -/
theorem made_of_emitWith {compress : Bytes → Bytes} {summary : EmissionSummary}
    (h : emitWith compress options s = .ok summary s') :
    summary.Made options
      ((FilenameTable.single options.sourceFile).encodeWith compress options.compressFilenames)
      s.module s'.module :=
  (made_and_skipped_of_emitWith h).1

end Action

/-! ### What is found in the module -/

/-- Declaring the entry point leaves what names are defined as. -/
theorem Module.definition?_withRuntime (m : Module) (name : String) :
    m.withRuntime.definition? name = m.definition? name := by
  rw [withRuntime]
  split <;> rfl

namespace EmissionSummary

variable {options : CoverageOptions} {encoded : EncodedFilenames} {m m' : Module}
  {summary : EmissionSummary}

/-- The header and the records, as they follow from what is emitted for. -/
theorem Made.variables_eq (h : summary.Made options encoded m m') : summary.variables options =
    headerVariable options (.ofLength (UInt32.ofNat encoded.blob.length)) encoded.blob
      :: m.counted.map fun function => (emittedFor encoded.hash function).toVariable options := by
  rw [EmissionSummary.variables, h.header, h.filenames, h.records, List.map_map]
  rfl

/-- **The global variables after an emission** are those there were, the header, the records of the
functions that have a counter array, and the reference to the runtime. -/
theorem Made.mem_globalNames_iff (h : summary.Made options encoded m m') {name : String} :
    name ∈ m'.globalNames ↔ name ∈ m.globalNames ∨ name = Symbol.coverageMapping ∨
      (∃ function ∈ m.counted, name = Symbol.coverageRecord function) ∨
      name = Symbol.profileRuntimeUser := by
  have hruntime : ∀ m : Module, m.withRuntime.globalNames = m.globalNames := fun m => by
    rw [Module.withRuntime]
    split <;> rfl
  have hvariables : (∃ v ∈ summary.variables options, v.name = name) ↔
      name = Symbol.coverageMapping ∨ ∃ function ∈ m.counted,
        name = Symbol.coverageRecord function := by
    rw [h.variables_eq, List.exists_mem_cons_iff]
    simp only [List.mem_map, exists_exists_and_eq_and]
    exact or_congr eq_comm (exists_congr fun _ => and_congr_right fun _ => eq_comm)
  rw [h.module, Module.mem_globalNames_putVariable, hruntime, Module.mem_globalNames_putAll,
    hvariables, or_assoc, or_assoc]
  rfl

/-- **The functions after an emission** are those before it, with the entry point of the runtime. -/
theorem Made.functions_eq (h : summary.Made options encoded m m') :
    m'.functions = m.withRuntime.functions := by
  have hhas : (m.putAll (summary.variables options)).hasFunction Symbol.profileRuntime
      = m.hasFunction Symbol.profileRuntime := by
    rw [Module.hasFunction, Module.function?, Module.functions_putAll]
    rfl
  rw [h.module, Module.functions_putVariable, Module.withRuntime, Module.withRuntime, hhas]
  split
  · exact Module.functions_putAll
  · rw [Module.functions_putAll]

/-- **An emission leaves the global variables of other names alone**: seen through a filter of names
that drops the names of its own variables, they are what and where they were. -/
theorem Made.filter_globals (h : summary.Made options encoded m m') {q : String → Bool}
    (hmapping : q Symbol.coverageMapping = false) (huser : q Symbol.profileRuntimeUser = false)
    (hrecords : ∀ function ∈ m.counted, q (Symbol.coverageRecord function) = false) :
    m'.globals.filter (q ·.name) = m.globals.filter (q ·.name) := by
  have hruntime : ∀ m : Module, m.withRuntime.globals = m.globals := fun m => by
    rw [Module.withRuntime]
    split <;> rfl
  have hvariables : ∀ v ∈ summary.variables options, q v.name = false := by
    rw [h.variables_eq, List.forall_mem_cons]
    refine ⟨hmapping, fun v hv => ?_⟩
    obtain ⟨function, hfunction, rfl⟩ := List.mem_map.1 hv
    exact hrecords function hfunction
  rw [h.module, Module.filter_globals_putVariable huser, hruntime,
    Module.filter_globals_putAll hvariables]

/-- An emission leaves the global variables of other symbols as they are. -/
theorem Made.symbol_mem_iff (h : summary.Made options encoded m m') (symbol : OwnSymbol)
    (hmapping : symbol ≠ .coverageMapping) (hrecord : ∀ function, symbol ≠ .coverageRecord function)
    (huser : symbol ≠ .profileRuntimeUser) :
    symbol.name ∈ m'.globalNames ↔ symbol.name ∈ m.globalNames := by
  rw [h.mem_globalNames_iff]
  refine or_iff_left ?_
  rintro (heq | ⟨function, -, heq⟩ | heq)
  · exact hmapping (OwnSymbol.name_inj (b := .coverageMapping).1 heq)
  · exact hrecord function (OwnSymbol.name_inj (b := .coverageRecord function).1 heq)
  · exact huser (OwnSymbol.name_inj (b := .profileRuntimeUser).1 heq)

/-- An emission leaves the functions that have a counter array as they are. -/
theorem Made.counters_mem_iff (h : summary.Made options encoded m m') {function : String} :
    Symbol.counters function ∈ m'.globalNames ↔ Symbol.counters function ∈ m.globalNames :=
  h.symbol_mem_iff (.counters function) nofun nofun nofun

/-- What bodies refer to after an emission is what they referred to before. -/
theorem Made.exists_body_reference_iff (h : summary.Made options encoded m m') {name : String} :
    (∃ f ∈ m'.functions, name ∈ f.references) ↔ ∃ f ∈ m.functions, name ∈ f.references := by
  rw [h.functions_eq, Module.withRuntime]
  split
  · exact Iff.rfl
  · simp [List.mem_append, or_and_right, exists_or, Function.references, Function.instructions]

/-- The records after an emission are those there were, and those of the functions that have a
counter array. -/
theorem Made.coverageRecord_mem_iff (h : summary.Made options encoded m m') {function : String} :
    Symbol.coverageRecord function ∈ m'.globalNames ↔
      Symbol.coverageRecord function ∈ m.globalNames ∨ function ∈ m.counted := by
  have hne (symbol : OwnSymbol) (hsymbol : symbol ≠ .coverageRecord function) :
      Symbol.coverageRecord function ≠ symbol.name := fun heq =>
    hsymbol (OwnSymbol.name_inj (b := .coverageRecord function).1 heq.symm)
  rw [h.mem_globalNames_iff]
  refine or_congr_right ⟨?_, fun hmem => .inr (.inl ⟨function, hmem, rfl⟩)⟩
  rintro (heq | ⟨other, hother, heq⟩ | heq)
  · exact absurd heq (hne .coverageMapping nofun)
  · obtain ⟨rfl⟩ := OwnSymbol.name_inj (a := .coverageRecord function)
      (b := .coverageRecord other).1 heq
    exact hother
  · exact absurd heq (hne .profileRuntimeUser nofun)

/-- The variables of an emission that share a name are the same: a name tells the header from the
records, and the function of a record. -/
theorem Made.variables_inj (h : summary.Made options encoded m m') {v w : Variable}
    (hv : v ∈ summary.variables options) (hw : w ∈ summary.variables options)
    (hname : w.name = v.name) : w = v := by
  have hcases : ∀ u ∈ summary.variables options,
      u = headerVariable options summary.header summary.filenames ∨
        ∃ function, u = (emittedFor encoded.hash function).toVariable options := by
    intro u hu
    refine (List.mem_cons.1 hu).imp_right fun hu => ?_
    obtain ⟨r, hr, rfl⟩ := List.mem_map.1 hu
    rw [h.records] at hr
    obtain ⟨function, -, rfl⟩ := List.mem_map.1 hr
    exact ⟨function, rfl⟩
  have hmapping : ∀ function, Symbol.coverageRecord function ≠ Symbol.coverageMapping :=
    fun function heq => nomatch
      (OwnSymbol.name_inj (a := .coverageRecord function) (b := .coverageMapping)).1 heq
  rcases hcases v hv with rfl | ⟨f, rfl⟩ <;> rcases hcases w hw with rfl | ⟨g, rfl⟩
  · rfl
  · exact absurd hname (hmapping g)
  · exact absurd hname.symm (hmapping f)
  · obtain ⟨rfl⟩ := (OwnSymbol.name_inj (a := .coverageRecord g) (b := .coverageRecord f)).1 hname
    rfl

/-- **A variable of an emission is found as it was put into the module.** -/
theorem Made.definition?_eq (h : summary.Made options encoded m m') {v : Variable}
    (hv : v ∈ summary.variables options) (hne : v.name ≠ Symbol.profileRuntimeUser) :
    m'.definition? v.name = some v := by
  rw [h.module, Module.definition?_putVariable_of_ne hne, Module.definition?_withRuntime]
  exact Module.definition?_putAll_of_mem hv (fun w hw hname => h.variables_inj hv hw hname) m

end EmissionSummary

/-! ### What is read -/

/-- The image of the global variable of a name, if its value has one. -/
def Module.image? (m : Module) (name : String) : Option Bytes :=
  (m.definition? name).bind (·.value.image?)

/-- The header and the filenames table that a summary tells of are laid out in an image: the header
is read at its start, the table stands behind it, with the length that the header tells, and zeros
fill the rest up to a multiple of four. -/
structure EmissionSummary.LaidOut (summary : EmissionSummary) (image : Bytes) : Prop where
  header : TableHeader.parse image = .ok summary.header
  filenames : (image.drop TableHeader.byteSize).take summary.header.filenamesLength.toNat
    = summary.filenames
  filling : ∃ length < 4, image.drop
    (TableHeader.byteSize + summary.header.filenamesLength.toNat) = Bytes.zeros length
  aligned : 4 ∣ image.length

namespace EmissionSummary.Made

variable {options : CoverageOptions} {encoded : EncodedFilenames} {m m' : Module}
  {summary : EmissionSummary}

/-- The header and the table are found laid out. -/
theorem laidOut (h : summary.Made options encoded m m') :
    ∃ image, m'.image? Symbol.coverageMapping = some image ∧ summary.LaidOut image := by
  let v := headerVariable options summary.header summary.filenames
  have hne : Symbol.coverageMapping ≠ Symbol.profileRuntimeUser := by decide
  have hfound : m'.definition? Symbol.coverageMapping = some v :=
    h.definition?_eq (List.mem_cons_self ..) hne
  have hlength : summary.header.filenamesLength.toNat = summary.filenames.length := by
    rw [h.header, h.filenames]
    exact UInt32.toNat_ofNat_of_lt h.fits
  let filling := (4 - summary.filenames.length % 4) % 4
  have hheader := summary.header.length_toBytes
  refine ⟨summary.header.toBytes ++ summary.filenames ++ Bytes.zeros filling, ?_, ?_⟩
  · rw [Module.image?, hfound]
    exact summary.header.image?_toConstant summary.filenames
  · refine ⟨?_, ?_, ⟨filling, Nat.mod_lt _ (by decide), ?_⟩, ?_⟩
    · rw [List.append_assoc]
      exact summary.header.parse_append _
    · rw [List.append_assoc, List.drop_left' hheader, hlength, List.take_left]
    · rw [hlength]
      exact List.drop_left' (by rw [List.length_append, hheader])
    · rw [List.length_append, List.length_append, hheader, Bytes.length_zeros,
        TableHeader.byteSize]
      omega

/-- A record is what is emitted for a function with a counter array. -/
theorem exists_counted (h : summary.Made options encoded m m') {r : EmittedRecord}
    (hr : r ∈ summary.records) : ∃ function ∈ m.counted, emittedFor encoded.hash function = r := by
  rw [h.records] at hr
  exact List.mem_map.1 hr

/-- The variable of a record is found in the module. -/
theorem definition?_record (h : summary.Made options encoded m m') {r : EmittedRecord}
    (hr : r ∈ summary.records) : m'.definition? r.global = some (r.toVariable options) := by
  obtain ⟨function, -, rfl⟩ := h.exists_counted hr
  have hne : Symbol.coverageRecord function ≠ Symbol.profileRuntimeUser := fun heq => nomatch
    (OwnSymbol.name_inj (a := .coverageRecord function) (b := .profileRuntimeUser)).1 heq
  exact h.definition?_eq (List.mem_cons_of_mem _ (List.mem_map_of_mem hr)) hne

/-- Every record is found, and read as what it is. -/
theorem parsed (h : summary.Made options encoded m m') {r : EmittedRecord}
    (hr : r ∈ summary.records) : ∃ data, m'.image? r.global = some data ∧
      FunctionRecord.parse data = .ok r.record ∧ r.record.filenamesHash = encoded.hash ∧
      r.record.mapping = placeholderBytes := by
  have hfound := h.definition?_record hr
  obtain ⟨function, -, rfl⟩ := h.exists_counted hr
  let r := emittedFor encoded.hash function
  refine ⟨r.record.toBytes, ?_, r.record.parse_toBytes, rfl, rfl⟩
  rw [Module.image?, hfound]
  rfl

end EmissionSummary.Made

/-- The mapping of the placeholder region is decoded. -/
theorem decode_placeholderBytes : Mapping.decode placeholderBytes = .ok placeholderMapping := by
  decide +kernel

namespace Action

variable {s s' : Session} {options : CoverageOptions}

/-- **What an emission writes is read back.** Compression is any way to compress and to inflate that
fit each other on the path data; a path is no longer than memory can hold. -/
theorem emitWith_readable {compress : Bytes → Bytes} {inflate : Nat → Bytes → Option Bytes}
    {summary : EmissionSummary} (hpath : (utf8 options.sourceFile).length < 2 ^ 63)
    (hstream : options.compressFilenames = true →
      Restores compress inflate (FilenameTable.single options.sourceFile).pathData)
    (hemit : emitWith compress options s = .ok summary s') :
    (∃ image, s'.module.image? Symbol.coverageMapping = some image ∧ summary.LaidOut image) ∧
    readFilenamesWith inflate summary.filenames = .ok [options.sourceFile] ∧
    ∀ r ∈ summary.records, ∃ data, s'.module.image? r.global = some data ∧
      FunctionRecord.parse data = .ok r.record ∧
      r.record.filenamesHash = nameHash summary.filenames ∧
      Mapping.decode r.record.mapping = .ok ⟨[0], [], [Region.placeholder]⟩ := by
  have hmade := made_of_emitWith hemit
  refine ⟨hmade.laidOut, ?_, fun r hr => ?_⟩
  · let table := FilenameTable.single options.sourceFile
    have hlength : table.pathData.length < UInt64.size := by
      have hle : table.pathData.length ≤ (utf8 options.sourceFile).length + 10 :=
        FilenameTable.length_pathData_single_le options.sourceFile
      simp only [UInt64.size]
      omega
    rw [hmade.filenames]
    refine FilenameTable.readFilenamesWith_encodeWith hlength fun hcompressing => ?_
    refine ⟨?_, hstream hcompressing⟩
    have hfits := hmade.fits
    rw [hcompressing] at hfits
    have hle := table.length_le_length_blob (compress table.pathData)
    exact Nat.lt_of_le_of_lt hle (Nat.lt_trans hfits (by decide))
  · obtain ⟨data, hfound, hparse, hhash, hmapping⟩ := hmade.parsed hr
    refine ⟨data, hfound, hparse, ?_, ?_⟩
    · rw [hhash, hmade.filenames]
      rfl
    · rw [hmapping]
      exact decode_placeholderBytes

/-- The emission for a program of three instrumented functions, with a compressed table. -/
theorem emitWith_readable_prunedProgram : (utf8 "a.c").length < 2 ^ 63 ∧
    Restores Zlib.compress Zlib.decompress? (FilenameTable.single "a.c").pathData ∧
    ∃ (s : Session) (summary : EmissionSummary) (s' : Session),
      emitWith Zlib.compress ⟨"a.c", true, true, .elf⟩ s = .ok summary s' ∧
      summary.records.map (·.function) = ["main", "helper", "unused"] ∧
      (∃ image, s'.module.image? Symbol.coverageMapping = some image ∧ summary.LaidOut image) ∧
      readFilenamesWith Zlib.decompress? summary.filenames = .ok ["a.c"] ∧
      ∀ r ∈ summary.records, ∃ data, s'.module.image? r.global = some data ∧
        FunctionRecord.parse data = .ok r.record ∧
        r.record.filenamesHash = nameHash summary.filenames ∧
        Mapping.decode r.record.mapping = .ok ⟨[0], [], [Region.placeholder]⟩ := by
  let options : CoverageOptions := ⟨"a.c", true, true, .elf⟩
  have hpath : (utf8 options.sourceFile).length < 2 ^ 63 := by decide
  have hrestores : Restores Zlib.compress Zlib.decompress?
      (FilenameTable.single "a.c").pathData := by
    refine ⟨?_, ?_⟩ <;> rw [CoverageOptions.compress_pathData_short]
    · exact List.cons_ne_nil _ _
    · decide +kernel
  have hstream : options.compressFilenames = true → Restores Zlib.compress Zlib.decompress?
      (FilenameTable.single options.sourceFile).pathData := fun _ => hrestores
  have hfits : options.Fits Zlib.compress := CoverageOptions.fits_short true true .elf
  have hsteps : ∀ step ∈ prunedProgram, step.Unreserved := by decide
  obtain ⟨history, hfollows⟩ := follows_build (s := .start "m") (.empty "m") hsteps
  obtain ⟨m, history', heffect, hfollows', -⟩ := hfollows.effectOf [.lowerIncrements ⟨true⟩]
  have hcounted : m.counted = ["main", "helper", "unused"] := by
    have hall : (effectOf [.lowerIncrements ⟨true⟩]
        (build prunedProgram (.start "m")).module).map (·.counted)
          = .ok ["main", "helper", "unused"] := rfl
    rw [heffect] at hall
    exact Except.ok.inj hall
  let s : Session := { module := m }
  obtain ⟨summary, s', hemit, -, -, hrecords, -⟩ :=
    emitWith_spec (s := s) hfollows' options hfits
  refine ⟨hpath, hrestores, s, summary, s', hemit, ?_, ?_⟩
  · rw [hrecords, hcounted]
    rfl
  · exact emitWith_readable hpath hstream hemit

end Action

end SourceCoverage
