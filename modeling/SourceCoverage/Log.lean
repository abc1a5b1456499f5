import SourceCoverage.Text.Quoted

/-!
# The Log

What the library reports while it works, for whoever wants to follow it. An event says what
happened with values of the domain; the level, the wording and the fields of its line in a log
are derived from it.
-/

namespace SourceCoverage

/-- How much attention an event deserves. -/
inductive Level where
  | trace
  | debug
  | info
  | warn
  deriving Repr, DecidableEq

/-- The name of a level. -/
def Level.name : Level → String
  | trace => "TRACE"
  | debug => "DEBUG"
  | info => "INFO"
  | warn => "WARN"

/-- Something that happened. -/
inductive Event where
  | mappingEncoded (files expressions regions bytes : Nat)
  | filenamesEncoded (files rawLength blobLength : Nat) (hash : UInt64)
  | definingGlobal (moduleName global : String)
  | insertingIncrement (function : String) (hash : UInt64) (counterCount index : UInt32)
  | runningPass (pass moduleName : String)
  /-- An increment carries another hash than that of its function's name. -/
  | hashDiffers (function : String)
  | incrementsLowered (moduleName : String) (increments functions : Nat) (atomic : Bool)
  | deadSymbolsRemoved (moduleName : String) (removed : Nat) (functions : List String)
  | headerEmitted (sourceFile : String) (filenamesLength : UInt32) (filenamesHash : UInt64)
      (sectionName : String)
  | notCounters (global : String)
  | recordEmitted (function : String) (nameHash functionHash : UInt64) (mappingLength : UInt32)
  | coverageEmitted (records skipped : Nat) (format : String)
  | stateEntered (previous next : String)
  | atomicsUnavailable
  /-- A run begins, and everything until its end belongs to it. -/
  | runBegun (passes : String) (coverage : Bool)
  deriving Repr, DecidableEq

/-- What the line of an event is headed by. -/
inductive Heading where
  | message (text : String)
  /-- The name of the span that begins. -/
  | span (name : String)
  deriving Repr, DecidableEq

/-- A 64-bit hash in hexadecimal, with its sixteen digits. -/
def hashText (hash : UInt64) : String :=
  let digits := Text.hexDigits hash.toNat
  "0x" ++ String.ofList (List.replicate (16 - digits.length) '0' ++ digits)

namespace Event

/-- The level of an event. -/
def level : Event → Level
  | mappingEncoded .. => .trace
  | filenamesEncoded .. => .trace
  | definingGlobal .. => .trace
  | insertingIncrement .. => .trace
  | runningPass .. => .trace
  | hashDiffers _ => .debug
  | incrementsLowered .. => .debug
  | deadSymbolsRemoved .. => .debug
  | headerEmitted .. => .debug
  | notCounters _ => .trace
  | recordEmitted .. => .debug
  | coverageEmitted .. => .info
  | stateEntered .. => .debug
  | atomicsUnavailable => .warn
  | runBegun .. => .info

/-- The heading of an event. -/
def heading : Event → Heading
  | mappingEncoded .. => .message "encoded coverage mapping"
  | filenamesEncoded .. => .message "encoded filenames table"
  | definingGlobal .. => .message "defining global"
  | insertingIncrement .. => .message "inserting counter increment"
  | runningPass .. => .message "running pass"
  | hashDiffers _ => .message "increment hash differs from the name-derived hash"
  | incrementsLowered .. => .message "lowered counter increments"
  | deadSymbolsRemoved .. => .message "globaldce removed dead symbols"
  | headerEmitted .. => .message "emitted coverage header"
  | notCounters _ => .message "not a counter array, skipping"
  | recordEmitted .. => .message "emitted coverage record"
  | coverageEmitted .. => .message "coverage mapping emitted"
  | stateEntered .. => .message "pipeline state transition"
  | atomicsUnavailable =>
    .message "host cannot lower increments atomically; counters may race between threads"
  | runBegun .. => .span "coverage_pipeline"

/-- The fields of an event, by name. -/
def fields : Event → List (String × String)
  | mappingEncoded files expressions regions bytes =>
    [("files", s!"{files}"), ("expressions", s!"{expressions}"), ("regions", s!"{regions}"),
      ("bytes", s!"{bytes}")]
  | filenamesEncoded files rawLength blobLength hash =>
    [("files", s!"{files}"), ("raw_len", s!"{rawLength}"), ("blob_len", s!"{blobLength}"),
      ("hash", hashText hash)]
  | definingGlobal moduleName global => [("module", moduleName), ("global", global)]
  | insertingIncrement function hash counterCount index =>
    [("function", function), ("hash", s!"{hash}"), ("num_counters", s!"{counterCount}"),
      ("index", s!"{index}")]
  | runningPass pass moduleName => [("pass", pass), ("module", moduleName)]
  | hashDiffers function => [("function", function)]
  | incrementsLowered moduleName increments functions atomic =>
    [("module", moduleName), ("increments", s!"{increments}"), ("functions", s!"{functions}"),
      ("atomic", s!"{atomic}")]
  | deadSymbolsRemoved moduleName removed functions =>
    [("module", moduleName), ("removed", s!"{removed}"), ("functions", Text.quoteList functions)]
  | headerEmitted sourceFile filenamesLength filenamesHash sectionName =>
    [("source_file", sourceFile), ("filenames_len", s!"{filenamesLength}"),
      ("filenames_hash", hashText filenamesHash), ("section", sectionName)]
  | notCounters global => [("global", global)]
  | recordEmitted function nameHash functionHash mappingLength =>
    [("function", function), ("name_hash", hashText nameHash),
      ("function_hash", s!"{functionHash}"), ("mapping_len", s!"{mappingLength}")]
  | coverageEmitted records skipped format =>
    [("records", s!"{records}"), ("skipped", s!"{skipped}"), ("format", format)]
  | stateEntered previous next => [("from", previous), ("to", next)]
  | atomicsUnavailable => []
  | runBegun passes coverage => [("passes", passes), ("coverage", s!"{coverage}")]

end Event

end SourceCoverage
