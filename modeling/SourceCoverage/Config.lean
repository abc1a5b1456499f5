import SourceCoverage.Bytes
import SourceCoverage.Error
import SourceCoverage.Options
import SourceCoverage.Toml.Document

/-!
# Configuration Files

The configuration of a run is a TOML document with the text of the pass pipeline under `passes`
and, if coverage is wanted, its options under `coverage`. Keys that mean nothing are passed over.
The options may also be given as an array, in the order in which they are listed in
`CoverageOptions`, and the object file format as a table that has the format's name for its only
key and nothing under it.
-/

namespace SourceCoverage.Config

open Toml

/-- The text that a value is. -/
def text? : Value → Option String
  | .string text => some text
  | _ => none

/-- The truth value that a value is. -/
def boolean? : Value → Option Bool
  | .boolean b => some b
  | _ => none

/-- Whether a value has nothing in it, though something might be. -/
def isHollow : Value → Bool
  | .table _ [] => true
  | .array [] => true
  | _ => false

/-- The format that a value names. -/
def objectFormat? : Value → Option ObjectFormat
  | .string text => ObjectFormat.ofText? text
  | .table _ [(name, content)] => if isHollow content then ObjectFormat.ofText? name else none
  | _ => none

/-- What a field holds that may be missing. -/
def orDefault {α : Type} (default : α) (decode : Value → Option α) : Option Value → Option α
  | none => some default
  | some value => decode value

/-- The options whose fields are the given values. -/
def ofFields? (sourceFile atomicCounters compressFilenames objectFormat : Option Value) :
    Option CoverageOptions := do
  return {
    sourceFile := ← text? (← sourceFile)
    atomicCounters := ← orDefault true boolean? atomicCounters
    compressFilenames := ← orDefault true boolean? compressFilenames
    objectFormat := ← orDefault default objectFormat? objectFormat }

/-- The options that a value spells. -/
def options? : Value → Option CoverageOptions
  | .table _ entries =>
    ofFields? (entries.lookup "source_file") (entries.lookup "atomic_counters")
      (entries.lookup "compress_filenames") (entries.lookup "object_format")
  | .array elements => ofFields? elements[0]? elements[1]? elements[2]? elements[3]?
  | _ => none

/-- The configuration that a document spells. -/
def ofDocument? (document : Entries) : Option RunConfig := do
  return {
    passes := ← text? (← document.lookup "passes")
    coverage := ← orDefault none (fun value => some <$> options? value)
      (document.lookup "coverage") }

/-- Refuses a configuration that cannot be carried out. -/
def validate (config : RunConfig) : Except ConfigError RunConfig :=
  if config.coverage.any (·.sourceFile = "") then
    .error (.invalid "coverage.source_file is empty")
  else .ok config

/-- The configuration that a text spells. -/
def ofText (text : String) : Except ConfigError RunConfig :=
  match (Toml.parse? text).bind ofDocument? with
  | some config => validate config
  | none => .error .parse

/-- Why a file cannot be read as a text. -/
def notUtf8Reason : String := "stream did not contain valid UTF-8"

/-- The configuration in a file, of which either the contents are given or the reason why they
cannot be had. -/
def ofFile (path : String) : (contents : Except String Bytes) → Except ConfigError RunConfig
  | .error reason => .error (.io path reason)
  | .ok contents =>
    match ofUtf8? contents with
    | some text => ofText text
    | none => .error (.io path notUtf8Reason)

end SourceCoverage.Config
