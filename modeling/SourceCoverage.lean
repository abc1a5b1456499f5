import SourceCoverage.Bytes
import SourceCoverage.Config
import SourceCoverage.Constant
import SourceCoverage.Cursor
import SourceCoverage.Emission
import SourceCoverage.Error
import SourceCoverage.Filenames
import SourceCoverage.Identity
import SourceCoverage.Instrumentation
import SourceCoverage.Leb128
import SourceCoverage.Log
import SourceCoverage.Mapping.Basic
import SourceCoverage.Mapping.Decoding
import SourceCoverage.Mapping.Encoding
import SourceCoverage.Mapping.Numbering
import SourceCoverage.Md5
import SourceCoverage.Module.Basic
import SourceCoverage.Module.Building
import SourceCoverage.Options
import SourceCoverage.Pipeline.Basic
import SourceCoverage.Pipeline.DeadSymbols
import SourceCoverage.Pipeline.Execution
import SourceCoverage.Pipeline.Lowering
import SourceCoverage.Pipeline.Parsing
import SourceCoverage.Pipeline.References
import SourceCoverage.Pipeline.Verification
import SourceCoverage.Proofs.Bounds
import SourceCoverage.Proofs.Building
import SourceCoverage.Proofs.Collisions
import SourceCoverage.Proofs.Consumption
import SourceCoverage.Proofs.Delimitation
import SourceCoverage.Proofs.Emission
import SourceCoverage.Proofs.Emitted
import SourceCoverage.Proofs.Failures
import SourceCoverage.Proofs.Filenames
import SourceCoverage.Proofs.Description
import SourceCoverage.Proofs.Identity
import SourceCoverage.Proofs.Inflation
import SourceCoverage.Proofs.Insertion
import SourceCoverage.Proofs.Instrumentation
import SourceCoverage.Proofs.Layout
import SourceCoverage.Proofs.Leb128.Digits
import SourceCoverage.Proofs.Leb128.Words
import SourceCoverage.Proofs.Lifetime
import SourceCoverage.Proofs.Mapping.Acceptance
import SourceCoverage.Proofs.Mapping.Boundedness
import SourceCoverage.Proofs.Mapping.Guarded
import SourceCoverage.Proofs.Mapping.Minimization
import SourceCoverage.Proofs.Mapping.Permutation
import SourceCoverage.Proofs.Mapping.Preorder
import SourceCoverage.Proofs.Mapping.Reachability
import SourceCoverage.Proofs.Mapping.References
import SourceCoverage.Proofs.Mapping.Renaming
import SourceCoverage.Proofs.Mapping.Rereading
import SourceCoverage.Proofs.Mapping.RoundTrip
import SourceCoverage.Proofs.Mapping.Simulation
import SourceCoverage.Proofs.Mapping.Sorting
import SourceCoverage.Proofs.Module.Construction
import SourceCoverage.Proofs.Module.Edits
import SourceCoverage.Proofs.Module.Graph
import SourceCoverage.Proofs.Module.History
import SourceCoverage.Proofs.Module.Operations
import SourceCoverage.Proofs.Module.Program
import SourceCoverage.Proofs.Module.Unambiguity
import SourceCoverage.Proofs.Module.Unlowered
import SourceCoverage.Proofs.Module.Updating
import SourceCoverage.Proofs.NameTable
import SourceCoverage.Proofs.Pairing
import SourceCoverage.Proofs.Pipeline.Caching
import SourceCoverage.Proofs.Pipeline.Collection
import SourceCoverage.Proofs.Pipeline.Counting
import SourceCoverage.Proofs.Pipeline.Deletion
import SourceCoverage.Proofs.Pipeline.Effects
import SourceCoverage.Proofs.Pipeline.Folding
import SourceCoverage.Proofs.Pipeline.Grammar
import SourceCoverage.Proofs.Pipeline.Liveness
import SourceCoverage.Proofs.Pipeline.Offences
import SourceCoverage.Proofs.Pipeline.Lowered
import SourceCoverage.Proofs.Pipeline.Lowering
import SourceCoverage.Proofs.Pipeline.Passage
import SourceCoverage.Proofs.Pipeline.Preservation
import SourceCoverage.Proofs.Pipeline.Printing
import SourceCoverage.Proofs.Pipeline.Program
import SourceCoverage.Proofs.Pipeline.Pruning
import SourceCoverage.Proofs.Pipeline.Sparing
import SourceCoverage.Proofs.Pipeline.Steps
import SourceCoverage.Proofs.Pipeline.Verification
import SourceCoverage.Proofs.Placement
import SourceCoverage.Proofs.Positions
import SourceCoverage.Proofs.ProfileNames
import SourceCoverage.Proofs.Reading
import SourceCoverage.Proofs.Records
import SourceCoverage.Proofs.Reemission
import SourceCoverage.Proofs.Results
import SourceCoverage.Proofs.Retention
import SourceCoverage.Proofs.Returns
import SourceCoverage.Proofs.Room
import SourceCoverage.Proofs.Run
import SourceCoverage.Proofs.Staleness
import SourceCoverage.Proofs.Symbols
import SourceCoverage.Proofs.Tasks
import SourceCoverage.Proofs.Transparency
import SourceCoverage.Record
import SourceCoverage.Run
import SourceCoverage.Session
import SourceCoverage.Symbol
import SourceCoverage.Text.Affix
import SourceCoverage.Text.Extending
import SourceCoverage.Text.Printable
import SourceCoverage.Text.Quoted
import SourceCoverage.Text.Utf8
import SourceCoverage.Toml.Document
import SourceCoverage.Toml.Scalars
import SourceCoverage.Toml.Scanner
import SourceCoverage.Toml.Strings
import SourceCoverage.Toml.Value
import SourceCoverage.Zlib.Alphabet
import SourceCoverage.Zlib.Bits
import SourceCoverage.Zlib.Deflate
import SourceCoverage.Zlib.Inflate
import SourceCoverage.Zlib.PrefixCode
import SourceCoverage.Zlib.Stream
