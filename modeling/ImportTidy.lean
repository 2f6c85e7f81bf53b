import ImportTidy.Main
import ImportTidy.Proofs.Arena
import ImportTidy.Proofs.Block
import ImportTidy.Proofs.Grammar
import ImportTidy.Proofs.Grammar.Trace
import ImportTidy.Proofs.Grammar.Reading
import ImportTidy.Proofs.Grammar.Breaking
import ImportTidy.Proofs.Performing
import ImportTidy.Proofs.Gathering
import ImportTidy.Proofs.NaturalOrder
import ImportTidy.Proofs.Lines
import ImportTidy.Proofs.Lexing
import ImportTidy.Proofs.Rendering
import ImportTidy.Proofs.RoundTrip
import ImportTidy.Proofs.Readable
import ImportTidy.Proofs.Backslashes
import ImportTidy.Proofs.Idempotence
import ImportTidy.Proofs.Merging
import ImportTidy.Proofs.Likeness
import ImportTidy.Proofs.Rereading
import ImportTidy.Proofs.Handles
import ImportTidy.Proofs.Histories
import ImportTidy.Proofs.Scripts
import ImportTidy.Proofs.LineReader
import ImportTidy.Proofs.Renumbering
import ImportTidy.Proofs.Padding
import ImportTidy.Proofs.Concatenation
import ImportTidy.Proofs.Batches
import ImportTidy.Proofs.Consistency
import ImportTidy.Proofs.Outcomes
import ImportTidy.Proofs.Limits
import ImportTidy.Proofs.Remains
import ImportTidy.Proofs.Splitting
import ImportTidy.Proofs.ByteClasses
import ImportTidy.Proofs.Tokenizer
import ImportTidy.Proofs.Wrapping
import ImportTidy.Proofs.Layout
import ImportTidy.Proofs.Numerals
import ImportTidy.Proofs.InertLines
import ImportTidy.Proofs.LineEndings
import ImportTidy.Proofs.Pieces
import ImportTidy.Proofs.Marks
import ImportTidy.Proofs.SkippedDirectories
import ImportTidy.Proofs.Walks
import ImportTidy.Proofs.SourceFiles
import ImportTidy.Proofs.Calls
import ImportTidy.Proofs.Progress
import ImportTidy.Proofs.Arena.Slots
import ImportTidy.Proofs.Cuts
import ImportTidy.Proofs.Packages
import ImportTidy.Proofs.Json
import ImportTidy.Proofs.Encoding
