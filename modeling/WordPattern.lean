import WordPattern.Word
import WordPattern.Spec
import WordPattern.Spec.Text
import WordPattern.Pattern
import WordPattern.Pattern.Compile
import WordPattern.Pattern.Render
import WordPattern.Pattern.Write
import WordPattern.Group
import WordPattern.Group.Decoded
import WordPattern.Error
import WordPattern.Batch
import WordPattern.Source
import WordPattern.Definition
import WordPattern.Definition.Json
import WordPattern.Event
import WordPattern.Sink
import WordPattern.Description
import WordPattern.Json
import WordPattern.Json.Number
import WordPattern.Json.Token
import WordPattern.Json.Document
import WordPattern.Json.Compact
import WordPattern.Decimal.Binary64
import WordPattern.Decimal.Shortest
import WordPattern.Text.Classes
import WordPattern.Text.Quoted
import WordPattern.Proofs.Number
import WordPattern.Proofs.Layout
import WordPattern.Proofs.Assembly
import WordPattern.Proofs.Masks
import WordPattern.Proofs.Comparison
import WordPattern.Proofs.Counting
import WordPattern.Proofs.Tiling
import WordPattern.Proofs.Concatenation
import WordPattern.Proofs.Symbols
import WordPattern.Proofs.Digits
import WordPattern.Proofs.Dispatch
import WordPattern.Proofs.Specialisation
import WordPattern.Proofs.Reading
import WordPattern.Proofs.Grammar
import WordPattern.Proofs.Meaning
import WordPattern.Proofs.RoundTrip
import WordPattern.Proofs.Rereading
import WordPattern.Proofs.Refusals
import WordPattern.Proofs.Recovery
import WordPattern.Proofs.LowBits
import WordPattern.Proofs.Ties
import WordPattern.Proofs.Lookup
import WordPattern.Proofs.Checked
import WordPattern.Proofs.First
import WordPattern.Proofs.Faults
import WordPattern.Proofs.Offences
import WordPattern.Proofs.Entries
import WordPattern.Proofs.Reports
import WordPattern.Proofs.Room
import WordPattern.Proofs.Members
import WordPattern.Proofs.Splitting
