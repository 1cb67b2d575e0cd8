import Disasm.Main
import Disasm.Proofs.Decoding
import Disasm.Proofs.Sweep
import Disasm.Proofs.Cursor
import Disasm.Proofs.Result
import Disasm.Proofs.IntelHex
import Disasm.Proofs.Labels
import Disasm.Proofs.Spelling
import Disasm.Proofs.Respelling
import Disasm.Proofs.Patterns
import Disasm.Proofs.Statement
import Disasm.Proofs.Source
import Disasm.Proofs.Lookup
import Disasm.Proofs.Symbols
import Disasm.Proofs.Forms
import Disasm.Proofs.Z80Scheme
import Disasm.Proofs.Resolution
import Disasm.Proofs.Simulation
import Disasm.Proofs.IntelScheme
import Disasm.Proofs.Numeral
import Disasm.Proofs.RecordLine
import Disasm.Proofs.EncodedLines
import Disasm.Proofs.Acceptance
import Disasm.Proofs.Verdicts
import Disasm.Proofs.Corruption
import Disasm.Proofs.Finality
import Disasm.Proofs.RecordCharacters
import Disasm.Proofs.Origin
import Disasm.Proofs.Output
import Disasm.Proofs.Files
import Disasm.Proofs.Run
import Disasm.Proofs.Composition
import Disasm.Proofs.Relocation
import Disasm.Proofs.Dispatch
import Disasm.Proofs.Siblings
import Disasm.Proofs.Columns
import Disasm.Proofs.JsonReader
import Disasm.Proofs.JsonText
import Disasm.Proofs.Report
import Disasm.Proofs.Discovery
import Disasm.Proofs.Explained
import Disasm.Proofs.Destinations
import Disasm.Proofs.TargetText
import Disasm.Proofs.Comments
import Disasm.Proofs.Placeholders
