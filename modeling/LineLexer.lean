import LineLexer.CursorScan
import LineLexer.Files.Memory
import LineLexer.Run
import LineLexer.Main
import LineLexer.Proofs.Lexeme
import LineLexer.Proofs.Reading
import LineLexer.Proofs.Halt
import LineLexer.Proofs.Emission
import LineLexer.Proofs.Layout
import LineLexer.Proofs.Moving
import LineLexer.Proofs.Lines
import LineLexer.Proofs.Tiling
import LineLexer.Proofs.Ending
import LineLexer.Proofs.Rendering
import LineLexer.Proofs.FirstHalt
import LineLexer.Proofs.Concatenation
import LineLexer.Proofs.Joining
import LineLexer.Proofs.Edits
import LineLexer.Proofs.Policies
import LineLexer.Proofs.Reuse
import LineLexer.Proofs.Strays
import LineLexer.Proofs.Decoding
import LineLexer.Proofs.Stored
import LineLexer.Proofs.ShownLines
import LineLexer.Proofs.Caret
import LineLexer.Proofs.NumberText
import LineLexer.Proofs.SymbolText
import LineLexer.Proofs.ReadBack
import LineLexer.Proofs.Fields
import LineLexer.Proofs.OneLine
import LineLexer.Proofs.JsonText
import LineLexer.Proofs.Opening
import LineLexer.Proofs.Dumps
import LineLexer.Proofs.Outcome
import LineLexer.Proofs.ProjectText
import LineLexer.Proofs.SharedFiles
import LineLexer.Proofs.TableText
import LineLexer.Proofs.LineEnds
import LineLexer.Proofs.Boundary
import LineLexer.Proofs.DumpText
import LineLexer.Proofs.LogChoice
import LineLexer.Proofs.WellFormed
import LineLexer.Proofs.Splitting
import LineLexer.Proofs.Quotes
import LineLexer.Proofs.Integers
import LineLexer.Proofs.Magnitudes
import LineLexer.Proofs.ShortestDigits
import LineLexer.Proofs.DecimalText
import LineLexer.Proofs.Floats
import LineLexer.Proofs.NumberValues
import LineLexer.Proofs.DumpLines
import LineLexer.Proofs.ListingText
import LineLexer.Proofs.ContextWindow
import LineLexer.Proofs.CursorRun
import LineLexer.Proofs.CursorScan
import LineLexer.Proofs.ReportText
