import PackedStack.Machine.Opcode
import PackedStack.Machine.Word
import PackedStack.Text.Blank
import PackedStack.Text.Numeral
import PackedStack.Text.Escape
import PackedStack.Text.Split
import PackedStack.Text.Utf8
import PackedStack.Source.Line
import PackedStack.Source.Operand
import PackedStack.Source.Statement
import PackedStack.Source.Load
import PackedStack.Image.Basic
import PackedStack.Image.Entry
import PackedStack.Image.Block
import PackedStack.Image.Queue
import PackedStack.Image.Draft
import PackedStack.Symbol.Labels
import PackedStack.Symbol.Resolution
import PackedStack.Assembly.State
import PackedStack.Assembly.Session
import PackedStack.Assembly.Basic
import PackedStack.Assembly.Layout
import PackedStack.Assembly.Disassembly
import PackedStack.Report.Error
import PackedStack.Report.Style
import PackedStack.Report.Diagnostic
import PackedStack.Report.Listing
import PackedStack.Output.Artifact
import PackedStack.Files.Path
import PackedStack.Files.FileSystem
import PackedStack.Command.Arguments
import PackedStack.Command.Host
import PackedStack.Command.Run
import PackedStack.Main
import PackedStack.Proofs.Layout.Pieces
import PackedStack.Proofs.Layout.Streaming
import PackedStack.Proofs.Assembly.FirstPass
import PackedStack.Proofs.Failure
import PackedStack.Proofs.Source.Statements
import PackedStack.Proofs.Symbol.Resolution
import PackedStack.Proofs.Assembly.SecondPass
import PackedStack.Proofs.Layout.Shape
import PackedStack.Proofs.Assembly.Disassembly
import PackedStack.Proofs.Assembly.Outcome
import PackedStack.Proofs.Assembly.Map
import PackedStack.Proofs.Layout.Placement
import PackedStack.Proofs.Assembly.Places
import PackedStack.Proofs.Assembly.Roles
import PackedStack.Proofs.Assembly.Coverage
import PackedStack.Proofs.Assembly.EntryPoints
import PackedStack.Proofs.Text.Words
import PackedStack.Proofs.Assembly.Relocation
import PackedStack.Proofs.Source.Renaming
import PackedStack.Proofs.Assembly.Renaming
import PackedStack.Proofs.Assembly.Definitions
import PackedStack.Proofs.Files.FileSystem
import PackedStack.Proofs.Command.Run
import PackedStack.Proofs.Text.Utf8
import PackedStack.Proofs.Source.Load
import PackedStack.Proofs.Source.Spelling
import PackedStack.Proofs.Report.Rows
import PackedStack.Proofs.Report.Listing
import PackedStack.Proofs.Assembly.Respelling
import PackedStack.Proofs.Assembly.Growth
import PackedStack.Proofs.Assembly.EntryCell
import PackedStack.Proofs.Output.Artifact
import PackedStack.Proofs.Source.Numerals
import PackedStack.Proofs.Source.Grammar
import PackedStack.Proofs.Source.WholeText
import PackedStack.Proofs.Symbol.References
import PackedStack.Proofs.Symbol.Pointers
import PackedStack.Proofs.Image.Queue
import PackedStack.Proofs.Output.ImageFile
