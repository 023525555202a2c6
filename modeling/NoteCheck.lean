import NoteCheck.Checker.Program
import NoteCheck.CommandLine.Response
import NoteCheck.Main
import NoteCheck.Proofs.Grammar.ExprRules
import NoteCheck.Proofs.Grammar.ExprSound
import NoteCheck.Proofs.Grammar.StmtRules
import NoteCheck.Proofs.Grammar.StmtSound
import NoteCheck.Proofs.Grammar.Parts
import NoteCheck.Proofs.Purity.PureExpr
import NoteCheck.Proofs.Purity.PureBlock
import NoteCheck.Proofs.Layout.EndOfText
import NoteCheck.Proofs.Purity.Passage
import NoteCheck.Proofs.Purity.Tokens
import NoteCheck.Proofs.Grammar.Onward
import NoteCheck.Proofs.Grammar.Shape
import NoteCheck.Proofs.Grammar.StmtShape
import NoteCheck.Proofs.Grammar.Nested
import NoteCheck.Proofs.Grammar.StmtNested
import NoteCheck.Proofs.Purity.Targets
import NoteCheck.Proofs.Files.Find
import NoteCheck.Proofs.Files.Order
import NoteCheck.Proofs.Sorted
import NoteCheck.Proofs.Files.Discovery
import NoteCheck.Proofs.Verification.Batch
import NoteCheck.Proofs.Verification.Report
import NoteCheck.Proofs.Verification.Calls
import NoteCheck.Proofs.CommandLine.ExitStatus
import NoteCheck.Proofs.Signature.Brackets
import NoteCheck.Proofs.Text.Trim
import NoteCheck.Proofs.Text.Pieces
import NoteCheck.Proofs.Note.Block
import NoteCheck.Proofs.Signature.Layers
import NoteCheck.Proofs.Signature.RoundTrip
import NoteCheck.Proofs.Signature.Canonical
import NoteCheck.Proofs.Signature.Declarations
import NoteCheck.Proofs.Layout.Places
import NoteCheck.Proofs.Layout.Coverage
import NoteCheck.Proofs.Layout.Cursor
import NoteCheck.Proofs.Layout.Structure
import NoteCheck.Proofs.Layout.Order
import NoteCheck.Proofs.Layout.Words
import NoteCheck.Proofs.Grammar.Runs
import NoteCheck.Proofs.Grammar.Term
import NoteCheck.Proofs.Grammar.TermReads
import NoteCheck.Proofs.Grammar.TermParse
import NoteCheck.Proofs.Grammar.Spans
import NoteCheck.Proofs.Layout.Lines
import NoteCheck.Proofs.Grammar.Marks
import NoteCheck.Proofs.Grammar.Sketch
import NoteCheck.Proofs.Layout.Indented
import NoteCheck.Proofs.Purity.Spans
import NoteCheck.Proofs.Purity.Indentation
import NoteCheck.Proofs.Grammar.Alike
import NoteCheck.Proofs.Grammar.AlikeStmt
import NoteCheck.Proofs.Layout.Elsewhere
import NoteCheck.Proofs.Layout.AfterBlock
import NoteCheck.Proofs.Stub.Pieces
import NoteCheck.Proofs.Stub.Module
import NoteCheck.Proofs.Layout.Cut
import NoteCheck.Proofs.Layout.TwoTexts
import NoteCheck.Proofs.Purity.Joined
import NoteCheck.Proofs.Grammar.Bounded
import NoteCheck.Proofs.Grammar.BoundedExpr
import NoteCheck.Proofs.Grammar.BoundedStmt
import NoteCheck.Proofs.Grammar.Progress
import NoteCheck.Proofs.Layout.Idle
import NoteCheck.Proofs.Signature.Characters
import NoteCheck.Proofs.Stub.Names
import NoteCheck.Proofs.Purity.Search
import NoteCheck.Proofs.Grammar.Skipped
import NoteCheck.Proofs.Grammar.Local
import NoteCheck.Proofs.Grammar.LocalExpr
import NoteCheck.Proofs.Grammar.LocalStmt
import NoteCheck.Proofs.Layout.Literal
import NoteCheck.Proofs.Grammar.StmtOrder
import NoteCheck.Proofs.Purity.TokenLines
import NoteCheck.Proofs.Purity.SourceOrder
import NoteCheck.Proofs.Layout.Inside
import NoteCheck.Proofs.Purity.LastLine
import NoteCheck.Proofs.Stub.Aliases
import NoteCheck.Proofs.Stub.Annotations
import NoteCheck.Proofs.Note.Isolation
import NoteCheck.Proofs.Note.Surrounds
import NoteCheck.Proofs.Verification.LineOrder
import NoteCheck.Proofs.Verification.PathOrder
import NoteCheck.Proofs.CommandLine.Arguments
import NoteCheck.Proofs.Shell.Status
import NoteCheck.Proofs.Toml.Proper
import NoteCheck.Proofs.Files.Listing
import NoteCheck.Proofs.Checker.Scratch
import NoteCheck.Proofs.Signature.Parentheses
import NoteCheck.Proofs.Signature.Division
