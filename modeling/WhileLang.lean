import WhileLang.Analysis
import WhileLang.Analysis.Path
import WhileLang.Analysis.Rules
import WhileLang.Binary64
import WhileLang.CommandLine
import WhileLang.CommandLine.Arguments
import WhileLang.Datum
import WhileLang.Draft
import WhileLang.Eval
import WhileLang.Expr
import WhileLang.File
import WhileLang.Grammar
import WhileLang.Interpret
import WhileLang.Log
import WhileLang.Main
import WhileLang.NameSet
import WhileLang.Operator
import WhileLang.Outline
import WhileLang.ParseError
import WhileLang.Proofs.Analysis.Chain
import WhileLang.Proofs.Analysis.Exactness
import WhileLang.Proofs.Analysis.Pending
import WhileLang.Proofs.Analysis.Soundness
import WhileLang.Proofs.CommandLine.File
import WhileLang.Proofs.Operator
import WhileLang.Proofs.Printing.Outline
import WhileLang.Proofs.Printing.RoundTrip
import WhileLang.Proofs.Printing.Store
import WhileLang.Proofs.Printing.Tokens
import WhileLang.Proofs.Printing.Value
import WhileLang.Proofs.Reading.Completeness
import WhileLang.Proofs.Reading.FirstFault
import WhileLang.Proofs.Reading.Inside
import WhileLang.Proofs.Reading.Join
import WhileLang.Proofs.Reading.Layout
import WhileLang.Proofs.Reading.Lexeme
import WhileLang.Proofs.Reading.Newline
import WhileLang.Proofs.Reading.Parse
import WhileLang.Proofs.Reading.Segments
import WhileLang.Proofs.Reading.Soundness
import WhileLang.Proofs.Reading.Spacing
import WhileLang.Proofs.Reading.Stream
import WhileLang.Proofs.Reading.Viable
import WhileLang.Proofs.Run.Agreement
import WhileLang.Proofs.Run.BigStep
import WhileLang.Proofs.Run.Blame
import WhileLang.Proofs.Run.Commute
import WhileLang.Proofs.Run.Ends
import WhileLang.Proofs.Run.Frame
import WhileLang.Proofs.Run.Reads
import WhileLang.Proofs.Run.Step
import WhileLang.Proofs.Run.Summation
import WhileLang.Proofs.Run.Total
import WhileLang.Proofs.Run.Trace
import WhileLang.Proofs.Session.Batch
import WhileLang.Proofs.Session.Dispatch
import WhileLang.Proofs.Session.Invariant
import WhileLang.Proofs.Session.Program
import WhileLang.Proofs.Session.Turn
import WhileLang.Proofs.Store.Items
import WhileLang.Proofs.Store.Prepend
import WhileLang.Proofs.Store.Views
import WhileLang.Proofs.Text.Joined
import WhileLang.Proofs.Text.Line
import WhileLang.Proofs.Text.Quoted
import WhileLang.Proofs.Tree.Chain
import WhileLang.Proofs.Tree.Equality
import WhileLang.Run
import WhileLang.Session
import WhileLang.Stmt
import WhileLang.Stmt.Equality
import WhileLang.Stmt.Parser
import WhileLang.Stmt.Printer
import WhileLang.Stmt.WellFormed
import WhileLang.Store
import WhileLang.Text.Blank
import WhileLang.Text.Newline
import WhileLang.Text.Printable
import WhileLang.Text.Quoted
import WhileLang.Token
import WhileLang.TokenStream
import WhileLang.Value
