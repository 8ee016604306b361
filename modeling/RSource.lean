import RSource.Command.Line
import RSource.Diagnostic.Queue
import RSource.Disk.FileSystem
import RSource.Main
import RSource.Proofs.Cascade
import RSource.Proofs.Derivation
import RSource.Proofs.DocComment
import RSource.Proofs.Errors
import RSource.Proofs.Grammar.Adjacent
import RSource.Proofs.Grammar.Built
import RSource.Proofs.Grammar.Climbing
import RSource.Proofs.Grammar.Delimited
import RSource.Proofs.Grammar.FirstSet
import RSource.Proofs.Grammar.Operand
import RSource.Proofs.Grammar.Precedence
import RSource.Proofs.Grammar.Production
import RSource.Proofs.Grammar.Source
import RSource.Proofs.Grammar.Statement
import RSource.Proofs.Grammar.Term
import RSource.Proofs.Lexeme.Boundary
import RSource.Proofs.Lexeme.Cover
import RSource.Proofs.Lexeme.DocCover
import RSource.Proofs.Lexeme.Ending
import RSource.Proofs.Lexeme.Joined
import RSource.Proofs.Lexeme.Nested
import RSource.Proofs.Lexeme.ReadBack
import RSource.Proofs.Lexeme.Replaced
import RSource.Proofs.Lexeme.Reserved
import RSource.Proofs.Lexeme.Seam
import RSource.Proofs.Lexeme.Spaced
import RSource.Proofs.Lexeme.Spelling
import RSource.Proofs.Lexeme.Tiling
import RSource.Proofs.Lexeme.Written
import RSource.Proofs.Lossless
import RSource.Proofs.MoreLines
import RSource.Proofs.Parser.Blind
import RSource.Proofs.Parser.Fits
import RSource.Proofs.Parser.Limited
import RSource.Proofs.Parser.Reading
import RSource.Proofs.Recorder.Parse
import RSource.Proofs.Renamed
import RSource.Proofs.Reparse
import RSource.Proofs.Reported
import RSource.Proofs.Store.Loaded
import RSource.Proofs.Stub.Defined
import RSource.Proofs.Stub.Extracted
import RSource.Proofs.Stub.History
import RSource.Proofs.Stub.Listed
import RSource.Proofs.Stub.Stored
import RSource.Proofs.Stub.Waiting
import RSource.Proofs.Text.LineText
import RSource.Proofs.Text.Piece
import RSource.Proofs.Text.Utf8
import RSource.Proofs.Token.Resumed
import RSource.Proofs.Token.Stream
import RSource.Proofs.Tree.Ancestors
import RSource.Proofs.Tree.Bounds
import RSource.Proofs.Tree.Covering
import RSource.Proofs.Tree.Edited
import RSource.Proofs.Tree.Edits
import RSource.Proofs.Tree.FromOutline
import RSource.Proofs.Tree.Invariants
import RSource.Proofs.Tree.Laid
import RSource.Proofs.Tree.Links
import RSource.Proofs.Tree.Moved
import RSource.Proofs.Tree.OfTerm
import RSource.Proofs.Tree.Places
import RSource.Proofs.Tree.Rows
import RSource.Proofs.View.Control
import RSource.Proofs.View.DocComment
import RSource.Proofs.View.DocString
import RSource.Proofs.View.NamedArgument
import RSource.Proofs.View.Parentheses
import RSource.Proofs.View.StringLiteral
import RSource.Proofs.View.Subscription
import RSource.Proofs.View.Visitor
import RSource.Proofs.Workspace.Current
import RSource.Rename
import RSource.Stub.Index
import RSource.Tree.Dump
import RSource.View.Control
import RSource.View.DocComment
import RSource.View.DocString
import RSource.View.Parentheses
import RSource.View.Visitor
