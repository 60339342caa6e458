import Midl.Attribute
import Midl.Command.Cli
import Midl.Command.Console
import Midl.Command.Options
import Midl.Command.Run
import Midl.Command.Terminal
import Midl.Compilation
import Midl.Declaration
import Midl.Declaration.Walk
import Midl.Diagnostic
import Midl.Dispatch
import Midl.Enumeration
import Midl.Error
import Midl.Fault
import Midl.FileTree
import Midl.Integer
import Midl.Log
import Midl.Main
import Midl.Output.Draft
import Midl.Output.Identifier
import Midl.Output.Item
import Midl.Output.Operand
import Midl.Output.Session
import Midl.Output.Type
import Midl.Parser.Basic
import Midl.Parser.Declaration
import Midl.Parser.Type
import Midl.Position
import Midl.Proofs.Ancestry
import Midl.Proofs.Arguments
import Midl.Proofs.Blocks
import Midl.Proofs.Brackets
import Midl.Proofs.Calls
import Midl.Proofs.Classification
import Midl.Proofs.Comments
import Midl.Proofs.Concatenation
import Midl.Proofs.Congruence
import Midl.Proofs.Constants
import Midl.Proofs.Continuation
import Midl.Proofs.Declarator
import Midl.Proofs.Denotation
import Midl.Proofs.Desugaring
import Midl.Proofs.Dispatch
import Midl.Proofs.Drafting
import Midl.Proofs.Ensures
import Midl.Proofs.Enumeration
import Midl.Proofs.Expression
import Midl.Proofs.Fields
import Midl.Proofs.Files
import Midl.Proofs.Grammar
import Midl.Proofs.Integer
import Midl.Proofs.Layout
import Midl.Proofs.Lexing
import Midl.Proofs.Literal
import Midl.Proofs.Lookup
import Midl.Proofs.Matching
import Midl.Proofs.Names
import Midl.Proofs.Nesting
import Midl.Proofs.Numeral
import Midl.Proofs.Online
import Midl.Proofs.Parsed
import Midl.Proofs.Placement
import Midl.Proofs.Pointers
import Midl.Proofs.Portability
import Midl.Proofs.Positions
import Midl.Proofs.Printer
import Midl.Proofs.Productions
import Midl.Proofs.Provenance
import Midl.Proofs.Pruning
import Midl.Proofs.Pulling
import Midl.Proofs.Quoting
import Midl.Proofs.Replay
import Midl.Proofs.Respelling
import Midl.Proofs.RoundTrip
import Midl.Proofs.Run
import Midl.Proofs.Scanned
import Midl.Proofs.Script
import Midl.Proofs.Session
import Midl.Proofs.Settings
import Midl.Proofs.Spelling
import Midl.Proofs.Streaming
import Midl.Proofs.Table
import Midl.Proofs.Taking
import Midl.Proofs.Utf8
import Midl.Proofs.Verbosity
import Midl.Proofs.Walk
import Midl.Proofs.WellFormed
import Midl.Proofs.Wrapping
import Midl.Proofs.Yields
import Midl.Reader
import Midl.Source
import Midl.Text.Blank
import Midl.Text.Byte
import Midl.Text.Extender
import Midl.Text.Lines
import Midl.Text.Printable
import Midl.Text.Quoted
import Midl.Text.Ranges
import Midl.Text.Utf8
import Midl.Token
import Midl.Token.Lexer
import Midl.Token.Pull
import Midl.Token.Run
import Midl.Token.Scan
import Midl.Token.Stream
