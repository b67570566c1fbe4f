import LuaFront.Text.Bytes
import LuaFront.Text.Blank
import LuaFront.Text.Shown
import LuaFront.Text.Utf8
import LuaFront.Token.Kind
import LuaFront.Token.Basic
import LuaFront.Token.DocComment
import LuaFront.Position.LineTable
import LuaFront.Diagnostic.Basic
import LuaFront.Diagnostic.Log
import LuaFront.Diagnostic.Listing
import LuaFront.Lexeme.Basic
import LuaFront.Lexeme.Word
import LuaFront.Lexeme.Numeral
import LuaFront.Lexeme.LongBracket
import LuaFront.Lexeme.Quoted
import LuaFront.Lexeme.Gap
import LuaFront.Lexeme.Reader
import LuaFront.Lexeme.Stream
import LuaFront.Syntax.Operator
import LuaFront.Syntax.Separated
import LuaFront.Syntax.Tree
import LuaFront.Syntax.Node
import LuaFront.Syntax.NodeKind
import LuaFront.Syntax.Extent
import LuaFront.Syntax.NormalForm
import LuaFront.Syntax.StringValue
import LuaFront.Grammar.Cursor
import LuaFront.Grammar.Parse
import LuaFront.Grammar.Level
import LuaFront.Grammar.Expression
import LuaFront.Grammar.Statement
import LuaFront.Grammar.Chunk
import LuaFront.Traversal.Walk
import LuaFront.Traversal.Path
import LuaFront.Scope.Binding
import LuaFront.Scope.Reach
import LuaFront.Scope.Enclosing
import LuaFront.Scope.Resolve
import LuaFront.Editor.JsonToken
import LuaFront.Editor.Settings
import LuaFront.Editor.Document
import LuaFront.Editor.Occurrence
import LuaFront.Editor.Hover
import LuaFront.Editor.Suggestion
import LuaFront.Editor.Problem
import LuaFront.Editor.Workspace
import LuaFront.Proofs.Text.Cuts
import LuaFront.Proofs.Text.Encoded
import LuaFront.Proofs.Position.Columns
import LuaFront.Proofs.Position.Lines
import LuaFront.Proofs.Position.Places
import LuaFront.Proofs.Tree.Marks
import LuaFront.Proofs.Tree.Layout
import LuaFront.Proofs.Tree.Listed
import LuaFront.Proofs.Tree.Form
import LuaFront.Proofs.Tree.Leading
import LuaFront.Proofs.Tree.Levels
import LuaFront.Proofs.Parser.Reading
import LuaFront.Proofs.Parser.Limit
import LuaFront.Proofs.Parser.Reached
import LuaFront.Proofs.Parser.Ensures
import LuaFront.Proofs.Parser.Leading
import LuaFront.Proofs.Parser.Levels
import LuaFront.Proofs.Parser.Expressions
import LuaFront.Proofs.Parser.Statements
import LuaFront.Proofs.Parser.Chunks
import LuaFront.Proofs.Lexeme.Tokens
import LuaFront.Proofs.Lexeme.Tiling
import LuaFront.Proofs.Lexeme.Lines
import LuaFront.Proofs.Lexeme.Words
import LuaFront.Proofs.Chunk.Lossless
import LuaFront.Proofs.Chunk.Spans
import LuaFront.Proofs.Chunk.Completeness
import LuaFront.Proofs.Traversal.Locate
import LuaFront.Proofs.Scope.Lexical
import LuaFront.Proofs.Scope.Declared
import LuaFront.Proofs.Scope.Tidy
import LuaFront.Proofs.Scope.Frames
import LuaFront.Proofs.Scope.Branches
import LuaFront.Proofs.Scope.Resolution
import LuaFront.Proofs.Editor.Occurrences
import LuaFront.Proofs.Acceptance.Phrases
import LuaFront.Proofs.Acceptance.Chains
import LuaFront.Proofs.Parser.Steady
import LuaFront.Proofs.Parser.Depth
import LuaFront.Proofs.Acceptance.Running
import LuaFront.Proofs.Acceptance.Fronts
import LuaFront.Proofs.Acceptance.Levels
import LuaFront.Proofs.Acceptance.Expressions
import LuaFront.Proofs.Acceptance.Statements
import LuaFront.Proofs.Chunk.Acceptance
import LuaFront.Proofs.Chunk.Depth
import LuaFront.Proofs.Chunk.Leading
import LuaFront.Proofs.Chunk.Limit
import LuaFront.Proofs.Scope.Behind
import LuaFront.Proofs.Editor.Suggestions
import LuaFront.Proofs.Tree.Displaced
import LuaFront.Proofs.Parser.Moves
import LuaFront.Proofs.Parser.Displaced
import LuaFront.Proofs.Tree.Bare
import LuaFront.Proofs.Chunk.Displaced
import LuaFront.Proofs.Lexeme.Reports
import LuaFront.Proofs.Lexeme.Escapes
import LuaFront.Proofs.Chunk.Reports
import LuaFront.Proofs.Editor.Problems
import LuaFront.Proofs.Editor.History
import LuaFront.Proofs.Traversal.Leaves
import LuaFront.Proofs.Tree.Grouping
import LuaFront.Proofs.Parser.Grouping
import LuaFront.Proofs.Parser.Bounds
import LuaFront.Proofs.Parser.Floor
import LuaFront.Proofs.Parser.Progress
import LuaFront.Proofs.Parser.Excerpt
import LuaFront.Proofs.Parser.Followed
import LuaFront.Proofs.Parser.Echoes
import LuaFront.Proofs.Lexeme.Joined
import LuaFront.Proofs.Lexeme.Shifted
import LuaFront.Proofs.Parser.Outermost
import LuaFront.Proofs.Chunk.Within
import LuaFront.Proofs.Chunk.Stray
import LuaFront.Proofs.Parser.Speculation
import LuaFront.Proofs.Parser.Targets
import LuaFront.Proofs.Chunk.CutOff
import LuaFront.Proofs.Scope.Visible
import LuaFront.Proofs.Editor.Listing
import LuaFront.Proofs.Chunk.Apart
import LuaFront.Proofs.Scope.Ordered
import LuaFront.Proofs.Parser.Quiet
import LuaFront.Proofs.Parser.Ended
import LuaFront.Proofs.Parser.Inversion
import LuaFront.Proofs.Scope.Unclosed
import LuaFront.Proofs.Scope.Displaced
import LuaFront.Proofs.Parser.Gates
import LuaFront.Proofs.Parser.Behind
import LuaFront.Proofs.Parser.Bodies
import LuaFront.Proofs.Parser.Heads
import LuaFront.Proofs.Lexeme.Stacked
import LuaFront.Proofs.Chunk.Open
import LuaFront.Proofs.Chunk.Unfolding
import LuaFront.Proofs.Lexeme.Alone
import LuaFront.Proofs.Lexeme.Brackets
import LuaFront.Proofs.Lexeme.Documented
import LuaFront.Proofs.Lexeme.Errors
import LuaFront.Proofs.Lexeme.Quotes
import LuaFront.Proofs.Lexeme.Numerals
import LuaFront.Proofs.Lexeme.Legible
import LuaFront.Proofs.Parser.Bases
import LuaFront.Proofs.NormalForm.Erased
import LuaFront.Proofs.NormalForm.Lexed
import LuaFront.Proofs.NormalForm.Holding
import LuaFront.Proofs.NormalForm.Phrases
import LuaFront.Proofs.NormalForm.Reading
import LuaFront.Proofs.NormalForm.Written
import LuaFront.Proofs.NormalForm.ReadBack
import LuaFront.Proofs.Parser.Rewind
import LuaFront.Proofs.Parser.Unfailing
import LuaFront.Proofs.Traversal.Descent
