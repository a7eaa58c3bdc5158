import TolerantSql.Command.Options
import TolerantSql.Command.Run
import TolerantSql.Grammar.ColumnDefinition
import TolerantSql.Grammar.Expression
import TolerantSql.Grammar.Level
import TolerantSql.Grammar.Parse
import TolerantSql.Grammar.Query
import TolerantSql.Grammar.Rule
import TolerantSql.Grammar.State
import TolerantSql.Grammar.Statement
import TolerantSql.Grammar.TokenClass
import TolerantSql.Highlight.Color
import TolerantSql.Highlight.Theme
import TolerantSql.Highlight.Transform
import TolerantSql.Json.Basic
import TolerantSql.Json.Encode
import TolerantSql.Keyword
import TolerantSql.Log
import TolerantSql.Main
import TolerantSql.Proofs.Adjacency
import TolerantSql.Proofs.CaseIndependence
import TolerantSql.Proofs.CheckedCursor
import TolerantSql.Proofs.CheckedScanning
import TolerantSql.Proofs.ColumnCompleteness
import TolerantSql.Proofs.ColumnGrammar
import TolerantSql.Proofs.ColumnRuns
import TolerantSql.Proofs.CommaAccounts
import TolerantSql.Proofs.CommaLists
import TolerantSql.Proofs.CommentConservation
import TolerantSql.Proofs.Confinement
import TolerantSql.Proofs.CursorSafety
import TolerantSql.Proofs.DepthCutOff
import TolerantSql.Proofs.EndOfInput
import TolerantSql.Proofs.ExpressionCompleteness
import TolerantSql.Proofs.ExpressionGrammar
import TolerantSql.Proofs.FirstLeaf
import TolerantSql.Proofs.FrameNesting
import TolerantSql.Proofs.GivenTokens
import TolerantSql.Proofs.GrammarAdjacency
import TolerantSql.Proofs.GrammarNodes
import TolerantSql.Proofs.GrammarProgress
import TolerantSql.Proofs.Highlighting
import TolerantSql.Proofs.LetterCase
import TolerantSql.Proofs.LexicalGrammar
import TolerantSql.Proofs.Lexing
import TolerantSql.Proofs.LongestMatch
import TolerantSql.Proofs.LookaheadWindow
import TolerantSql.Proofs.LosslessLexing
import TolerantSql.Proofs.MaximalMunch
import TolerantSql.Proofs.NestedTransforms
import TolerantSql.Proofs.NestingBound
import TolerantSql.Proofs.NodePlaces
import TolerantSql.Proofs.NumberGrammar
import TolerantSql.Proofs.NumberMunch
import TolerantSql.Proofs.ParallelRuns
import TolerantSql.Proofs.PhraseRuns
import TolerantSql.Proofs.Precedence
import TolerantSql.Proofs.Quoting
import TolerantSql.Proofs.Reading
import TolerantSql.Proofs.Recursion
import TolerantSql.Proofs.Relexing
import TolerantSql.Proofs.Resynchronization
import TolerantSql.Proofs.RoundTrip
import TolerantSql.Proofs.RuleInduction
import TolerantSql.Proofs.RuleRuns
import TolerantSql.Proofs.SkippedTokens
import TolerantSql.Proofs.StatementBoundaries
import TolerantSql.Proofs.StatementIndependence
import TolerantSql.Proofs.StatementTokens
import TolerantSql.Proofs.TakenTokens
import TolerantSql.Proofs.Termination
import TolerantSql.Proofs.TokenCharacters
import TolerantSql.Proofs.TokenConservation
import TolerantSql.Proofs.TokenFusion
import TolerantSql.Proofs.TokenGrammar
import TolerantSql.Proofs.TokenMunch
import TolerantSql.Proofs.TokenPairs
import TolerantSql.Proofs.TokenSpelling
import TolerantSql.Proofs.TreeLines
import TolerantSql.Proofs.TreeMatching
import TolerantSql.Proofs.TreeNodes
import TolerantSql.Proofs.TriviaIndependence
import TolerantSql.Proofs.Unfolding
import TolerantSql.Proofs.WrappedQueries
import TolerantSql.Span
import TolerantSql.Statement
import TolerantSql.Text.Quoted
import TolerantSql.Text.Unprintable
import TolerantSql.Text.Utf8
import TolerantSql.Token.Basic
import TolerantSql.Token.Cursor
import TolerantSql.Token.Kind
import TolerantSql.Token.LexError
import TolerantSql.Token.Lexer
import TolerantSql.Token.Stream
import TolerantSql.Tree.Basic
import TolerantSql.Tree.Comments
import TolerantSql.Tree.Kind
import TolerantSql.Tree.Printer
