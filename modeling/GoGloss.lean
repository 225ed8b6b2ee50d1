import GoGloss.Lexer
import GoGloss.Tree.Outline
import GoGloss.Main
import GoGloss.Proofs.Bytes
import GoGloss.Proofs.Pieces
import GoGloss.Proofs.Layout
import GoGloss.Proofs.Lossless
import GoGloss.Proofs.LineEnds
import GoGloss.Proofs.Atoms
import GoGloss.Proofs.AtomsKept
import GoGloss.Proofs.Calls
import GoGloss.Proofs.NestingBound
import GoGloss.Proofs.Tower
import GoGloss.Proofs.Bare
import GoGloss.Proofs.Precedence
import GoGloss.Proofs.PrecedenceKept
import GoGloss.Proofs.Agreement
import GoGloss.Proofs.SameTokens
import GoGloss.Proofs.Readings
import GoGloss.Proofs.Reads
import GoGloss.Proofs.Spelling
import GoGloss.Proofs.Operations
import GoGloss.Proofs.ReadBack
import GoGloss.Proofs.Settles
import GoGloss.Proofs.Diagnosed
import GoGloss.Proofs.Shapes
import GoGloss.Proofs.Arena.Growth
import GoGloss.Proofs.Arena.History
import GoGloss.Proofs.Arena.Books
import GoGloss.Proofs.Arena.Parts
import GoGloss.Proofs.Arena.Mirror
import GoGloss.Proofs.Arena.Twin
import GoGloss.Proofs.Arena.Types
import GoGloss.Proofs.Arena.Expressions
import GoGloss.Proofs.Arena.Statements
import GoGloss.Proofs.Arena.Reading
import GoGloss.Proofs.Arena.Integrity
import GoGloss.Proofs.Arena.Inventory
import GoGloss.Proofs.Recursion.Productions
import GoGloss.Proofs.Recursion.Tracks
import GoGloss.Proofs.Recursion.Types
import GoGloss.Proofs.Recursion.Expressions
import GoGloss.Proofs.Recursion.Statements
import GoGloss.Proofs.Recursion
import GoGloss.Proofs.TrailingNewlines
import GoGloss.Proofs.Brackets
import GoGloss.Proofs.SpansKept
import GoGloss.Proofs.ImaginaryNumbers
import GoGloss.Proofs.Respelling
import GoGloss.Proofs.Verbatim
import GoGloss.Proofs.EscapeGrammar
import GoGloss.Proofs.Interfaces
import GoGloss.Proofs.ParameterGroups
import GoGloss.Proofs.Interning
import GoGloss.Proofs.LexerRuns
import GoGloss.Proofs.DataTypes
import GoGloss.Proofs.LongestMatch
import GoGloss.Proofs.HeadersSealed
import GoGloss.Proofs.ShapesKept
import GoGloss.Proofs.TypeAsParameter
import GoGloss.Proofs.Rereading
import GoGloss.Proofs.Positions
import GoGloss.Proofs.SaidByParts
