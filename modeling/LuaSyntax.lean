import LuaSyntax.Command.FileTree
import LuaSyntax.Main
import LuaSyntax.Parser
import LuaSyntax.Proofs.Grammar
import LuaSyntax.Proofs.Outcome
import LuaSyntax.Proofs.Soundness
import LuaSyntax.Proofs.Completeness
import LuaSyntax.Proofs.Sentence
import LuaSyntax.Proofs.RoundTrip
import LuaSyntax.Proofs.Embedding
import LuaSyntax.Proofs.EmbeddedProgram
import LuaSyntax.Proofs.Lines
import LuaSyntax.Proofs.Composition
import LuaSyntax.Proofs.Insertion
import LuaSyntax.Proofs.Recovery
import LuaSyntax.Proofs.Tiling
import LuaSyntax.Proofs.Places
import LuaSyntax.Proofs.Lexicon
import LuaSyntax.Proofs.Reports
import LuaSyntax.Proofs.Salvage
import LuaSyntax.Proofs.Canonical
import LuaSyntax.Proofs.Legibility
import LuaSyntax.Proofs.Layout
import LuaSyntax.Proofs.Redaction
import LuaSyntax.Proofs.LineEndings
import LuaSyntax.Proofs.Dropped
import LuaSyntax.Proofs.Reading
import LuaSyntax.Proofs.StringSpelling
import LuaSyntax.Proofs.Coherence
import LuaSyntax.Proofs.ReadingOrder
import LuaSyntax.Proofs.Calls
import LuaSyntax.Proofs.CallOrder
import LuaSyntax.Proofs.Descent
import LuaSyntax.Proofs.Window
import LuaSyntax.Proofs.NumeralGrammar
import LuaSyntax.Proofs.NumeralValue
import LuaSyntax.Proofs.Comments
import LuaSyntax.Proofs.LineTexts
import LuaSyntax.Proofs.Unclosed
import LuaSyntax.Proofs.Adjacency
import LuaSyntax.Proofs.CommandRun
import LuaSyntax.Proofs.StringGrammar
import LuaSyntax.Proofs.Caret
import LuaSyntax.Session
import LuaSyntax.Proofs.Agreement
