import CommittedChoice.Cells
import CommittedChoice.Config
import CommittedChoice.Config.Reader
import CommittedChoice.Event
import CommittedChoice.Expected
import CommittedChoice.GrammarError
import CommittedChoice.Input
import CommittedChoice.Json
import CommittedChoice.Outcome
import CommittedChoice.ParseError
import CommittedChoice.Parser.Basic
import CommittedChoice.Parser.Build
import CommittedChoice.Parser.Derived
import CommittedChoice.Parser.Eval
import CommittedChoice.Position
import CommittedChoice.Run
import CommittedChoice.Run.Combinators
import CommittedChoice.State
import CommittedChoice.Text.Case.Context
import CommittedChoice.Text.Case.Lower
import CommittedChoice.Text.Case.Run
import CommittedChoice.Text.Case.Upper
import CommittedChoice.Text.Case.Words
import CommittedChoice.Text.Parsers
import CommittedChoice.Text.Range
import CommittedChoice.Text.WhiteSpace
import CommittedChoice.Proofs.Bookmarks
import CommittedChoice.Proofs.Consumption
import CommittedChoice.Proofs.Reachable
import CommittedChoice.Proofs.CursorState
import CommittedChoice.Proofs.Agreement
import CommittedChoice.Proofs.Termination
import CommittedChoice.Proofs.Likeness
import CommittedChoice.Proofs.Coupling
import CommittedChoice.Proofs.Noninterference
import CommittedChoice.Proofs.StringsAndLists
import CommittedChoice.Proofs.ErrorCauses
import CommittedChoice.Proofs.Peg
import CommittedChoice.Proofs.Peg.Refinement
import CommittedChoice.Proofs.Diagnostics
import CommittedChoice.Proofs.Consuming
import CommittedChoice.Proofs.Compositional
import CommittedChoice.Proofs.FaultFreedom
import CommittedChoice.Proofs.FaultLog
import CommittedChoice.Proofs.Resolution
import CommittedChoice.Proofs.Positions
import CommittedChoice.Proofs.FurthestError
import CommittedChoice.Proofs.TokenYield
import CommittedChoice.Proofs.Chains
import CommittedChoice.Proofs.SeparatedLists
import CommittedChoice.Proofs.ListEndings
import CommittedChoice.Proofs.GuardedGrammars
import CommittedChoice.Proofs.ListLanguages
import CommittedChoice.Proofs.ChoiceGroups
import CommittedChoice.Proofs.LenientRepetition
import CommittedChoice.Proofs.Sequencing
import CommittedChoice.Proofs.StaticExpectations
import CommittedChoice.Proofs.RepetitionFolds
import CommittedChoice.Proofs.Speculation
import CommittedChoice.Proofs.MaximalMunch
import CommittedChoice.Proofs.AnyCase
import CommittedChoice.Proofs.Welding
import CommittedChoice.Proofs.Reports
import CommittedChoice.Proofs.CaseSpellings
