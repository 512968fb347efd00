import Predictive.Settings
import Predictive.SymbolTable
import Predictive.Grammar.Derivation
import Predictive.Grammar.Draft
import Predictive.Grammar.Numbering
import Predictive.GrammarText.Read
import Predictive.GrammarText.Backtracking
import Predictive.Lookahead.Follow
import Predictive.Table.Buffered
import Predictive.Table.Filling
import Predictive.Table.BufferedFilling
import Predictive.Table.Discovering
import Predictive.Run.Message
import Predictive.Report
import Predictive.Generation
import Predictive.Journal
import Predictive.CommandLine
import Predictive.Main
import Predictive.Proofs.Run.Soundness
import Predictive.Proofs.Run.Completeness
import Predictive.Proofs.Run.Agreement
import Predictive.Proofs.Determinism
import Predictive.Proofs.Run.LongerLookahead
import Predictive.Proofs.Run.Termination
import Predictive.Proofs.Run.Detection
import Predictive.Proofs.Lookahead.Exactness
import Predictive.Proofs.GrammarText.Written
import Predictive.Proofs.GrammarText.Parsing
import Predictive.Proofs.Table.Reachability
import Predictive.Proofs.Grammar.LeftCorner
import Predictive.Proofs.Grammar.Validation
import Predictive.Proofs.Table.Reindexing
import Predictive.Proofs.Lookahead.Concatenation
import Predictive.Proofs.Run.Invariant
import Predictive.Proofs.Grammar.Numbering
import Predictive.Proofs.Table.Cell
import Predictive.Proofs.GrammarText.Spelling
import Predictive.Proofs.GrammarText.Scanning
import Predictive.Proofs.GrammarText.Layout
import Predictive.Grammar.Feeding
import Predictive.Proofs.Grammar.History
import Predictive.Proofs.GrammarText.Replay
import Predictive.Table.Odometer
import Predictive.Proofs.Table.Odometer
import Predictive.Grammar.Marking
import Predictive.Proofs.Grammar.Marking
import Predictive.Lookahead.Joining
import Predictive.Proofs.Lookahead.Joining
