import Reckoner.Text.Quoted
import Reckoner.Text.Lines
import Reckoner.Text.Digit
import Reckoner.Text.Utf8
import Reckoner.Decimal.Numeral
import Reckoner.Decimal.Layout
import Reckoner.Token.Scan
import Reckoner.Evaluate
import Reckoner.Worker
import Reckoner.File.Source
import Reckoner.Batch.Run
import Reckoner.CommandLine.Run
import Reckoner.Record.Definition
import Reckoner.Tree
import Reckoner.Main
import Reckoner.Proofs.OnePass
import Reckoner.Proofs.TreeOrder
import Reckoner.Proofs.RoundTrip
import Reckoner.Proofs.Reports
import Reckoner.Proofs.Finite
import Reckoner.Proofs.Containment
import Reckoner.Proofs.Acceptance
import Reckoner.Proofs.Handovers
import Reckoner.Proofs.Legality
import Reckoner.Proofs.Tokenization
import Reckoner.Proofs.Agreement
import Reckoner.Proofs.Conservation
import Reckoner.Proofs.Verdicts
import Reckoner.Proofs.Groups
import Reckoner.Proofs.PolishText
import Reckoner.Proofs.Spacing
import Reckoner.Proofs.Readback
import Reckoner.Proofs.Occupancy
import Reckoner.Proofs.Numbering
import Reckoner.Proofs.Destinations
import Reckoner.Proofs.Unread
import Reckoner.Proofs.Segments
import Reckoner.Proofs.Backtracking
