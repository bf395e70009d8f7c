import Reckoner.Main
import Reckoner.Cursor.Signed
import Reckoner.Library.Catalogue
import Reckoner.Log.Template
import Reckoner.Session
import Reckoner.Proofs.Bindings
import Reckoner.Proofs.CommandLine.Run
import Reckoner.Proofs.Contexts
import Reckoner.Proofs.Conversation
import Reckoner.Proofs.Debug
import Reckoner.Proofs.Descent
import Reckoner.Proofs.Documents.Failures
import Reckoner.Proofs.Double.Rounding
import Reckoner.Proofs.Guard
import Reckoner.Proofs.Identifiers
import Reckoner.Proofs.Json.Records
import Reckoner.Proofs.Longest
import Reckoner.Proofs.Names
import Reckoner.Proofs.NormalForm
import Reckoner.Proofs.OnePass
import Reckoner.Proofs.Outcomes
import Reckoner.Proofs.Parentheses
import Reckoner.Proofs.Positions
import Reckoner.Proofs.Power
import Reckoner.Proofs.Session.History
import Reckoner.Proofs.Shown
import Reckoner.Proofs.Spacing
import Reckoner.Proofs.Trailing
