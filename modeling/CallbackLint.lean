import CallbackLint.Main
import CallbackLint.Report.Received
import CallbackLint.Concrete.Assembly
import CallbackLint.Proofs.Rose.Context
import CallbackLint.Proofs.Rose.Places
import CallbackLint.Proofs.Rose.Traversal
import CallbackLint.Proofs.Rose.Rounds
import CallbackLint.Proofs.Rose.Bracketing
import CallbackLint.Proofs.Rose.Lineage
import CallbackLint.Proofs.Syntax.Links
import CallbackLint.Proofs.Syntax.Layout
import CallbackLint.Proofs.Syntax.Building
import CallbackLint.Proofs.Syntax.WellFormed
import CallbackLint.Proofs.Syntax.Editing
import CallbackLint.Proofs.Rule.Scopes
import CallbackLint.Proofs.Rule.Run
import CallbackLint.Proofs.Rule.Decision
import CallbackLint.Proofs.Rule.Ladder
import CallbackLint.Proofs.Rule.Sightings
import CallbackLint.Proofs.Rule.Recursion
import CallbackLint.Proofs.Rule.Locality
import CallbackLint.Proofs.Rule.Sequence
import CallbackLint.Proofs.Rule.Advice
import CallbackLint.Proofs.Rule.Likeness
import CallbackLint.Proofs.Text.Utf8
import CallbackLint.Proofs.Text.Encoding
import CallbackLint.Proofs.Concrete.Reading
import CallbackLint.Proofs.Concrete.Table
import CallbackLint.Proofs.Concrete.Ledger
import CallbackLint.Proofs.Concrete.Shape
import CallbackLint.Proofs.Concrete.Matching
import CallbackLint.Proofs.Concrete.Agreement
import CallbackLint.Proofs.Concrete.Order
import CallbackLint.Proofs.Concrete.Assembly
import CallbackLint.Proofs.Concrete.WellFormed
import CallbackLint.Proofs.Concrete.Replacement
import CallbackLint.Proofs.Concrete.Transparency
import CallbackLint.Proofs.Concrete.Omission
import CallbackLint.Proofs.Concrete.Surroundings
import CallbackLint.Proofs.Concrete.Callee
import CallbackLint.Proofs.Concrete.Naming
import CallbackLint.Proofs.Concrete.Positions
import CallbackLint.Proofs.Concrete.Origins
import CallbackLint.Proofs.Concrete.Ancestry
import CallbackLint.Proofs.Concrete.Account
import CallbackLint.Proofs.Concrete.Correspondence
import CallbackLint.Proofs.Files.Listing
import CallbackLint.Proofs.Files.Access
import CallbackLint.Proofs.Files.Order
import CallbackLint.Proofs.Files.Difference
import CallbackLint.Proofs.Pattern.Glob
import CallbackLint.Proofs.Discovery.Selection
import CallbackLint.Proofs.Discovery.Nesting
import CallbackLint.Proofs.Discovery.Difference
import CallbackLint.Proofs.Discovery.Narrowing
import CallbackLint.Proofs.Checking.Folder
import CallbackLint.Proofs.Settings.Names
import CallbackLint.Proofs.Settings.Identifiers
import CallbackLint.Proofs.Rule.Encounters
import CallbackLint.Proofs.Command.Check
import CallbackLint.Proofs.Settings.Loading
import CallbackLint.Proofs.Report.Reading
import CallbackLint.Proofs.Report.RoundTrip
import CallbackLint.Proofs.Report.Document
import CallbackLint.Proofs.Report.Lines
import CallbackLint.Proofs.Settings.Dumping
import CallbackLint.Proofs.Rule.FrameStack
import CallbackLint.Proofs.Rose.Moments
import CallbackLint.Proofs.Syntax.Construction
import CallbackLint.Proofs.Syntax.Navigation
