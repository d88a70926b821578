import IdlFrontEnd.Main
import IdlFrontEnd.Proofs.BuildOrder
import IdlFrontEnd.Proofs.CommandLine
import IdlFrontEnd.Proofs.Grammar.Progress
import IdlFrontEnd.Proofs.Grammar.ReadBack
import IdlFrontEnd.Proofs.Lookup
import IdlFrontEnd.Proofs.Preprocessed
import IdlFrontEnd.Proofs.Resolution
import IdlFrontEnd.Proofs.Token.Coverage
import IdlFrontEnd.Proofs.Token.Separated
import IdlFrontEnd.Proofs.Unit.Declared
import IdlFrontEnd.Proofs.Unit.Exported
import IdlFrontEnd.Proofs.Unit.ImportOrder
import IdlFrontEnd.Proofs.Unit.Listing
import IdlFrontEnd.Proofs.TypeExpr.Requests
import IdlFrontEnd.Proofs.BuildReports
import IdlFrontEnd.Proofs.BuildEffects
import IdlFrontEnd.Proofs.Check.ConstantRules
import IdlFrontEnd.Proofs.Unit.Oneway
import IdlFrontEnd.Proofs.BuildRequests
import IdlFrontEnd.Proofs.Grammar.Recovery
import IdlFrontEnd.Proofs.Unit.ImportReports
import IdlFrontEnd.Proofs.Grammar.BrokenMembers
import IdlFrontEnd.Proofs.Grammar.Literal
import IdlFrontEnd.Proofs.Preprocessed.Line
import IdlFrontEnd.Proofs.Unit.Placement
import IdlFrontEnd.Proofs.Source.History
import IdlFrontEnd.Proofs.Text.Layout
import IdlFrontEnd.Proofs.Unit.Lossless
import IdlFrontEnd.Proofs.Grammar.Nesting
