import StyleEngine.Document.View
import StyleEngine.Proofs.Computation.Winner
import StyleEngine.Proofs.Matching.Session
import StyleEngine.Proofs.Pass.Follow
import StyleEngine.Proofs.Style.Difference
import StyleEngine.Style.FieldName
import StyleEngine.UserAgent.Sheet
import StyleEngine.Proofs.Matching.Relink
import StyleEngine.Proofs.Pass.Relink
import StyleEngine.Proofs.Matching.Completeness
import StyleEngine.Proofs.Cascade.Lookup
import StyleEngine.Proofs.Pass.RootFont
import StyleEngine.Proofs.Pass.Redeclare
import StyleEngine.Proofs.Style.Handle
import StyleEngine.Proofs.Style.Shortcut
import StyleEngine.Proofs.Style.Named
import StyleEngine.Proofs.Style.Pool
import StyleEngine.Proofs.Pass.Stock
import StyleEngine.Proofs.Pass.FontSize
import StyleEngine.Proofs.Pass.Walk
import StyleEngine.Proofs.Pass.Outcome
import StyleEngine.Proofs.Computation.Declared
import StyleEngine.Proofs.Cascade.Signature
import StyleEngine.Proofs.Pass.Descent
import StyleEngine.Proofs.Pass.Along
import StyleEngine.Proofs.Pass.Twins
import StyleEngine.Proofs.Pass.Sharing
import StyleEngine.Proofs.Computation.Adjust
import StyleEngine.Proofs.Pass.Adjust
import StyleEngine.Proofs.Style.Itself
import StyleEngine.Proofs.Matching.Negation
import StyleEngine.Proofs.Tree.Siblings
import StyleEngine.Proofs.Matching.Position
import StyleEngine.Proofs.Computation.Accepted
import StyleEngine.Proofs.Computation.Misfit
import StyleEngine.Proofs.Style.Compact
import StyleEngine.Proofs.Pass.Decoration
import StyleEngine.Proofs.Matching.Arrangement
import StyleEngine.Proofs.Matching.Language
import StyleEngine.Proofs.Style.Pseudo
import StyleEngine.Proofs.Pass.Window
