import Clausal.Clause.Instance
import Clausal.Database.Host
import Clausal.Reading.Document
import Clausal.Unification.Basic
import Clausal.Proofs.Text.Classes
import Clausal.Proofs.Token.Munch
import Clausal.Proofs.Token.Phrase
import Clausal.Proofs.Token.Run
import Clausal.Proofs.Token.Layout
import Clausal.Proofs.Token.Tiling
import Clausal.Proofs.Token.Seam
import Clausal.Proofs.Token.Escapes
import Clausal.Proofs.Token.Moved
import Clausal.Proofs.Token.Values
import Clausal.Proofs.Token.Literals
import Clausal.Proofs.Operator
import Clausal.Proofs.Reading.Resume
import Clausal.Proofs.Reading.Climbing
import Clausal.Proofs.Reading.Counter
import Clausal.Proofs.Writing.ReadBack
import Clausal.Proofs.Writing.Forms
import Clausal.Proofs.Writing.RoundTrip
import Clausal.Proofs.Writing.Leaves
import Clausal.Proofs.Writing.Listing
import Clausal.Proofs.Writing.Reread
import Clausal.Proofs.Reading.Grammar
import Clausal.Proofs.Reading.Sound
import Clausal.Proofs.Reading.Settled
import Clausal.Proofs.Reading.TwoPass
import Clausal.Proofs.Reading.Alike
import Clausal.Proofs.Reading.Local
import Clausal.Proofs.Reading.Segments
import Clausal.Proofs.Reading.Accounts
import Clausal.Proofs.Reading.Clean
import Clausal.Proofs.Reading.Moved
import Clausal.Proofs.Reading.Depth
import Clausal.Proofs.Reading.Attentive
import Clausal.Proofs.Reading.Foresight
import Clausal.Proofs.Reading.Blame
import Clausal.Proofs.Reading.Image
import Clausal.Proofs.Reading.Pieces
import Clausal.Proofs.Term.Equality
import Clausal.Proofs.Unification.Step
import Clausal.Proofs.Unification.Sound
import Clausal.Proofs.Unification.Matching
import Clausal.Proofs.Unification.Complete
import Clausal.Proofs.Unification.Combine
import Clausal.Proofs.Clause.Instance
import Clausal.Proofs.Database.Requests
import Clausal.Proofs.Database.Ledger
import Clausal.Proofs.Database.Reads
import Clausal.Proofs.Unification.Calls
import Clausal.Proofs.Unification.Termination
import Clausal.Proofs.Substitution.Circle
import Clausal.Proofs.Substitution.Expand
import Clausal.Proofs.Substitution.Walk
import Clausal.Proofs.Substitution.Mirror
import Clausal.Proofs.Unification.Extension
import Clausal.Proofs.Unification.Symmetric
import Clausal.Proofs.Clause.Update
import Clausal.Proofs.Database.Undo
import Clausal.Proofs.Substitution.FiniteMap
import Clausal.Proofs.Reading.Cursor
import Clausal.Proofs.Reading.Readers
import Clausal.Proofs.Reading.Retold
import Clausal.Proofs.Reading.Turns
import Clausal.Proofs.Reading.Passes
import Clausal.Proofs.Reading.Bounds
import Clausal.Proofs.Diagnostic.Canonical
import Clausal.Proofs.Term.Chains
