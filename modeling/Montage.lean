import Montage.Document.Blank
import Montage.Host.Resource
import Montage.Json.Line
import Montage.Proofs.Aim
import Montage.Proofs.Beside
import Montage.Proofs.Complete
import Montage.Proofs.Completion
import Montage.Proofs.Consent
import Montage.Proofs.CopiedElement
import Montage.Proofs.Dangling
import Montage.Proofs.Designated
import Montage.Proofs.Difference
import Montage.Proofs.Discovery
import Montage.Proofs.Draws
import Montage.Proofs.FileList
import Montage.Proofs.Foreign
import Montage.Proofs.Hidden
import Montage.Proofs.Independent
import Montage.Proofs.Kinds
import Montage.Proofs.Lines
import Montage.Proofs.NewPages
import Montage.Proofs.Playhead
import Montage.Proofs.Remaining
import Montage.Proofs.Return
import Montage.Proofs.Rewritten
import Montage.Proofs.Segments
import Montage.Proofs.Shown
import Montage.Proofs.Tokens
import Montage.Proofs.Twice
import Montage.Proofs.Unbounded
import Montage.Proofs.Undo
