import Packrat.Proofs.Accounting
import Packrat.Proofs.ActiveSkipper
import Packrat.Proofs.Breakout
import Packrat.Proofs.Caret
import Packrat.Proofs.Clamping
import Packrat.Proofs.Fatality
import Packrat.Proofs.Forward
import Packrat.Proofs.History
import Packrat.Proofs.Inclusion
import Packrat.Proofs.Intake
import Packrat.Proofs.Isolation
import Packrat.Proofs.LineAt
import Packrat.Proofs.LineText
import Packrat.Proofs.Literal
import Packrat.Proofs.Looping
import Packrat.Proofs.OneAnswer
import Packrat.Proofs.OrderedChoice
import Packrat.Proofs.Prediction
import Packrat.Proofs.ReadingOrder
import Packrat.Proofs.Registration
import Packrat.Proofs.Skipping
import Packrat.Proofs.Skips
import Packrat.Proofs.Soundness
import Packrat.Proofs.Speculation
import Packrat.Proofs.Transparency
import Packrat.Proofs.Work
import Packrat.Script.Session
