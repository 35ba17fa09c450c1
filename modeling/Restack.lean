import Restack.Main
import Restack.Proofs.Check
import Restack.Proofs.DeclaredUse
import Restack.Proofs.Equality
import Restack.Proofs.Machine
import Restack.Proofs.Progress
import Restack.Proofs.StrictRun
import Restack.Proofs.Substitution
import Restack.Proofs.Typing
import Restack.Proofs.Unification
import Restack.Proofs.Valuation
import Restack.Proofs.WordStep
import Restack.Proofs.Words
import Restack.Proofs.Inference
import Restack.Proofs.Mirror
import Restack.Proofs.Conservation
import Restack.Proofs.Replay
import Restack.Proofs.CallBound
import Restack.Proofs.MostGeneral
import Restack.Proofs.Prediction
import Restack.Proofs.Lockstep
import Restack.Proofs.Concatenation
import Restack.Proofs.Depth
import Restack.Proofs.Environment
import Restack.Proofs.Inheritance
import Restack.Proofs.Reading
import Restack.Proofs.StrictFrame
import Restack.Proofs.LenientExtension
import Restack.Proofs.CleanReconstruction
import Restack.Proofs.RoundTrip
import Restack.Proofs.Stream
import Restack.Proofs.AssignmentOrder
import Restack.Proofs.Principal
import Restack.Proofs.Renaming
import Restack.Proofs.QuotedText
import Restack.Proofs.JoinedText
import Restack.Proofs.OperandSearch
import Restack.Proofs.SkippedRecord
import Restack.Proofs.Verbatim
import Restack.Proofs.ByteScan
import Restack.Proofs.Positions
import Restack.Proofs.CanonicalForm
import Restack.Proofs.FreshNames
import Restack.Proofs.Freshening
import Restack.Proofs.Recursion
import Restack.Proofs.Loop
import Restack.Proofs.CellAccounting
import Restack.Proofs.Reconstruction
import Restack.Proofs.OperandFaults
import Restack.Proofs.TableFrame
