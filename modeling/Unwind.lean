import Unwind.Inspect
import Unwind.Reach
import Unwind.Trace
import Unwind.Proofs.Admission
import Unwind.Proofs.Narrowing
import Unwind.Proofs.Runs
import Unwind.Proofs.FirstMatch
import Unwind.Proofs.Vanishing
import Unwind.Proofs.FinallyRoute
import Unwind.Proofs.Resume
import Unwind.Proofs.JumpRoute
import Unwind.Proofs.Reachability
import Unwind.Proofs.Coverage
import Unwind.Proofs.Canonical
import Unwind.Proofs.Depth
import Unwind.Proofs.Precision
import Unwind.Proofs.AbruptExit
import Unwind.Proofs.ClassSets
import Unwind.Proofs.Construction
import Unwind.Proofs.LinkOrder
import Unwind.Proofs.Lattice
import Unwind.Proofs.Splitting
import Unwind.Proofs.Effects
import Unwind.Proofs.Frame
import Unwind.Proofs.ClassForest
import Unwind.Proofs.OrdinaryOutcome
import Unwind.Proofs.SuccessorOrder
import Unwind.Proofs.StackSuffix
import Unwind.Proofs.Traversal
