import Rulebook.Binary64
import Rulebook.Equality
import Rulebook.Eval.Context
import Rulebook.Library.Standard
import Rulebook.Program.Display
import Rulebook.Recipe
import Rulebook.Proofs.Eval.Ensures
import Rulebook.Proofs.Eval.Plain
import Rulebook.Proofs.Eval.Simulation
import Rulebook.Proofs.Eval.Retention
import Rulebook.Proofs.Program.Edit
import Rulebook.Proofs.Program.Typing
import Rulebook.Proofs.Program.Extension
import Rulebook.Proofs.Program.WellFormed
import Rulebook.Proofs.Eval.Discipline
import Rulebook.Proofs.Eval.Failures
import Rulebook.Proofs.Eval.TypeSafety
import Rulebook.Proofs.Eval.Memoization
import Rulebook.Proofs.Program.Acceptance
import Rulebook.Proofs.Eval.Given
import Rulebook.Proofs.Eval.Following
import Rulebook.Proofs.Eval.Sharing
import Rulebook.Proofs.Eval.Repetition
import Rulebook.Proofs.Program.Operation
import Rulebook.Proofs.Program.Naming
import Rulebook.Proofs.Eval.Mirroring
import Rulebook.Proofs.Eval.Isolation
import Rulebook.Proofs.Eval.Lagging
import Rulebook.Proofs.Eval.Deepening
import Rulebook.Proofs.Eval.History
import Rulebook.Proofs.Eval.HostRuns
import Rulebook.Proofs.Eval.Termination
import Rulebook.Proofs.Program.Locals
import Rulebook.Proofs.Eval.Endless
import Rulebook.Proofs.Eval.Scope
import Rulebook.Proofs.Library.Registration
import Rulebook.Proofs.Program.Atomicity
import Rulebook.Proofs.Program.InstallationOrder
import Rulebook.Proofs.Eval.Counting
import Rulebook.Proofs.Library.Typing
import Rulebook.Proofs.PathFollowing
import Rulebook.Proofs.Library.SequenceLaws
import Rulebook.Proofs.Value.Equality
import Rulebook.Proofs.Program.Literals
import Rulebook.Proofs.Value.Construction
