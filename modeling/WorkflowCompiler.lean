import WorkflowCompiler.Collaborators.Backend
import WorkflowCompiler.Library.Nesting
import WorkflowCompiler.Main
import WorkflowCompiler.Proofs.Entries
import WorkflowCompiler.Proofs.Node.Making
import WorkflowCompiler.Proofs.Wiring.Slots
import WorkflowCompiler.Proofs.Wiring.Sorting
import WorkflowCompiler.Proofs.Wiring.Regions
import WorkflowCompiler.Proofs.Compile.Brackets
import WorkflowCompiler.Proofs.Compile.Folding
import WorkflowCompiler.Proofs.Node.Bare
import WorkflowCompiler.Proofs.Node.Branches
import WorkflowCompiler.Proofs.Registry
import WorkflowCompiler.Proofs.Session
import WorkflowCompiler.Proofs.Compile.Building
import WorkflowCompiler.Proofs.Wiring.Wired
import WorkflowCompiler.Proofs.Compile.Connecting
import WorkflowCompiler.Proofs.Node.Collecting
import WorkflowCompiler.Proofs.Compile.Recovery
import WorkflowCompiler.Proofs.Compile.Ranking
import WorkflowCompiler.Proofs.Node.Kinds
import WorkflowCompiler.Proofs.Compile.Reading
import WorkflowCompiler.Proofs.Compile.Places
import WorkflowCompiler.Proofs.Compile.Arranging
import WorkflowCompiler.Proofs.Wiring.Lanes
import WorkflowCompiler.Proofs.Compile.Matching
import WorkflowCompiler.Proofs.Compile.Sequencing
import WorkflowCompiler.Proofs.Compile.Straightening
import WorkflowCompiler.Proofs.Compile.Scanning
import WorkflowCompiler.Proofs.Compile.Structured
import WorkflowCompiler.Proofs.Node.Emitting
import WorkflowCompiler.Proofs.Node.Embedding
import WorkflowCompiler.Proofs.Compile.Emitting
import WorkflowCompiler.Proofs.Compile.Correctness
import WorkflowCompiler.Proofs.Node.Nesting
import WorkflowCompiler.Proofs.Compile.Phases
import WorkflowCompiler.Proofs.Compile.Moments
import WorkflowCompiler.Proofs.Node.Checking
import WorkflowCompiler.Proofs.Compile.Showing
import WorkflowCompiler.Proofs.Compile.Agreeing
import WorkflowCompiler.Proofs.Compile.Containment
import WorkflowCompiler.Proofs.Compile.Scoping
import WorkflowCompiler.Proofs.Compile.Siblings
import WorkflowCompiler.Proofs.Wiring.Handing
import WorkflowCompiler.Proofs.Compile.Remaining
import WorkflowCompiler.Proofs.Compile.Incoming
import WorkflowCompiler.Proofs.Compile.Closed
import WorkflowCompiler.Proofs.Compile.Forkless
import WorkflowCompiler.Proofs.Node.Depending
import WorkflowCompiler.Proofs.Compile.Resources
import WorkflowCompiler.Proofs.Editor.Encoding
import WorkflowCompiler.Proofs.Library.Restoring
import WorkflowCompiler.Proofs.Library.Cloning
import WorkflowCompiler.Proofs.Library.Resolving
import WorkflowCompiler.Proofs.Library.Inlined
import WorkflowCompiler.Proofs.Condition.Reading
import WorkflowCompiler.Proofs.Editor.Rewriting
import WorkflowCompiler.Proofs.Flow.Saving
import WorkflowCompiler.Proofs.Wiring.Cycles
import WorkflowCompiler.Proofs.Wiring.Collapsing
import WorkflowCompiler.Proofs.Wiring.Mirroring
import WorkflowCompiler.Proofs.Compile.Shuffling
import WorkflowCompiler.Proofs.Compile.Reordering
import WorkflowCompiler.Proofs.Wiring.Grouping
import WorkflowCompiler.Proofs.Compile.Balancing
import WorkflowCompiler.Proofs.Compile.Assigning
import WorkflowCompiler.Proofs.Compile.Accepting
import WorkflowCompiler.Proofs.Compile.Entering
import WorkflowCompiler.Proofs.Flow.Checking
import WorkflowCompiler.Proofs.Node.Cases
import WorkflowCompiler.Proofs.Condition.Folding
import WorkflowCompiler.Proofs.Condition.Literals
import WorkflowCompiler.Proofs.Node.CaseKeys
