import ScopedNames.Config
import ScopedNames.Diagnostic
import ScopedNames.Import
import ScopedNames.Json
import ScopedNames.Log
import ScopedNames.Outcome
import ScopedNames.Path
import ScopedNames.Project
import ScopedNames.Proofs.Audience
import ScopedNames.Proofs.Barrier
import ScopedNames.Proofs.Diagnostic
import ScopedNames.Proofs.Hints
import ScopedNames.Proofs.Ids
import ScopedNames.Proofs.Import.Answers
import ScopedNames.Proofs.Import.Entries
import ScopedNames.Proofs.Import.Evolution
import ScopedNames.Proofs.Import.Faithful
import ScopedNames.Proofs.Import.History
import ScopedNames.Proofs.Import.Justified
import ScopedNames.Proofs.Import.Reexport
import ScopedNames.Proofs.Import.Replay
import ScopedNames.Proofs.Import.Run
import ScopedNames.Proofs.Import.Settled
import ScopedNames.Proofs.Log.Events
import ScopedNames.Proofs.Path.Grammar
import ScopedNames.Proofs.Path.Margins
import ScopedNames.Proofs.Path.Reprinting
import ScopedNames.Proofs.Path.RoundTrip
import ScopedNames.Proofs.Project.Atomicity
import ScopedNames.Proofs.Project.Behaviour
import ScopedNames.Proofs.Project.Directive
import ScopedNames.Proofs.Project.Display
import ScopedNames.Proofs.Project.Operation
import ScopedNames.Proofs.Project.Recording
import ScopedNames.Proofs.Project.Session
import ScopedNames.Proofs.Project.Step
import ScopedNames.Proofs.Text.Edits
import ScopedNames.Proofs.Text.Pieces
import ScopedNames.Proofs.Tree.Containment
import ScopedNames.Proofs.Tree.Growth
import ScopedNames.Proofs.Tree.Nesting
import ScopedNames.Proofs.Tree.Run
import ScopedNames.Proofs.Walk.Accessibility
import ScopedNames.Proofs.Walk.Answers
import ScopedNames.Proofs.Walk.Climbing
import ScopedNames.Proofs.Walk.Descent
import ScopedNames.Proofs.Walk.Passage
import ScopedNames.Proofs.Walk.Queries
import ScopedNames.Proofs.Walk.Reasons
import ScopedNames.Registry
import ScopedNames.Text
import ScopedNames.Tree
import ScopedNames.Walk
