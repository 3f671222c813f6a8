import TreeShell.Main
import TreeShell.Proofs.Session.Fetch
import TreeShell.Proofs.Session.Restart
import TreeShell.Proofs.Tree.Replaced
import TreeShell.Proofs.Tree.Folders
import TreeShell.Proofs.Tree.Unfold
import TreeShell.Proofs.Tree.Grown
import TreeShell.Proofs.Backend.Listing
import TreeShell.Proofs.Backend.Walk
import TreeShell.Proofs.Command.Ending
import TreeShell.Proofs.Service.Gallery
import TreeShell.Proofs.Session.Log
import TreeShell.Proofs.Session.Failure
import TreeShell.Proofs.Backend.Table
import TreeShell.Proofs.Backend.StorageRoundTrip
import TreeShell.Proofs.Backend.RepositoryRoundTrip
import TreeShell.Proofs.Snapshot.Literal
import TreeShell.Proofs.Snapshot.Document
import TreeShell.Proofs.Snapshot.Passed
import TreeShell.Proofs.Snapshot.Meaning
import TreeShell.Proofs.Snapshot.Reading
import TreeShell.Proofs.Command.Blind
import TreeShell.Proofs.Command.ReadOnly
import TreeShell.Proofs.Session.Interference
import TreeShell.Proofs.Command.Directory
import TreeShell.Proofs.Session.WorkingDirectory
import TreeShell.Proofs.Program.Seeding
import TreeShell.Proofs.Command.SignIn
import TreeShell.Proofs.Session.SignIn
import TreeShell.Proofs.Backend.Spelling
import TreeShell.Proofs.Session.Listed
import TreeShell.Proofs.Path.Relative
import TreeShell.Proofs.Command.Words
import TreeShell.Proofs.Tree.Prefixes
import TreeShell.Proofs.Session.Stepwise
import TreeShell.Proofs.Session.Arrival
import TreeShell.Proofs.Editor.Cycling
import TreeShell.Proofs.Editor.Scrollback
import TreeShell.Proofs.Editor.Completed
import TreeShell.Proofs.Command.Routing
import TreeShell.Proofs.Tree.Grafted
import TreeShell.Proofs.Backend.Collisions
import TreeShell.Proofs.Session.Links
import TreeShell.Proofs.Session.Numbers
import TreeShell.Proofs.Editor.Replaced
import TreeShell.Proofs.Session.Console
import TreeShell.Proofs.Tree.Loop
import TreeShell.Proofs.Backend.Finite
import TreeShell.Proofs.Command.Dispatch
import TreeShell.Proofs.Text.Component
import TreeShell.Proofs.Session.Preview
import TreeShell.Proofs.Session.Home
import TreeShell.Proofs.Command.Layout
import TreeShell.Proofs.Service.Registrations
import TreeShell.Proofs.Tree.Edits
import TreeShell.Proofs.Backend.Produced
