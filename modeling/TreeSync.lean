import TreeSync.CommandLine.Reading
import TreeSync.CommandLine.Run
import TreeSync.Git.Setup
import TreeSync.Main
import TreeSync.Proofs.CommandLine.Reading
import TreeSync.Proofs.Engine.Literal
import TreeSync.Proofs.Engine.Shim
import TreeSync.Proofs.Filter.Matching
import TreeSync.Proofs.Filter.Reading
import TreeSync.Proofs.Ignore.Brackets
import TreeSync.Proofs.Ignore.Directory
import TreeSync.Proofs.Ignore.Glob
import TreeSync.Proofs.Ignore.Line
import TreeSync.Proofs.Ignore.Naming
import TreeSync.Proofs.Ignore.Subdirectories
import TreeSync.Proofs.Ignore.Verdict
import TreeSync.Proofs.Machine.Action
import TreeSync.Proofs.Machine.Barrier
import TreeSync.Proofs.Machine.Interleaving
import TreeSync.Proofs.Shell.Reading
import TreeSync.Proofs.Tree.Path
import TreeSync.Proofs.Ignore.Concatenation
import TreeSync.Proofs.Disk.Entries
import TreeSync.Proofs.Disk.Walk
import TreeSync.Proofs.Disk.Directory
import TreeSync.Proofs.Disk.Operation
import TreeSync.Proofs.Machine.Polling
import TreeSync.Proofs.Session.Status
import TreeSync.Proofs.Session.Closing
import TreeSync.Proofs.Machine.Files
import TreeSync.Proofs.Session.Opening
import TreeSync.Proofs.Session.Engine
import TreeSync.Proofs.Session.Dormant
import TreeSync.Proofs.Session.Race
import TreeSync.Proofs.Ignore.Listing
import TreeSync.Proofs.Ignore.Quoting
import TreeSync.Proofs.Session.Target
import TreeSync.Proofs.Session.LockFile
import TreeSync.Proofs.Ignore.Escaping
import TreeSync.Proofs.Ignore.PlainPath
import TreeSync.Proofs.Pattern.Joining
import TreeSync.Proofs.Pattern.Members
import TreeSync.Proofs.Ignore.Counting
import TreeSync.Proofs.Ignore.Placing
import TreeSync.Proofs.Ignore.Negation
import TreeSync.Proofs.Disk.Absence
import TreeSync.Proofs.Ignore.Lagging
import TreeSync.Proofs.Session.Refusing
import TreeSync.Proofs.Session.Failing
import TreeSync.Proofs.Disk.Replacement
import TreeSync.Proofs.Machine.Atomic
import TreeSync.Proofs.Session.RemotePath
import TreeSync.Proofs.Session.Layering
import TreeSync.Proofs.Text.Trimming
import TreeSync.Proofs.Ignore.Source
import TreeSync.Proofs.CommandLine.Remote
import TreeSync.Proofs.Text.Order
import TreeSync.Proofs.Git.Index
import TreeSync.Proofs.Tree.Components
import TreeSync.Proofs.Ignore.Tracked
import TreeSync.Proofs.Session.PidFile
import TreeSync.Proofs.Machine.Deadline
import TreeSync.Proofs.Tree.Parents
import TreeSync.Proofs.Pattern.Body
