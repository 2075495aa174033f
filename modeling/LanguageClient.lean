import LanguageClient.Config.File
import LanguageClient.Proofs.Config.Overrides
import LanguageClient.Proofs.Document.History
import LanguageClient.Proofs.Document.ServerCopy
import LanguageClient.Proofs.Frame.Remainders
import LanguageClient.Proofs.Message.Classification
import LanguageClient.Proofs.Message.Diagnostics
import LanguageClient.Proofs.Path.Display
import LanguageClient.Proofs.Path.Walks
import LanguageClient.Proofs.Session.AtRest
import LanguageClient.Proofs.Session.EditOrder
import LanguageClient.Proofs.Session.EditRaces
import LanguageClient.Proofs.Session.Endings
import LanguageClient.Proofs.Session.FailedNotices
import LanguageClient.Proofs.Session.Journal
import LanguageClient.Proofs.Session.NamedFiles
import LanguageClient.Proofs.Session.Requests
import LanguageClient.Proofs.Session.ServerRequests
import LanguageClient.Proofs.Session.ShutdownOrder
import LanguageClient.Proofs.Session.WorkspaceEdits
import LanguageClient.Proofs.Text.Boundaries
import LanguageClient.Proofs.Text.BreakRoundTrips
import LanguageClient.Proofs.Text.Insertions
import LanguageClient.Proofs.Text.Inverses
import LanguageClient.Proofs.Text.Ranges
import LanguageClient.Proofs.Text.Reorderings
import LanguageClient.Proofs.Text.Snippets
import LanguageClient.Proofs.Text.Substitution
import LanguageClient.Proofs.Workspace.Conventions
import LanguageClient.Proofs.Workspace.EditRuns
import LanguageClient.Proofs.Workspace.RelativeRoots
import LanguageClient.Proofs.Workspace.Targets
import LanguageClient.Proofs.Workspace.UntouchedLines
import LanguageClient.Rehearsal.Cue
import LanguageClient.Rehearsal.ProgramServer
import LanguageClient.Text.Snippet
import LanguageClient.Workspace.Memory
import LanguageClient.Workspace.Tree
import LanguageClient.Proofs.Session.Clocks
import LanguageClient.Proofs.Session.Fates
import LanguageClient.Proofs.Session.Sendings
import LanguageClient.Proofs.Session.Exclusion
import LanguageClient.Proofs.Session.Timing
import LanguageClient.Proofs.Session.Starts
import LanguageClient.Proofs.Session.OpenDocuments
import LanguageClient.Proofs.Session.Syncs
import LanguageClient.Proofs.Document.Settled
import LanguageClient.Proofs.Session.SyncCalls
import LanguageClient.Proofs.Session.SyncedEndings
import LanguageClient.Proofs.Session.SyncOrder
import LanguageClient.Proofs.Session.DiagnosticWaits
import LanguageClient.Proofs.Uri.RoundTrip
