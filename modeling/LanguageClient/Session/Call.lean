import LanguageClient.Event.Bus
import LanguageClient.Message.Diagnostic
import LanguageClient.Session.Command
import LanguageClient.Workspace.Edits

/-!
# Calls

What a user of the client can ask for, what comes out of it, and where a call stands in
between. A call proceeds in steps; between two of them anything else may happen.
-/

namespace LanguageClient

inductive Query where
  | hover (position : Position)
  | definition (position : Position)
  | references (position : Position) (includeDeclaration : Bool)
  | completion (position : Position)
  | documentSymbols
  | rename (position : Position) (newName : String)
  | formatting (tabSize : Nat) (insertSpaces : Bool)
  deriving DecidableEq, Repr

namespace Query

def method : Query → String
  | .hover _ => "textDocument/hover"
  | .definition _ => "textDocument/definition"
  | .references .. => "textDocument/references"
  | .completion _ => "textDocument/completion"
  | .documentSymbols => "textDocument/documentSymbol"
  | .rename .. => "textDocument/rename"
  | .formatting .. => "textDocument/formatting"

def details : Query → List (String × Json)
  | .hover p | .definition p => [("position", p.toJson)]
  | .references p includeDeclaration =>
    [("position", p.toJson),
     ("context", Json.ofMembers [("includeDeclaration", .bool includeDeclaration)])]
  | .completion p =>
    [("position", p.toJson), ("context", Json.ofMembers [("triggerKind", Json.ofNat 1)])]
  | .documentSymbols => []
  | .rename p newName => [("position", p.toJson), ("newName", .str newName)]
  | .formatting tabSize insertSpaces =>
    [("options", Json.ofMembers
      [("tabSize", Json.ofNat tabSize), ("insertSpaces", .bool insertSpaces)])]

def params (q : Query) (uri : String) : Json :=
  Json.ofMembers (("textDocument", Json.ofMembers [("uri", .str uri)]) :: q.details)

end Query

inductive Launch where
  | streams
  /-- A process of the configured command, unless the system refuses to launch it. -/
  | process (refused : Option LaunchFailure)
  deriving DecidableEq, Repr

def Launch.isProcess : Launch → Bool
  | .streams => false
  | .process _ => true

inductive View where
  | list (uri : String)
  | all
  /-- Flattened, for one file. -/
  | items (uri : String) (file : Text)
  | allItems
  deriving DecidableEq, Repr

inductive Operation where
  | start (launch : Launch)
  | stop (force : Bool)
  | request (method : String) (params : Json) (timeout : Option Nat)
  | notify (method : String) (params : Json)
  | sync (name : Text)
  | close (name : Text)
  | query (name : Text) (q : Query)
  | diagnostics (name : Text)
  | allDiagnostics
  | diagnosticItems (name : Text)
  | allDiagnosticItems
  | waitForDiagnostics (name : Text) (timeout : Nat)
  | applyEdits (name : Text) (edits : List TextEdit) (context : EditContext)
  | applyWorkspaceEdit (edit : WorkspaceEdit) (context : EditContext)
  | status
  | capabilities
  deriving DecidableEq, Repr

structure SessionStatus where
  running : Bool
  initialized : Bool
  process : Bool
  serverName : String
  openDocuments : Nat
  pendingRequests : Nat
  deriving DecidableEq, Repr

inductive Value where
  | unit
  | json (v : Json)
  | bool (b : Bool)
  | synced (s : SyncedDocument)
  | list (diagnostics : List Json)
  | lists (diagnostics : List (String × List Json))
  | items (items : List DiagnosticItem)
  | file (r : FileEditResult)
  | files (r : WorkspaceEditResult)
  | status (s : SessionStatus)
  | capabilities (v : Option Json)

abbrev Outcome := Except Failure Value

structure EditJob where
  remaining : List EditTarget
  /-- What became of the files before it, the last one first. -/
  finished : List FileEditResult
  /-- Whether the whole set is the result, and not its only file. -/
  whole : Bool
  deriving DecidableEq, Repr

inductive AfterSync where
  | answer
  | ask (q : Query)
  /-- The file was just written; the job goes on with this result. -/
  | save (job : EditJob) (result : FileEditResult)
  deriving DecidableEq, Repr

/-- Where a call stands. Connections are given by their number, deadlines as moments. -/
inductive Task where
  | starting (launch : Launch)
  /-- Has asked the server to introduce itself. -/
  | introducing (connection number deadline : Nat)
  /-- Has told the server that the introduction is over. -/
  | announcing (connection : Nat)
  | aborting (reason : Failure)
  | stopping (force : Bool)
  | shuttingDown (connection : Nat) (force : Bool) (number deadline : Nat)
  | exiting (connection : Nat) (force : Bool)
  | terminating
  | requesting (connection number : Nat) (method : String) (timeout deadline : Nat)
  | notifying
  /-- Is about to read a file that is to be synced. -/
  | reading (connection : Nat) (name : Text) (next : AfterSync)
  /-- Has read the file. -/
  | handing (connection : Nat) (input : SyncInput) (next : AfterSync)
  | syncing (next : AfterSync)
  | closing
  | listing (view : View)
  | waiting (uri : String) (subscription : Subscription) (deadline : Nat)
  | counting (connection : Nat)
  | editing (job : EditJob) (stage : EditStage)
  /-- Has asked whether the server has a file open that was just written. -/
  | checking (job : EditJob) (result : FileEditResult)
  /-- Has told the server that the file was saved. -/
  | saving (job : EditJob) (result : FileEditResult)
  | done (outcome : Outcome)

structure Call where
  task : Task
  /-- How many questions it has asked. -/
  serial : Nat
  /-- The answer to the last one, if it has come. -/
  mailbox : Option Answer
  cancelled : Bool

namespace Call

def fresh : Call := ⟨.done (.ok .unit), 0, none, false⟩

def outcome? (c : Call) : Option Outcome :=
  match c.task with
  | .done r => some r
  | _ => none

end Call
end LanguageClient
