import LanguageClient.Config.Settings
import LanguageClient.Document.Language
import LanguageClient.Message.Capabilities
import LanguageClient.Number.ByteCount
import LanguageClient.Session.Call
import LanguageClient.Session.Connection

/-!
# Sessions

A session drives at most one server at a time. It holds everything that calls share: the
settings, the workspace, the events, the numbers of requests, the turns of those calls that
start or stop a server, and every connection there has been. This module says how calls
reach connections and each other; what each call does is in the module on steps.
-/

namespace LanguageClient

structure Session (D : Type) where
  settings : Settings
  processId : Nat
  workspace : Workspace D
  bus : EventBus
  /-- The present moment, in milliseconds. -/
  now : Nat
  nextNumber : Nat
  /-- The calls that start or stop a server; the first one has its turn. -/
  turns : List Nat
  /-- The connection that calls use. -/
  current : Option Nat
  capabilities : Option Json
  connections : List Connection
  calls : List Call

namespace Session

variable {D : Type}

def new (settings : Settings) (processId : Nat) (workspace : Workspace D) : Session D where
  settings
  processId
  workspace
  bus := .empty
  now := 0
  nextNumber := 1
  turns := []
  current := none
  capabilities := none
  connections := []
  calls := []

/-!
## Connections
-/

def connection? (s : Session D) (k : Nat) : Option Connection :=
  s.connections[k]?

def setConnection (s : Session D) (k : Nat) (c : Connection) : Session D :=
  { s with connections := s.connections.set k c }

def modifyConnection (s : Session D) (k : Nat) (f : Connection → Connection) : Session D :=
  { s with connections := s.connections.modify k f }

def isAlive (s : Session D) (k : Nat) : Bool :=
  match s.connection? k with
  | some c => c.isAlive
  | none => false

def alive? (s : Session D) : Option Nat :=
  s.current.filter s.isAlive

/-- The current connection, if the server has introduced itself and is still there. -/
def ready? (s : Session D) : Option Nat :=
  s.alive?.filter fun k =>
    match s.connection? k with
    | some c => c.initialized
    | none => false

def reset (s : Session D) : Session D :=
  { s with current := none, capabilities := none }

def launch (s : Session D) (launched : Bool) : Session D :=
  { s with
      connections := s.connections ++ [Connection.new launched]
      current := some s.connections.length }

/-- Queues a command, if the connection is alive. -/
def enqueue (s : Session D) (k : Nat) (command : Command) : Session D :=
  if s.isAlive k then
    s.modifyConnection k fun c => { c with commands := c.commands ++ [command] }
  else s

/-!
## Calls
-/

def call? (s : Session D) (id : Nat) : Option Call :=
  s.calls[id]?

def modifyCall (s : Session D) (id : Nat) (f : Call → Call) : Session D :=
  { s with calls := s.calls.modify id f }

def setTask (s : Session D) (id : Nat) (task : Task) : Session D :=
  s.modifyCall id fun call => { call with task }

def finish (s : Session D) (id : Nat) (outcome : Outcome) : Session D :=
  { s with turns := s.turns.erase id }.setTask id (.done outcome)

def deliver (s : Session D) (t : Ticket) (a : Answer) : Session D :=
  s.modifyCall t.call fun call =>
    if call.serial = t.serial then { call with mailbox := some a } else call

def emit (s : Session D) (e : Emitted) : Session D :=
  let s := e.answers.foldl (fun s (t, a) => s.deliver t a) s
  { s with bus := e.events.foldl EventBus.publish s.bus }

/-- Asks a connection a question and waits for the answer; a connection
that has ended drops it. -/
def ask (s : Session D) (id k : Nat) (question : Ticket → Command) (task : Task) : Session D :=
  match s.call? id with
  | none => s
  | some call =>
    let ticket : Ticket := ⟨id, call.serial + 1⟩
    let mailbox := if s.isAlive k then none else some Answer.dropped
    (s.modifyCall id fun call => { call with task, serial := ticket.serial, mailbox }).enqueue
      k (question ticket)

def sendRequest (s : Session D) (id k : Nat) (method : String) (params : Json) (timeout : Nat)
    (task : (number deadline : Nat) → Task) : Session D :=
  let number := s.nextNumber
  { s with nextNumber := number + 1 }.ask id k (.request number method params)
    (task number (s.now + timeout))

def sendNotification (s : Session D) (id k : Nat) (method : String) (params : Json)
    (task : Task) :
    Session D :=
  s.ask id k (.notify (.notification method params)) task

/-!
## Introductions
-/

def clientName : String := "lsp-bridge"

def clientVersion : String := "0.1.0"

def introduction (s : Session D) : Json :=
  let settings := s.settings
  Json.ofMembers ([
    ("processId", Json.ofNat s.processId),
    ("clientInfo",
      Json.ofMembers [("name", .str clientName), ("version", .str clientVersion)]),
    ("rootUri", .str settings.rootUri),
    ("rootPath", .str (String.ofList settings.rootPath.display)),
    ("workspaceFolders", ServerRequest.folders settings.rootUri settings.workspaceName),
    ("capabilities", clientCapabilities)] ++
    settings.initializationOptions.toList.map (("initializationOptions", ·)))

/-!
## Reading files
-/

def readFile [FileSystem D] (s : Session D) (name : Text) : Except Failure SyncInput := do
  let path ← s.workspace.locate name
  match ← s.workspace.stat path with
  | none => .error (.fileNotFound path)
  | some stat =>
    if !stat.isFile then .error (.notAFile path)
    else if s.settings.maxFileBytes < stat.size then
      .error (.fileTooLarge path (ByteCount.render stat.size)
        (ByteCount.render s.settings.maxFileBytes))
    else
      match (← s.workspace.read path).text? with
      | none => .error (.fileNotFound path)
      | some content =>
        let (text, lineEnding) := LineEnding.normalize content
        return {
          uri := String.ofList (FileUri.ofPath path)
          path
          text
          hash := contentHash text
          languageId := Language.ofPath path
          lineEnding }

def documentUri (s : Session D) (name : Text) : Except Failure String := do
  return String.ofList (FileUri.ofPath (← s.workspace.locate name))

end Session
end LanguageClient
