import LanguageClient.Event.Bus
import LanguageClient.Frame.Decoder
import LanguageClient.Message.Incoming
import LanguageClient.Message.ServerRequest
import LanguageClient.Session.Command

/-!
# Connections

A connection owns what belongs to one running server: the queue of commands, the messages
that have come in, the table of unanswered requests and the open documents. It serves one
command or one message at a time. However it ends, it ends in the same way: every unanswered
request fails with the same error, the documents are forgotten, queued commands are dropped,
and one last event is published.
-/

namespace LanguageClient

inductive Signal where
  | terminate
  | kill
  deriving DecidableEq, Repr

inductive Grace where
  /-- It may still go by itself. -/
  | leaving
  | signalled
  /-- It has been killed; there is no limit any more. -/
  | killed
  deriving DecidableEq, Repr

inductive Phase where
  | serving
  /-- The server's stream has ended; its process may still report an exit code. -/
  | reaping (deadline : Nat)
  /-- The process has exited; what it wrote before is still taken in. -/
  | draining (deadline : Nat) (code : Option Int)
  | terminating (force : Bool) (ticket : Ticket) (grace : Grace) (deadline : Nat)
  | ended
  deriving DecidableEq, Repr

/-- The process behind a connection: running, or exited with a code, if it had one. -/
inductive Process where
  | running
  | exited (code : Option Int)
  deriving DecidableEq, Repr

structure Connection where
  phase : Phase
  commands : List Command
  inbound : List Inbound
  /-- The end of the server's stream that is no complete frame yet. -/
  buffer : Bytes
  reading : Bool
  pending : Table Nat Ticket
  store : DocumentStore
  /-- Whether the server still takes what is written. -/
  writable : Bool
  initialized : Bool
  stopping : Bool
  launched : Bool
  /-- The process, as long as the connection looks after it. -/
  process : Option Process
  signals : List Signal
  /-- Everything written to the server, in order. -/
  written : List Outgoing

structure Emitted where
  answers : List (Ticket × Answer)
  events : List Event

namespace Emitted

def nothing : Emitted := ⟨[], []⟩

def answer (t : Ticket) (a : Answer) : Emitted := ⟨[(t, a)], []⟩

def event (e : Event) : Emitted := ⟨[], [e]⟩

end Emitted

namespace Connection

def drainGrace : Nat := 250

def exitGrace : Nat := 1500

def killGrace : Nat := 2000

def new (launched : Bool) : Connection where
  phase := .serving
  commands := []
  inbound := []
  buffer := []
  reading := true
  pending := .empty
  store := .empty
  writable := true
  initialized := false
  stopping := false
  launched
  process := if launched then some .running else none
  signals := []
  written := []

def isAlive (c : Connection) : Bool :=
  c.phase != .ended

/-!
## Writing
-/

/-- Writes a frame. Nothing is written to a server that no longer reads. -/
def write (c : Connection) (out : Outgoing) : Connection × Except Failure Unit :=
  if c.writable then ({ c with written := c.written ++ [out] }, .ok ())
  else (c, .error (.transport .brokenPipe))

def cancelNotice (number : Nat) : Message :=
  .notification "$/cancelRequest" (Json.ofMembers [("id", Json.ofNat number)])

/-!
## The end
-/

/-- The error that unanswered requests get: whether the client wanted the end decides it. -/
def endError (c : Connection) (code : Option Int) : Failure :=
  if c.stopping then .serverStopped else .serverExited code

def endEvent (c : Connection) (code : Option Int) : Event :=
  if c.stopping then .stopped else .exited code

def teardown (c : Connection) (code : Option Int) : Connection × Emitted :=
  let failed :=
    c.pending.entries.map fun (_, t) => (t, Answer.response (.error (c.endError code)))
  let dropped := (c.commands.filterMap Command.ticket?).map fun t => (t, Answer.dropped)
  ({ c with
      phase := .ended
      commands := []
      inbound := []
      reading := false
      pending := .empty
      store := .empty
      initialized := false
      process := none },
    ⟨failed ++ dropped, [c.endEvent code]⟩)

def teardownFor (c : Connection) (t : Ticket) (code : Option Int) : Connection × Emitted :=
  let (c, e) := c.teardown code
  (c, { e with answers := (t, .terminated) :: e.answers })

/-!
## Serving commands
-/

def serve (now : Nat) (c : Connection) : Command → Connection × Emitted
  | .request number method params t =>
    if c.pending.contains number then
      (c, .answer t (.response (.error (.transport (.inFlight number)))))
    else
      let c := { c with pending := c.pending.insert number t }
      match c.write (.message (.request number method params)) with
      | (c, .ok ()) => (c, .nothing)
      | (c, .error e) =>
        ({ c with pending := c.pending.erase number }, .answer t (.response (.error e)))
  | .abandon number =>
    if c.pending.contains number then
      let c := { c with pending := c.pending.erase number }
      ((c.write (.message (cancelNotice number))).1, .nothing)
    else (c, .nothing)
  | .notify message t =>
    let (c, r) := c.write (.message message)
    (c, .answer t (.written r))
  | .sync input t =>
    let (store, synced, notification) := c.store.sync input
    let c := { c with store }
    match notification with
    | none => (c, .answer t (.synced (.ok synced)))
    | some m =>
      let (c, r) := c.write (.message m)
      (c, .answer t (.synced (r.map fun () => synced)))
  | .close uri t =>
    let (store, notification) := c.store.close uri
    let c := { c with store }
    match notification with
    | none => (c, .answer t (.closed (.ok false)))
    | some m =>
      let (c, r) := c.write (.message m)
      (c, .answer t (.closed (r.map fun () => true)))
  | .isOpen uri t => (c, .answer t (.isOpen (c.store.isOpen uri)))
  | .diagnostics (some uri) t =>
    (c, .answer t (.diagnostics [(uri, c.store.diagnosticsOf uri)]))
  | .diagnostics none t => (c, .answer t (.diagnostics c.store.diagnostics.entries))
  | .status t => (c, .answer t (.counts c.store.size c.pending.size))
  | .terminate force t =>
    match c.process with
    | none => c.teardownFor t none
    | some _ => ({ c with phase := .terminating force t .leaving (now + exitGrace) }, .nothing)

/-!
## Taking in messages
-/

def userMessage (make : Nat → String → Event) (params : Json) : Event :=
  make ((((params.get? "type").bind Json.word?).getD 4) % 256)
    (((params.get? "message").bind Json.str?).getD "")

def takeNotification (c : Connection) (method : String) (params : Json) :
    Connection × Emitted :=
  if method = "textDocument/publishDiagnostics" then
    match c.store.publish params with
    | (_, none) => (c, .nothing)
    | (store, some p) => ({ c with store }, .event (.diagnostics p.uri p.version p.count))
  else if method = "window/logMessage" then (c, .event (userMessage .logMessage params))
  else if method = "window/showMessage" then (c, .event (userMessage .showMessage params))
  else if method = "$/progress" then
    (c, .event (.progress ((params.get? "token").getD .null)
      ((params.get? "value").getD .null)))
  else (c, .nothing)

def dispatch (folder : String × String) (c : Connection) (message : Json) :
    Connection × Emitted :=
  match Incoming.classify message with
  | .response id outcome =>
    match Incoming.number? id with
    | none => (c, .nothing)
    | some number =>
      match c.pending.get? number with
      | none => (c, .nothing)
      | some t =>
        ({ c with pending := c.pending.erase number },
          .answer t (.response (outcome.mapError fun e =>
            .serverError e.code e.message e.data)))
  | .request id method params =>
    let answer := ServerRequest.answer method params folder.1 folder.2
    ((c.write (.reply (ServerRequest.reply id answer))).1, .nothing)
  | .notification method params => c.takeNotification method params
  | .invalid => (c, .nothing)

/-!
## Steps
-/

def stepCommand (now : Nat) (c : Connection) : Option (Connection × Emitted) :=
  match c.phase, c.commands with
  | .serving, command :: rest => some (serve now { c with commands := rest } command)
  | _, _ => none

/-- Takes in the first message in the queue. At the end of the stream, the process gets a
moment to report its exit code. -/
def stepInbound (now : Nat) (folder : String × String) (c : Connection) :
    Option (Connection × Emitted) :=
  match c.phase, c.inbound with
  | .serving, .message v :: rest => some (dispatch folder { c with inbound := rest } v)
  | .serving, .ended :: rest =>
    let c := { c with inbound := rest }
    match c.process with
    | none => some (c.teardown none)
    | some _ => some ({ c with phase := .reaping (now + drainGrace) }, .nothing)
  | .draining _ _, .message v :: rest => some (dispatch folder { c with inbound := rest } v)
  | .draining _ code, .ended :: _ => some (c.teardown code)
  | _, _ => none

def stepExit (now : Nat) (c : Connection) : Option (Connection × Emitted) :=
  match c.process, c.phase with
  | some (.exited code), .serving =>
    some ({ c with phase := .draining (now + drainGrace) code, process := none }, .nothing)
  | some (.exited code), .reaping _ => some (c.teardown code)
  | some (.exited code), .terminating _ t _ _ => some (c.teardownFor t code)
  | _, _ => none

def signal (c : Connection) (s : Signal) : Connection :=
  { c with signals := c.signals ++ [s] }

def stepDeadline (now : Nat) (c : Connection) : Option (Connection × Emitted) :=
  match c.phase with
  | .reaping deadline =>
    if deadline ≤ now then some ((c.signal .kill).teardown none) else none
  | .draining deadline code => if deadline ≤ now then some (c.teardown code) else none
  | .terminating force t .leaving deadline =>
    if deadline ≤ now then
      let c := c.signal (if force then .kill else .terminate)
      some ({ c with phase := .terminating force t .signalled (now + killGrace) }, .nothing)
    else none
  | .terminating force t .signalled deadline =>
    if deadline ≤ now then
      some ({ c.signal .kill with phase := .terminating force t .killed deadline }, .nothing)
    else none
  | _ => none

def deadline? (c : Connection) : Option Nat :=
  match c.phase with
  | .reaping deadline | .draining deadline _ => some deadline
  | .terminating _ _ .leaving deadline | .terminating _ _ .signalled deadline => some deadline
  | _ => none

/-!
## The world
-/

def bodyLimit : Nat := Frame.defaultLimit

def receive (c : Connection) (bytes : Bytes) : Connection :=
  if c.reading then
    match Frame.drain bodyLimit (c.buffer ++ bytes) with
    | some (messages, buffer) =>
      { c with buffer, inbound := c.inbound ++ messages.map .message }
    | none => { c with reading := false, inbound := c.inbound ++ [.ended] }
  else c

def hangUp (c : Connection) : Connection :=
  if c.reading then { c with reading := false, buffer := [], inbound := c.inbound ++ [.ended] }
  else c

def breakPipe (c : Connection) : Connection :=
  { c with writable := false }

def exit (c : Connection) (code : Option Int) : Connection :=
  match c.process with
  | some .running => { c with process := some (.exited code) }
  | _ => c

end Connection
end LanguageClient
