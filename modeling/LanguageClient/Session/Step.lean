import LanguageClient.Session.Basic

/-!
# Steps of a session

A session moves in small steps: a call begins or goes on, a connection serves a command or
takes in a message, the server sends or goes away, time passes. Steps of different calls and
connections may interleave in any way.
-/

namespace LanguageClient

namespace Session

variable {D : Type} [FileSystem D]

/-!
## Going on after a part is done
-/

def continueJob (s : Session D) (id : Nat) (job : EditJob) (result : FileEditResult) :
    Session D :=
  let finished := result :: job.finished
  match job.remaining with
  | target :: remaining =>
    s.setTask id (.editing { job with remaining, finished } (.snapshot target))
  | [] =>
    s.finish id (.ok (if job.whole then .files ⟨finished.reverse⟩ else .file result))

def checkOpen (s : Session D) (id : Nat) (job : EditJob) (result : FileEditResult) :
    Session D :=
  match s.ready? with
  | none => s.continueJob id job result
  | some k =>
    s.ask id k (.isOpen (String.ofList (FileUri.ofPath result.path))) (.checking job result)

def syncFailed (s : Session D) (id : Nat) (next : AfterSync) (e : Failure) : Session D :=
  match next with
  | .save job result => s.continueJob id job result
  | .answer | .ask _ => s.finish id (.error e)

def startSync (s : Session D) (id : Nat) (name : Text) (next : AfterSync) : Session D :=
  match s.ready? with
  | none => s.syncFailed id next .notInitialized
  | some k => s.setTask id (.reading k name next)

def didSave (path : Path) : Json :=
  Json.ofMembers [("textDocument", Json.ofMembers
    [("uri", .str (String.ofList (FileUri.ofPath path)))])]

def syncSucceeded (s : Session D) (id : Nat) (next : AfterSync) (synced : SyncedDocument) :
    Session D :=
  match next with
  | .answer => s.finish id (.ok (.synced synced))
  | .ask q =>
    match s.ready? with
    | none => s.finish id (.error .notInitialized)
    | some k =>
      let timeout := s.settings.defaultTimeoutMs
      s.sendRequest id k q.method (q.params synced.document.uri) timeout
        fun number deadline => .requesting k number q.method timeout deadline
  | .save job result =>
    let result := { result with syncedVersion := some synced.document.version }
    match s.ready? with
    | none => s.continueJob id job result
    | some k =>
      s.sendNotification id k "textDocument/didSave" (didSave result.path) (.saving job result)

def list (s : Session D) (id : Nat) (view : View) : Session D :=
  match s.ready? with
  | none => s.finish id (.error .notInitialized)
  | some k =>
    let uri := match view with
      | .list uri | .items uri _ => some uri
      | .all | .allItems => none
    s.ask id k (.diagnostics uri) (.listing view)

def viewed (serverName : String) (lists : List (String × List Json)) : View → Value
  | .list uri => .list ((Table.find? uri lists).getD [])
  | .all => .lists lists
  | .items uri file =>
    .items (DiagnosticItem.flatten file ((Table.find? uri lists).getD []) serverName)
  | .allItems =>
    let items := lists.flatMap fun (uri, diagnostics) =>
      let file := match FileUri.toPath? uri.toList with
        | some p => p.display
        | none => uri.toList
      DiagnosticItem.flatten file diagnostics serverName
    .items (items.mergeSort DiagnosticItem.le)

def abort (s : Session D) (id k : Nat) (reason : Failure) : Session D :=
  (s.modifyConnection k fun c => { c with stopping := true }).ask id k (.terminate true)
    (.aborting reason)

def start (s : Session D) (id : Nat) (launch : Launch) : Session D :=
  if s.alive?.isSome then s.finish id (.error .alreadyRunning)
  else
    let s := if s.current.isSome then s.reset else s
    let refused : Option LaunchFailure := match launch with
      | .streams => none
      | .process refused =>
        if Blank.isEmpty s.settings.command.toList then some .blankCommand else refused
    match refused with
    | some reason => s.finish id (.error (.launch s.settings.command reason))
    | none =>
      let k := s.connections.length
      let s := s.launch launch.isProcess
      s.sendRequest id k "initialize" s.introduction s.settings.defaultTimeoutMs
        fun number deadline => .introducing k number deadline

def shutdownTimeout : Nat := 5000

def terminate (s : Session D) (id k : Nat) (force : Bool) : Session D :=
  s.ask id k (.terminate force) .terminating

def sendExit (s : Session D) (id k : Nat) (force : Bool) : Session D :=
  s.sendNotification id k "exit" .null (.exiting k force)

def stop (s : Session D) (id : Nat) (force : Bool) : Session D :=
  match s.current with
  | none => s.finish id (.ok .unit)
  | some k =>
    match s.connection? k with
    | some c =>
      if c.isAlive then
        let s := s.setConnection k { c with stopping := true }
        if c.initialized then
          s.sendRequest id k "shutdown" .null shutdownTimeout
            fun number deadline => .shuttingDown k force number deadline
        else s.terminate id k force
      else s.reset.finish id (.ok .unit)
    | none => s.reset.finish id (.ok .unit)

/-!
## Beginning a call
-/

def begin (s : Session D) (id : Nat) : Operation → Session D
  | .start launch => { s with turns := s.turns ++ [id] }.setTask id (.starting launch)
  | .stop force => { s with turns := s.turns ++ [id] }.setTask id (.stopping force)
  | .request method params timeout =>
    match s.ready? with
    | none => s.finish id (.error .notInitialized)
    | some k =>
      let timeout := (timeout.map Limit.requestTimeout).getD s.settings.defaultTimeoutMs
      s.sendRequest id k method params timeout
        fun number deadline => .requesting k number method timeout deadline
  | .notify method params =>
    match s.ready? with
    | none => s.finish id (.error .notInitialized)
    | some k => s.sendNotification id k method params .notifying
  | .sync name => s.startSync id name .answer
  | .query name q => s.startSync id name (.ask q)
  | .close name =>
    match s.ready?, s.documentUri name with
    | none, _ => s.finish id (.error .notInitialized)
    | some _, .error e => s.finish id (.error e)
    | some k, .ok uri => s.ask id k (.close uri) .closing
  | .diagnostics name =>
    match s.ready?, s.documentUri name with
    | none, _ => s.finish id (.error .notInitialized)
    | some _, .error e => s.finish id (.error e)
    | some _, .ok uri => s.list id (.list uri)
  | .allDiagnostics => s.list id .all
  | .diagnosticItems name =>
    match s.workspace.locate name with
    | .error e => s.finish id (.error e)
    | .ok path => s.list id (.items (String.ofList (FileUri.ofPath path)) path.display)
  | .allDiagnosticItems => s.list id .allItems
  | .waitForDiagnostics name timeout =>
    match s.ready?, s.documentUri name with
    | none, _ => s.finish id (.error .notInitialized)
    | some _, .error e => s.finish id (.error e)
    | some _, .ok uri =>
      s.setTask id (.waiting uri s.bus.subscribe (s.now + Limit.requestTimeout timeout))
  | .applyEdits name edits context =>
    if s.settings.allowWrites then
      s.setTask id (.editing ⟨[], [], false⟩ (.snapshot ⟨name, edits, context⟩))
    else s.finish id (.error .writesDisabled)
  | .applyWorkspaceEdit edit context =>
    if s.settings.allowWrites then
      match edit.targets context with
      | .error e => s.finish id (.error e)
      | .ok [] => s.finish id (.ok (.files ⟨[]⟩))
      | .ok (target :: remaining) =>
        s.setTask id (.editing ⟨remaining, [], true⟩ (.snapshot target))
    else s.finish id (.error .writesDisabled)
  | .status =>
    match s.alive? with
    | none => s.finish id (.ok (.status ⟨false, false, false, s.settings.serverName, 0, 0⟩))
    | some k => s.ask id k .status (.counting k)
  | .capabilities => s.finish id (.ok (.capabilities s.capabilities))

def beginCall (s : Session D) (op : Operation) : Session D :=
  { s with calls := s.calls ++ [Call.fresh] }.begin s.calls.length op

/-!
## Going on with a call
-/

def abandon (s : Session D) (k number : Nat) : Session D :=
  s.enqueue k (.abandon number)

def status (s : Session D) (k : Nat) (documents requests : Nat) : SessionStatus :=
  let c := s.connection? k
  { running := true
    initialized := (c.map (·.initialized)).getD false
    process := (c.map (·.launched)).getD false
    serverName := s.settings.serverName
    openDocuments := documents
    pendingRequests := requests }

/-- The next step of a call that stands at `task`; nothing if it has to wait. Of
several reasons to go on, withdrawal by the user counts before an answer, and an
answer before a deadline. -/
def stepTask (s : Session D) (id : Nat) (call : Call) : Task → Option (Session D)
  | .starting launch => if s.turns.head? = some id then some (s.start id launch) else none
  | .introducing k number deadline =>
    match call.mailbox with
    | some (.response (.ok v)) =>
      let s := { s with capabilities := some ((v.get? "capabilities").getD .null) }
      some (s.sendNotification id k "initialized" (Json.ofMembers []) (.announcing k))
    | some (.response (.error e)) => some (s.abort id k e)
    | some _ => some (s.abort id k .notRunning)
    | none =>
      if deadline ≤ s.now then
        some ((s.abandon k number).abort id k
          (.requestTimeout "initialize" s.settings.defaultTimeoutMs))
      else none
  | .announcing k =>
    match call.mailbox with
    | some (.written (.ok ())) =>
      some ((s.modifyConnection k fun c => { c with initialized := true }).finish id
        (.ok .unit))
    | some (.written (.error e)) => some (s.abort id k e)
    | some _ => some (s.abort id k .notRunning)
    | none => none
  | .aborting reason =>
    match call.mailbox with
    | some _ => some (s.reset.finish id (.error reason))
    | none => none
  | .stopping force => if s.turns.head? = some id then some (s.stop id force) else none
  | .shuttingDown k force number deadline =>
    match call.mailbox with
    | some _ => some (s.sendExit id k force)
    | none =>
      if deadline ≤ s.now then some ((s.abandon k number).sendExit id k force) else none
  | .exiting k force =>
    match call.mailbox with
    | some _ => some (s.terminate id k force)
    | none => none
  | .terminating =>
    match call.mailbox with
    | some _ => some (s.reset.finish id (.ok .unit))
    | none => none
  | .requesting k number method timeout deadline =>
    if call.cancelled then
      some ((s.abandon k number).finish id (.error (.requestCancelled method)))
    else
      match call.mailbox with
      | some (.response r) => some (s.finish id (r.map .json))
      | some _ => some (s.finish id (.error .notRunning))
      | none =>
        if deadline ≤ s.now then
          some ((s.abandon k number).finish id (.error (.requestTimeout method timeout)))
        else none
  | .notifying =>
    match call.mailbox with
    | some (.written r) => some (s.finish id (r.map fun () => .unit))
    | some _ => some (s.finish id (.error .notRunning))
    | none => none
  | .reading k name next =>
    match s.readFile name with
    | .error e => some (s.syncFailed id next e)
    | .ok input => some (s.setTask id (.handing k input next))
  | .handing k input next => some (s.ask id k (.sync input) (.syncing next))
  | .syncing next =>
    match call.mailbox with
    | some (.synced (.ok synced)) => some (s.syncSucceeded id next synced)
    | some (.synced (.error e)) => some (s.syncFailed id next e)
    | some _ => some (s.syncFailed id next .notRunning)
    | none => none
  | .closing =>
    match call.mailbox with
    | some (.closed r) => some (s.finish id (r.map .bool))
    | some _ => some (s.finish id (.error .notRunning))
    | none => none
  | .listing view =>
    match call.mailbox with
    | some (.diagnostics lists) =>
      some (s.finish id (.ok (viewed s.settings.serverName lists view)))
    | some _ => some (s.finish id (.error .notRunning))
    | none => none
  | .waiting uri subscription deadline =>
    match s.bus.receive subscription with
    | (.event e, subscription) =>
      match e with
      | .diagnostics published _ _ =>
        if published = uri then some (s.list id (.list uri))
        else some (s.setTask id (.waiting uri subscription deadline))
      | .exited code => some (s.finish id (.error (.serverExited code)))
      | .stopped => some (s.finish id (.error .serverStopped))
      | _ => some (s.setTask id (.waiting uri subscription deadline))
    | (.lagged _, subscription) => some (s.setTask id (.waiting uri subscription deadline))
    | (.empty, _) => if deadline ≤ s.now then some (s.list id (.list uri)) else none
  | .counting k =>
    match call.mailbox with
    | some (.counts documents requests) =>
      some (s.finish id (.ok (.status (s.status k documents requests))))
    | some _ => some (s.finish id (.ok (.status (s.status k 0 0))))
    | none => none
  | .editing job stage =>
    match s.workspace.editStep stage with
    | .next workspace stage => some ({ s with workspace }.setTask id (.editing job stage))
    | .failed e => some (s.finish id (.error e))
    | .finished workspace result =>
      let s := { s with workspace }
      if result.changed then some (s.checkOpen id job result)
        else some (s.continueJob id job result)
  | .checking job result =>
    match call.mailbox with
    | some (.isOpen true) => some (s.startSync id result.path.display (.save job result))
    | some _ => some (s.continueJob id job result)
    | none => none
  | .saving job result =>
    match call.mailbox with
    | some _ => some (s.continueJob id job result)
    | none => none
  | .done _ => none

def stepCall (s : Session D) (id : Nat) : Option (Session D) :=
  match s.call? id with
  | some call => s.stepTask id call call.task
  | none => none

def taskDeadline? : Task → Option Nat
  | .introducing _ _ deadline | .shuttingDown _ _ _ deadline | .requesting _ _ _ _ deadline
  | .waiting _ _ deadline => some deadline
  | _ => none

/-!
## All steps
-/

def folder (s : Session D) : String × String :=
  (s.settings.rootUri, s.settings.workspaceName)

def stepConnection (s : Session D) (k : Nat)
    (step : Connection → Option (Connection × Emitted)) :
    Option (Session D) :=
  match s.connection? k with
  | none => none
  | some c => (step c).map fun (c, e) => (s.setConnection k c).emit e

inductive Action where
  | begin (op : Operation)
  /-- A call takes its next step. -/
  | goOn (call : Nat)
  /-- The user of a request withdraws it. -/
  | cancel (call : Nat)
  | serve (connection : Nat)
  | takeIn (connection : Nat)
  | noticeExit (connection : Nat)
  | expire (connection : Nat)
  | receive (connection : Nat) (bytes : Bytes)
  | hangUp (connection : Nat)
  | breakPipe (connection : Nat)
  | exit (connection : Nat) (code : Option Int)
  | elapse (ms : Nat)

/-- The session after an action; nothing if the action is not possible. -/
def act (s : Session D) : Action → Option (Session D)
  | .begin op => some (s.beginCall op)
  | .goOn id => s.stepCall id
  | .cancel id => some (s.modifyCall id fun call => { call with cancelled := true })
  | .serve k => s.stepConnection k (·.stepCommand s.now)
  | .takeIn k => s.stepConnection k (·.stepInbound s.now s.folder)
  | .noticeExit k => s.stepConnection k (·.stepExit s.now)
  | .expire k => s.stepConnection k (·.stepDeadline s.now)
  | .receive k bytes => some (s.modifyConnection k (·.receive bytes))
  | .hangUp k => some (s.modifyConnection k (·.hangUp))
  | .breakPipe k => some (s.modifyConnection k (·.breakPipe))
  | .exit k code => some (s.modifyConnection k (·.exit code))
  | .elapse ms => some { s with now := s.now + ms }

inductive Step : Session D → Session D → Prop where
  | act {s s' : Session D} (a : Action) (h : s.act a = some s') : Step s s'
  | touch (s : Session D) (disk : D) : Step s { s with workspace := { s.workspace with disk } }

inductive Reaches (s : Session D) : Session D → Prop where
  | refl : Reaches s s
  | step {t u : Session D} (h : Reaches s t) (next : Step t u) : Reaches s u

end Session
end LanguageClient
