import LanguageClient.Proofs.Session.Effects

/-!
# Steps of users' calls

A call that neither starts nor stops a server works on a user's behalf. Here stands, once
and for all, what such a call does: with which effects it begins, with which effects it goes
on, and for what reason. The parts that several calls have in common, such as the sync of a
file, have relations of their own. What these calls keep is then shown case by case.
-/

namespace LanguageClient

def View.uri? : View -> Option String
  | .list uri | .items uri _ => some uri
  | .all | .allItems => none

def Operation.needsServer : Operation -> Bool
  | .request .. | .notify .. | .close _ | .diagnostics _ | .waitForDiagnostics .. => true
  | _ => false

def Operation.resolves? : Operation -> Option Text
  | .close name | .diagnostics name | .diagnosticItems name | .waitForDiagnostics name _ =>
      some name
  | _ => none

def Event.endsWait (uri : String) : Event -> Bool
  | .diagnostics published _ _ => published == uri
  | .exited _ | .stopped => true
  | .logMessage .. | .showMessage .. | .progress .. => false

def Operation.editsFiles : Operation -> Bool
  | .applyEdits .. | .applyWorkspaceEdit .. => true
  | _ => false

namespace Session

variable {D : Type}

/-!
## Parts of steps
-/

inductive Continues (job : EditJob) (result : FileEditResult) : Effect D -> Prop where
  | next (target : EditTarget) (remaining : List EditTarget)
      (more : job.remaining = target :: remaining) :
      Continues job result (.rest (.editing
        { job with remaining, finished := result :: job.finished } (.snapshot target)))
  | last (done : job.remaining = []) :
      Continues job result (.finish (.ok
        (if job.whole then .files ⟨(result :: job.finished).reverse⟩ else .file result)))

inductive ChecksOpen (s : Session D) (job : EditJob) (result : FileEditResult) :
    Effect D -> Prop where
  | asks (k : Nat) (ready : s.ready? = some k) :
      ChecksOpen s job result
        (.ask k (.isOpen (String.ofList (FileUri.ofPath result.path))) (.checking job result))
  | continues (e : Effect D) (unready : s.ready? = none) (continues : Continues job result e) :
      ChecksOpen s job result e

inductive FailsSync (failure : Failure) : AfterSync -> Effect D -> Prop where
  | answer : FailsSync failure .answer (.finish (.error failure))
  | ask (q : Query) : FailsSync failure (.ask q) (.finish (.error failure))
  | save (job : EditJob) (result : FileEditResult) (e : Effect D)
      (continues : Continues job result e) : FailsSync failure (.save job result) e

inductive StartsSync (s : Session D) (name : Text) (next : AfterSync) : Effect D -> Prop where
  | reads (k : Nat) (ready : s.ready? = some k) :
      StartsSync s name next (.rest (.reading k name next))
  | fails (e : Effect D) (unready : s.ready? = none)
      (fails : FailsSync .notInitialized next e) :
      StartsSync s name next e

inductive EndsSync (s : Session D) (synced : SyncedDocument) :
    AfterSync -> List (Effect D) -> Prop where
  | answer : EndsSync s synced .answer [.finish (.ok (.synced synced))]
  | asks (q : Query) (k : Nat) (ready : s.ready? = some k) :
      EndsSync s synced (.ask q)
        [.draw, .ask k (.request s.nextNumber q.method (q.params synced.document.uri))
          (.requesting k s.nextNumber q.method s.settings.defaultTimeoutMs
            (s.now + s.settings.defaultTimeoutMs))]
  | asksNobody (q : Query) (unready : s.ready? = none) :
      EndsSync s synced (.ask q) [.finish (.error .notInitialized)]
  | saves (job : EditJob) (result : FileEditResult) (k : Nat) (ready : s.ready? = some k) :
      EndsSync s synced (.save job result)
        [.ask k (.notify (.notification "textDocument/didSave" (didSave result.path)))
          (.saving job { result with syncedVersion := some synced.document.version })]
  | continues (job : EditJob) (result : FileEditResult) (e : Effect D)
      (unready : s.ready? = none) (continues :
        Continues job { result with syncedVersion := some synced.document.version } e) :
      EndsSync s synced (.save job result) [e]

inductive LooksUp (s : Session D) (view : View) : Effect D -> Prop where
  | asks (k : Nat) (ready : s.ready? = some k) :
      LooksUp s view (.ask k (.diagnostics view.uri?) (.listing view))
  | fails (unready : s.ready? = none) : LooksUp s view (.finish (.error .notInitialized))

theorem ChecksOpen.of_store {s : Session D} {workspace : Workspace D} {job : EditJob}
    {result : FileEditResult} {e : Effect D}
    (h : ChecksOpen { s with workspace } job result e) : ChecksOpen s job result e := by
  cases h with
  | asks k ready => exact .asks k ready
  | continues e unready continues => exact .continues e unready continues

theorem continueJob_continues (s : Session D) (id : Nat) (job : EditJob)
    (result : FileEditResult) :
    exists e, Continues job result e ∧ s.continueJob id job result = s.undergo id [e] := by
  simp only [continueJob]
  split
  case h_1 target remaining more => exact ⟨_, .next target remaining more, rfl⟩
  case h_2 done => exact ⟨_, .last done, rfl⟩

theorem checkOpen_checksOpen (s : Session D) (id : Nat) (job : EditJob)
    (result : FileEditResult) :
    exists e, ChecksOpen s job result e ∧ s.checkOpen id job result = s.undergo id [e] := by
  unfold checkOpen
  split
  case h_1 unready =>
    rcases s.continueJob_continues id job result with ⟨e, continues, hu⟩
    exact ⟨e, .continues e unready continues, hu⟩
  case h_2 k ready => exact ⟨_, .asks k ready, rfl⟩

theorem syncFailed_failsSync (s : Session D) (id : Nat) (next : AfterSync)
    (failure : Failure) :
    exists e, FailsSync failure next e ∧ s.syncFailed id next failure = s.undergo id [e] := by
  cases next with
  | answer => exact ⟨_, .answer, rfl⟩
  | ask q => exact ⟨_, .ask q, rfl⟩
  | save job result =>
      rcases s.continueJob_continues id job result with ⟨e, continues, hu⟩
      exact ⟨e, .save job result e continues, hu⟩

theorem startSync_startsSync (s : Session D) (id : Nat) (name : Text) (next : AfterSync) :
    exists e, StartsSync s name next e ∧ s.startSync id name next = s.undergo id [e] := by
  unfold startSync
  split
  case h_1 unready =>
    rcases s.syncFailed_failsSync id next .notInitialized with ⟨e, fails, hu⟩
    exact ⟨e, .fails e unready fails, hu⟩
  case h_2 k ready => exact ⟨_, .reads k ready, rfl⟩

theorem syncSucceeded_endsSync (s : Session D) (id : Nat) (next : AfterSync)
    (synced : SyncedDocument) :
    exists effects, EndsSync s synced next effects ∧
      s.syncSucceeded id next synced = s.undergo id effects := by
  cases next with
  | answer => exact ⟨_, .answer, rfl⟩
  | ask q =>
      simp only [syncSucceeded]
      split
      case h_1 unready => exact ⟨_, .asksNobody q unready, rfl⟩
      case h_2 k ready => exact ⟨_, .asks q k ready, rfl⟩
  | save job result =>
      simp only [syncSucceeded]
      split
      case h_1 unready =>
        rcases s.continueJob_continues id job _ with ⟨e, continues, hu⟩
        exact ⟨_, .continues job result e unready continues, hu⟩
      case h_2 k ready => exact ⟨_, .saves job result k ready, rfl⟩

theorem list_looksUp (s : Session D) (id : Nat) (view : View) :
    exists e, LooksUp s view e ∧ s.list id view = s.undergo id [e] := by
  unfold list
  split
  case h_1 unready => exact ⟨_, .fails unready, rfl⟩
  case h_2 k ready => exact ⟨_, .asks k ready, by cases view <;> rfl⟩

/-!
## Beginnings
-/

/-- What an operation wants to see of the diagnostics. -/
inductive Views (s : Session D) : Operation -> View -> Prop where
  | list (name : Text) (uri : String) (named : s.documentUri name = .ok uri) :
      Views s (.diagnostics name) (.list uri)
  | all : Views s .allDiagnostics .all
  | items (name : Text) (path : Path) (found : s.workspace.locate name = .ok path) :
      Views s (.diagnosticItems name)
        (.items (String.ofList (FileUri.ofPath path)) path.display)
  | allItems : Views s .allDiagnosticItems .allItems

/-- The first steps of users' calls. -/
inductive OpeningStep (s : Session D) : Operation -> List (Effect D) -> Prop where
  | unready (op : Operation) (needs : op.needsServer = true) (unready : s.ready? = none) :
      OpeningStep s op [.finish (.error .notInitialized)]
  | misnamed (op : Operation) (name : Text) (failure : Failure)
      (resolves : op.resolves? = some name) (lost : s.workspace.locate name = .error failure) :
      OpeningStep s op [.finish (.error failure)]
  | asks (method : String) (params : Json) (limit : Option Nat) (k : Nat)
      (ready : s.ready? = some k) :
      OpeningStep s (.request method params limit)
        [.draw, .ask k (.request s.nextNumber method params)
          (.requesting k s.nextNumber method
            ((limit.map Limit.requestTimeout).getD s.settings.defaultTimeoutMs)
            (s.now + (limit.map Limit.requestTimeout).getD s.settings.defaultTimeoutMs))]
  | notifies (method : String) (params : Json) (k : Nat) (ready : s.ready? = some k) :
      OpeningStep s (.notify method params)
        [.ask k (.notify (.notification method params)) .notifying]
  | syncs (name : Text) (e : Effect D) (starts : StartsSync s name .answer e) :
      OpeningStep s (.sync name) [e]
  | queries (name : Text) (q : Query) (e : Effect D) (starts : StartsSync s name (.ask q) e) :
      OpeningStep s (.query name q) [e]
  | closes (name : Text) (k : Nat) (uri : String) (ready : s.ready? = some k)
      (named : s.documentUri name = .ok uri) :
      OpeningStep s (.close name) [.ask k (.close uri) .closing]
  | looksUp (op : Operation) (view : View) (e : Effect D) (views : Views s op view)
      (looks : LooksUp s view e) : OpeningStep s op [e]
  | waits (name : Text) (timeout : Nat) (uri : String) (named : s.documentUri name = .ok uri) :
      OpeningStep s (.waitForDiagnostics name timeout)
        [.rest (.waiting uri s.bus.subscribe (s.now + Limit.requestTimeout timeout))]
  | forbidden (op : Operation) (edits : op.editsFiles = true)
      (forbidden : s.settings.allowWrites = false) :
      OpeningStep s op [.finish (.error .writesDisabled)]
  | edits (name : Text) (edits : List TextEdit) (context : EditContext)
      (allowed : s.settings.allowWrites = true) :
      OpeningStep s (.applyEdits name edits context)
        [.rest (.editing ⟨[], [], false⟩ (.snapshot ⟨name, edits, context⟩))]
  | unsupported (edit : WorkspaceEdit) (context : EditContext) (failure : Failure)
      (allowed : s.settings.allowWrites = true)
      (targets : edit.targets context = .error failure) :
      OpeningStep s (.applyWorkspaceEdit edit context) [.finish (.error failure)]
  | editsNothing (edit : WorkspaceEdit) (context : EditContext)
      (allowed : s.settings.allowWrites = true) (targets : edit.targets context = .ok []) :
      OpeningStep s (.applyWorkspaceEdit edit context) [.finish (.ok (.files ⟨[]⟩))]
  | editsFirst (edit : WorkspaceEdit) (context : EditContext) (target : EditTarget)
      (remaining : List EditTarget) (allowed : s.settings.allowWrites = true)
      (targets : edit.targets context = .ok (target :: remaining)) :
      OpeningStep s (.applyWorkspaceEdit edit context)
        [.rest (.editing ⟨remaining, [], true⟩ (.snapshot target))]
  | counts (k : Nat) (alive : s.alive? = some k) :
      OpeningStep s .status [.ask k .status (.counting k)]
  | countsNothing (dead : s.alive? = none) :
      OpeningStep s .status
        [.finish (.ok (.status ⟨false, false, false, s.settings.serverName, 0, 0⟩))]
  | recalls : OpeningStep s .capabilities [.finish (.ok (.capabilities s.capabilities))]

theorem documentUri_eq_error {s : Session D} {name : Text} {failure : Failure}
    (h : s.documentUri name = .error failure) : s.workspace.locate name = .error failure := by
  unfold documentUri at h
  cases hlocate : s.workspace.locate name with
  | error e =>
      rw [hlocate] at h
      exact congrArg Except.error (Except.error.inj h)
  | ok path =>
      rw [hlocate] at h
      contradiction

/-- Every beginning of a call that neither starts nor stops a server is one of these. -/
theorem begin_openingStep (s : Session D) (id : Nat) {op : Operation}
    (hstart : forall launch, op ≠ .start launch) (hstop : forall force, op ≠ .stop force) :
    exists effects, OpeningStep s op effects ∧ s.begin id op = s.undergo id effects := by
  have hlooks {view : View} (views : Views s op view) :
      exists effects, OpeningStep s op effects ∧ s.list id view = s.undergo id effects := by
    rcases s.list_looksUp id view with ⟨e, looks, hu⟩
    exact ⟨[e], .looksUp op view e views looks, hu⟩
  cases op with
  | start launch => exact absurd rfl (hstart launch)
  | stop force => exact absurd rfl (hstop force)
  | request method params limit =>
      simp only [begin]
      split
      case h_1 unready => exact ⟨_, .unready _ rfl unready, rfl⟩
      case h_2 k ready => exact ⟨_, .asks method params limit k ready, rfl⟩
  | notify method params =>
      simp only [begin]
      split
      case h_1 unready => exact ⟨_, .unready _ rfl unready, rfl⟩
      case h_2 k ready => exact ⟨_, .notifies method params k ready, rfl⟩
  | sync name =>
      rcases s.startSync_startsSync id name .answer with ⟨e, starts, hu⟩
      exact ⟨[e], .syncs name e starts, hu⟩
  | query name q =>
      rcases s.startSync_startsSync id name (.ask q) with ⟨e, starts, hu⟩
      exact ⟨[e], .queries name q e starts, hu⟩
  | close name =>
      simp only [begin]
      split
      case h_1 unready => exact ⟨_, .unready _ rfl unready, rfl⟩
      case h_2 e _ lost => exact ⟨_, .misnamed _ name e rfl (documentUri_eq_error lost), rfl⟩
      case h_3 k uri ready named => exact ⟨_, .closes name k uri ready named, rfl⟩
  | diagnostics name =>
      simp only [begin]
      split
      case h_1 unready => exact ⟨_, .unready _ rfl unready, rfl⟩
      case h_2 e _ lost => exact ⟨_, .misnamed _ name e rfl (documentUri_eq_error lost), rfl⟩
      case h_3 uri ready named => exact hlooks (.list name uri named)
  | allDiagnostics => exact hlooks .all
  | diagnosticItems name =>
      simp only [begin]
      split
      case h_1 e lost => exact ⟨_, .misnamed _ name e rfl lost, rfl⟩
      case h_2 path found => exact hlooks (.items name path found)
  | allDiagnosticItems => exact hlooks .allItems
  | waitForDiagnostics name timeout =>
      simp only [begin]
      split
      case h_1 unready => exact ⟨_, .unready _ rfl unready, rfl⟩
      case h_2 e _ lost => exact ⟨_, .misnamed _ name e rfl (documentUri_eq_error lost), rfl⟩
      case h_3 uri ready named => exact ⟨_, .waits name timeout uri named, rfl⟩
  | applyEdits name edits context =>
      simp only [begin]
      split
      case isTrue allowed => exact ⟨_, .edits name edits context allowed, rfl⟩
      case isFalse forbidden =>
        exact ⟨_, .forbidden _ rfl (Bool.eq_false_iff.mpr forbidden), rfl⟩
  | applyWorkspaceEdit edit context =>
      simp only [begin]
      split
      case isTrue allowed =>
        split
        case h_1 e targets => exact ⟨_, .unsupported edit context e allowed targets, rfl⟩
        case h_2 targets => exact ⟨_, .editsNothing edit context allowed targets, rfl⟩
        case h_3 target remaining targets =>
          exact ⟨_, .editsFirst edit context target remaining allowed targets, rfl⟩
      case isFalse forbidden =>
        exact ⟨_, .forbidden _ rfl (Bool.eq_false_iff.mpr forbidden), rfl⟩
  | status =>
      simp only [begin]
      split
      case h_1 dead => exact ⟨_, .countsNothing dead, rfl⟩
      case h_2 k alive => exact ⟨_, .counts k alive, rfl⟩
  | capabilities => exact ⟨_, .recalls, rfl⟩

/-!
## Going on
-/

/-- All other steps of users' calls. -/
inductive UserStep [FileSystem D] (s : Session D) (call : Call) :
    Task -> List (Effect D) -> Prop where
  | withdraws (k number : Nat) (method : String) (timeout deadline : Nat)
      (cancelled : call.cancelled = true) :
      UserStep s call (.requesting k number method timeout deadline)
        [.abandon k number, .finish (.error (.requestCancelled method))]
  | responded (k number : Nat) (method : String) (timeout deadline : Nat)
      (r : Except Failure Json) (kept : call.cancelled = false)
      (heard : call.mailbox = some (.response r)) :
      UserStep s call (.requesting k number method timeout deadline) [.finish (r.map .json)]
  | notResponded (k number : Nat) (method : String) (timeout deadline : Nat) (a : Answer)
      (kept : call.cancelled = false) (heard : call.mailbox = some a)
      (other : forall r, a ≠ .response r) :
      UserStep s call (.requesting k number method timeout deadline)
        [.finish (.error .notRunning)]
  | gaveUp (k number : Nat) (method : String) (timeout deadline : Nat)
      (kept : call.cancelled = false) (unheard : call.mailbox = none)
      (due : deadline ≤ s.now) :
      UserStep s call (.requesting k number method timeout deadline)
        [.abandon k number, .finish (.error (.requestTimeout method timeout))]
  | notified (r : Except Failure Unit) (heard : call.mailbox = some (.written r)) :
      UserStep s call .notifying [.finish (r.map fun () => .unit)]
  | notNotified (a : Answer) (heard : call.mailbox = some a)
      (other : forall r, a ≠ .written r) :
      UserStep s call .notifying [.finish (.error .notRunning)]
  | closed (r : Except Failure Bool) (heard : call.mailbox = some (.closed r)) :
      UserStep s call .closing [.finish (r.map .bool)]
  | notClosed (a : Answer) (heard : call.mailbox = some a) (other : forall r, a ≠ .closed r) :
      UserStep s call .closing [.finish (.error .notRunning)]
  | listed (view : View) (lists : List (String × List Json))
      (heard : call.mailbox = some (.diagnostics lists)) :
      UserStep s call (.listing view) [.finish (.ok (viewed s.settings.serverName lists view))]
  | notListed (view : View) (a : Answer) (heard : call.mailbox = some a)
      (other : forall lists, a ≠ .diagnostics lists) :
      UserStep s call (.listing view) [.finish (.error .notRunning)]
  | counted (k documents requests : Nat)
      (heard : call.mailbox = some (.counts documents requests)) :
      UserStep s call (.counting k) [.finish (.ok (.status (s.status k documents requests)))]
  | notCounted (k : Nat) (a : Answer) (heard : call.mailbox = some a)
      (other : forall documents requests, a ≠ .counts documents requests) :
      UserStep s call (.counting k) [.finish (.ok (.status (s.status k 0 0)))]
  | reads (k : Nat) (name : Text) (next : AfterSync) (input : SyncInput)
      (read : s.readFile name = .ok input) :
      UserStep s call (.reading k name next) [.rest (.handing k input next)]
  | cannotRead (k : Nat) (name : Text) (next : AfterSync) (failure : Failure) (e : Effect D)
      (read : s.readFile name = .error failure) (fails : FailsSync failure next e) :
      UserStep s call (.reading k name next) [e]
  | hands (k : Nat) (input : SyncInput) (next : AfterSync) :
      UserStep s call (.handing k input next) [.ask k (.sync input) (.syncing next)]
  | synced (next : AfterSync) (synced : SyncedDocument) (effects : List (Effect D))
      (heard : call.mailbox = some (.synced (.ok synced)))
      (ends : EndsSync s synced next effects) :
      UserStep s call (.syncing next) effects
  | syncRefused (next : AfterSync) (failure : Failure) (e : Effect D)
      (heard : call.mailbox = some (.synced (.error failure)))
      (fails : FailsSync failure next e) :
      UserStep s call (.syncing next) [e]
  | notSynced (next : AfterSync) (a : Answer) (e : Effect D) (heard : call.mailbox = some a)
      (other : forall r, a ≠ .synced r) (fails : FailsSync .notRunning next e) :
      UserStep s call (.syncing next) [e]
  | overhears (uri : String) (sub : Subscription) (deadline : Nat) (event : Event)
      (heard : (s.bus.receive sub).1 = .event event) (other : event.endsWait uri = false) :
      UserStep s call (.waiting uri sub deadline)
        [.rest (.waiting uri (s.bus.receive sub).2 deadline)]
  | missed (uri : String) (sub : Subscription) (deadline count : Nat)
      (heard : (s.bus.receive sub).1 = .lagged count) :
      UserStep s call (.waiting uri sub deadline)
        [.rest (.waiting uri (s.bus.receive sub).2 deadline)]
  | announced (uri : String) (sub : Subscription) (deadline : Nat) (version : Option Int)
      (count : Nat) (e : Effect D)
      (heard : (s.bus.receive sub).1 = .event (.diagnostics uri version count))
      (looks : LooksUp s (.list uri) e) : UserStep s call (.waiting uri sub deadline) [e]
  | expired (uri : String) (sub : Subscription) (deadline : Nat) (e : Effect D)
      (heard : (s.bus.receive sub).1 = .empty) (due : deadline ≤ s.now)
      (looks : LooksUp s (.list uri) e) : UserStep s call (.waiting uri sub deadline) [e]
  | exited (uri : String) (sub : Subscription) (deadline : Nat) (code : Option Int)
      (heard : (s.bus.receive sub).1 = .event (.exited code)) :
      UserStep s call (.waiting uri sub deadline) [.finish (.error (.serverExited code))]
  | stopped (uri : String) (sub : Subscription) (deadline : Nat)
      (heard : (s.bus.receive sub).1 = .event .stopped) :
      UserStep s call (.waiting uri sub deadline) [.finish (.error .serverStopped)]
  | edits (job : EditJob) (stage stage' : EditStage) (workspace : Workspace D)
      (step : s.workspace.editStep stage = .next workspace stage') :
      UserStep s call (.editing job stage) [.store workspace, .rest (.editing job stage')]
  | cannotEdit (job : EditJob) (stage : EditStage) (failure : Failure)
      (step : s.workspace.editStep stage = .failed failure) :
      UserStep s call (.editing job stage) [.finish (.error failure)]
  | edited (job : EditJob) (stage : EditStage) (workspace : Workspace D)
      (result : FileEditResult)
      (e : Effect D) (step : s.workspace.editStep stage = .finished workspace result)
      (changed : result.changed = true) (checks : ChecksOpen s job result e) :
      UserStep s call (.editing job stage) [.store workspace, e]
  | leftAlone (job : EditJob) (stage : EditStage) (workspace : Workspace D)
      (result : FileEditResult) (e : Effect D)
      (step : s.workspace.editStep stage = .finished workspace result)
      (unchanged : result.changed = false) (continues : Continues job result e) :
      UserStep s call (.editing job stage) [.store workspace, e]
  | isOpen (job : EditJob) (result : FileEditResult) (e : Effect D)
      (heard : call.mailbox = some (.isOpen true))
      (starts : StartsSync s result.path.display (.save job result) e) :
      UserStep s call (.checking job result) [e]
  | notOpen (job : EditJob) (result : FileEditResult) (a : Answer) (e : Effect D)
      (heard : call.mailbox = some a) (other : a ≠ .isOpen true)
      (continues : Continues job result e) : UserStep s call (.checking job result) [e]
  | saved (job : EditJob) (result : FileEditResult) (a : Answer) (e : Effect D)
      (heard : call.mailbox = some a) (continues : Continues job result e) :
      UserStep s call (.saving job result) [e]

section

variable [FileSystem D] {s u : Session D} {id : Nat} {call : Call}

theorem waiting_userStep {uri : String} {sub : Subscription} {deadline : Nat}
    (h : s.stepTask id call (.waiting uri sub deadline) = some u) :
    exists effects, UserStep s call (.waiting uri sub deadline) effects ∧
      u = s.undergo id effects := by
  have hlooks (hu : s.list id (.list uri) = u)
      (hstep : forall e, LooksUp s (.list uri) e ->
        UserStep s call (.waiting uri sub deadline) [e]) :
      exists effects, UserStep s call (.waiting uri sub deadline) effects ∧
        u = s.undergo id effects := by
    rcases s.list_looksUp id (.list uri) with ⟨e, looks, hlist⟩
    exact ⟨[e], hstep e looks, hu.symm.trans hlist⟩
  simp only [stepTask] at h
  rcases hreceive : s.bus.receive sub with ⟨received, sub'⟩
  have heard : (s.bus.receive sub).1 = received := congrArg Prod.fst hreceive
  have hwaits (step : UserStep s call (.waiting uri sub deadline)
        [.rest (.waiting uri (s.bus.receive sub).2 deadline)])
      (hu : s.setTask id (.waiting uri sub' deadline) = u) :
      exists effects, UserStep s call (.waiting uri sub deadline) effects ∧
        u = s.undergo id effects := by
    rw [hreceive] at step
    exact ⟨_, step, hu.symm⟩
  rw [hreceive] at h
  cases received with
  | event event =>
      cases event with
      | diagnostics published version count =>
          simp only at h
          split at h
          case isTrue hsame =>
            subst hsame
            exact hlooks (Option.some.inj h) fun e =>
              .announced _ sub deadline version count e heard
          case isFalse hother =>
            exact hwaits (.overhears uri sub deadline _ heard (beq_false_of_ne hother))
              (Option.some.inj h)
      | exited code => exact ⟨_, .exited uri sub deadline code heard, (Option.some.inj h).symm⟩
      | stopped => exact ⟨_, .stopped uri sub deadline heard, (Option.some.inj h).symm⟩
      | _ => exact hwaits (.overhears uri sub deadline _ heard rfl) (Option.some.inj h)
  | lagged count => exact hwaits (.missed uri sub deadline count heard) (Option.some.inj h)
  | empty =>
      simp only at h
      split at h
      case isTrue due =>
        exact hlooks (Option.some.inj h) fun e => .expired uri sub deadline e heard due
      case isFalse => contradiction

theorem editing_userStep {job : EditJob} {stage : EditStage}
    (h : s.stepTask id call (.editing job stage) = some u) :
    exists effects, UserStep s call (.editing job stage) effects ∧
      u = s.undergo id effects := by
  simp only [stepTask] at h
  split at h
  case h_1 workspace stage' step =>
    exact ⟨_, .edits job stage stage' workspace step, (Option.some.inj h).symm⟩
  case h_2 failure step =>
    exact ⟨_, .cannotEdit job stage failure step, (Option.some.inj h).symm⟩
  case h_3 workspace result step =>
    split at h
    case isTrue changed =>
      rcases checkOpen_checksOpen { s with workspace } id job result with ⟨e, checks, hu⟩
      exact ⟨[.store workspace, e],
        .edited job stage workspace result e step changed checks.of_store,
        (Option.some.inj h).symm.trans hu⟩
    case isFalse unchanged =>
      rcases continueJob_continues { s with workspace } id job result with ⟨e, continues, hu⟩
      exact ⟨[.store workspace, e], .leftAlone job stage workspace result e step
        (Bool.eq_false_iff.mpr unchanged) continues, (Option.some.inj h).symm.trans hu⟩

/-- Every step of a call that neither starts nor stops a server is one of these. -/
theorem stepTask_userStep {task : Task} (htask : task.isLifecycle = false)
    (h : s.stepTask id call task = some u) :
    exists effects, UserStep s call task effects ∧ u = s.undergo id effects := by
  have hcontinues {job : EditJob} {result : FileEditResult}
      (hu : s.continueJob id job result = u)
      (hstep : forall e, Continues job result e -> UserStep s call task [e]) :
      exists effects, UserStep s call task effects ∧ u = s.undergo id effects := by
    rcases s.continueJob_continues id job result with ⟨e, continues, hjob⟩
    exact ⟨[e], hstep e continues, hu.symm.trans hjob⟩
  have hfails {next : AfterSync} {failure : Failure} (hu : s.syncFailed id next failure = u)
      (hstep : forall e, FailsSync failure next e -> UserStep s call task [e]) :
      exists effects, UserStep s call task effects ∧ u = s.undergo id effects := by
    rcases s.syncFailed_failsSync id next failure with ⟨e, fails, hsync⟩
    exact ⟨[e], hstep e fails, hu.symm.trans hsync⟩
  cases task with
  | requesting k number method timeout deadline =>
      simp only [stepTask] at h
      split at h
      case isTrue cancelled =>
        exact ⟨_, .withdraws _ _ _ _ _ cancelled, (Option.some.inj h).symm⟩
      case isFalse hkept =>
        have kept := Bool.eq_false_iff.mpr hkept
        split at h
        case h_1 r heard =>
          exact ⟨_, .responded _ _ _ _ _ r kept heard, (Option.some.inj h).symm⟩
        case h_2 a other heard =>
          exact ⟨_, .notResponded _ _ _ _ _ a kept heard other, (Option.some.inj h).symm⟩
        case h_3 unheard =>
          split at h
          case isTrue due =>
            exact ⟨_, .gaveUp _ _ _ _ _ kept unheard due, (Option.some.inj h).symm⟩
          case isFalse => contradiction
  | notifying =>
      simp only [stepTask] at h
      split at h
      case h_1 r heard => exact ⟨_, .notified r heard, (Option.some.inj h).symm⟩
      case h_2 a other heard => exact ⟨_, .notNotified a heard other, (Option.some.inj h).symm⟩
      case h_3 => contradiction
  | reading k name next =>
      simp only [stepTask] at h
      split at h
      case h_1 failure read =>
        exact hfails (Option.some.inj h) fun e => .cannotRead k name next failure e read
      case h_2 input read => exact ⟨_, .reads k name next input read, (Option.some.inj h).symm⟩
  | handing k input next => exact ⟨_, .hands k input next, (Option.some.inj h).symm⟩
  | syncing next =>
      simp only [stepTask] at h
      split at h
      case h_1 synced heard =>
        rcases s.syncSucceeded_endsSync id next synced with ⟨effects, ends, hu⟩
        exact ⟨effects, .synced next synced effects heard ends,
          (Option.some.inj h).symm.trans hu⟩
      case h_2 failure heard =>
        exact hfails (Option.some.inj h) fun e => .syncRefused next failure e heard
      case h_3 a hok herror heard =>
        refine hfails (Option.some.inj h) fun e => .notSynced next a e heard fun r hr => ?_
        cases r with
        | ok synced => exact hok synced hr
        | error failure => exact herror failure hr
      case h_4 => contradiction
  | closing =>
      simp only [stepTask] at h
      split at h
      case h_1 r heard => exact ⟨_, .closed r heard, (Option.some.inj h).symm⟩
      case h_2 a other heard => exact ⟨_, .notClosed a heard other, (Option.some.inj h).symm⟩
      case h_3 => contradiction
  | listing view =>
      simp only [stepTask] at h
      split at h
      case h_1 lists heard => exact ⟨_, .listed view lists heard, (Option.some.inj h).symm⟩
      case h_2 a other heard =>
        exact ⟨_, .notListed view a heard other, (Option.some.inj h).symm⟩
      case h_3 => contradiction
  | waiting uri sub deadline => exact waiting_userStep h
  | counting k =>
      simp only [stepTask] at h
      split at h
      case h_1 documents requests heard =>
        exact ⟨_, .counted k documents requests heard, (Option.some.inj h).symm⟩
      case h_2 a other heard =>
        exact ⟨_, .notCounted k a heard other, (Option.some.inj h).symm⟩
      case h_3 => contradiction
  | editing job stage => exact editing_userStep h
  | checking job result =>
      simp only [stepTask] at h
      split at h
      case h_1 heard =>
        rcases s.startSync_startsSync id result.path.display (.save job result) with
          ⟨e, starts, hu⟩
        exact ⟨[e], .isOpen job result e heard starts, (Option.some.inj h).symm.trans hu⟩
      case h_2 a other heard =>
        exact hcontinues (Option.some.inj h) fun e => .notOpen job result a e heard other
      case h_3 => contradiction
  | saving job result =>
      simp only [stepTask] at h
      split at h
      case h_1 a heard =>
        exact hcontinues (Option.some.inj h) fun e => .saved job result a e heard
      case h_2 => contradiction
  | _ => contradiction

end

end Session
end LanguageClient
