import LanguageClient.Proofs.Session.Calls
import LanguageClient.Proofs.Session.Failures
import LanguageClient.Proofs.Session.UserSteps

/-!
# What each step of a call does to requests

Every step of a call, and its beginning, prepares and turns. The tasks it may turn to are
those that its operation opens or its present task leads to.
-/

namespace LanguageClient
namespace Session

variable {D : Type}

section

variable {id : Nat} {allowed : Task -> Prop} {question : Bool}

/-!
## Single moves
-/

theorem Turn.reacts {s u : Session D} (h : Turn id allowed s u) : Reacts id allowed s u :=
  ⟨s, SameRequests.refl s, h⟩

theorem Reacts.after {s t u : Session D} (h : Reacts id allowed t u)
    (hsame : SameRequests s t) :
    Reacts id allowed s u := by
  rcases h with ⟨t', hsame', hturn⟩
  exact ⟨t', hsame.trans hsame', hturn⟩

theorem finish_reacts (s : Session D) {outcome : Outcome} (h : allowed (.done outcome)) :
    Reacts id allowed s (s.finish id outcome) :=
  ⟨{ s with turns := s.turns.erase id }, SameRequests.of_connections rfl rfl rfl,
    Turn.rest (.done outcome) h rfl⟩

theorem setTask_reacts (s : Session D) {task : Task} (h : allowed task)
    (hrequest : task.request? = none) : Reacts id allowed s (s.setTask id task) :=
  (Turn.rest task h hrequest).reacts

theorem ask_reacts (s : Session D) (k : Nat) {ask : Ticket -> Command} {task : Task}
    (h : allowed task) (hrequest : task.request? = none)
    (hplain : forall t, (ask t).request? = none) : Reacts id allowed s (s.ask id k ask task) :=
  (Turn.ask k ask task h hrequest hplain).reacts

theorem sendRequest_reacts (s : Session D) (k : Nat) (method : String) (params : Json)
    (timeout : Nat) {task : Nat -> Nat -> Task}
    (h : forall number deadline, allowed (task number deadline))
    (hrequest : forall number deadline, (task number deadline).request? = some (k, number)) :
    Reacts id allowed s (s.sendRequest id k method params timeout task) :=
  (Turn.send k method params timeout task h hrequest).reacts

theorem sendNotification_reacts (s : Session D) (k : Nat) (method : String) (params : Json)
    {task : Task} (h : allowed task) (hrequest : task.request? = none) :
    Reacts id allowed s (s.sendNotification id k method params task) :=
  s.ask_reacts k h hrequest fun _ => rfl

theorem fail_reacts (s : Session D) (h : Admits allowed question) {e : Failure}
    (he : e.isOwn) :
    Reacts id allowed s (s.finish id (.error e)) :=
  s.finish_reacts (h _ he fun _ => rfl)

theorem sameRequests_reset (s : Session D) : SameRequests s s.reset :=
  SameRequests.of_connections rfl rfl rfl

theorem sameRequests_abandon (s : Session D) (k number : Nat) :
    SameRequests s (s.abandon k number) :=
  s.sameRequests_enqueue k rfl

/-!
## Parts of steps
-/

theorem Continues.reacts {job : EditJob} {result : FileEditResult} {e : Effect D}
    (h : Continues job result e) (s : Session D) (hadmits : Admits allowed false) :
    Reacts id allowed s (s.undergo id [e]) := by
  cases h with
  | next => exact s.setTask_reacts (hadmits.free rfl) rfl
  | last =>
      refine s.finish_reacts (hadmits.free ?_)
      split <;> rfl

theorem ChecksOpen.reacts {s : Session D} {job : EditJob} {result : FileEditResult}
    {e : Effect D}
    (h : ChecksOpen s job result e) (t : Session D) (hadmits : Admits allowed false) :
    Reacts id allowed t (t.undergo id [e]) := by
  cases h with
  | asks k => exact t.ask_reacts k (hadmits.free rfl) rfl fun _ => rfl
  | continues _ _ continues => exact continues.reacts t hadmits

theorem FailsSync.reacts {failure : Failure} {next : AfterSync} {e : Effect D}
    (h : FailsSync failure next e) (s : Session D) (hadmits : Admits allowed next.isQuestion)
    (hfailure : allowed (.done (.error failure))) :
    Reacts id allowed s (s.undergo id [e]) := by
  cases h with
  | answer | ask => exact s.finish_reacts hfailure
  | save _ _ _ continues => exact continues.reacts s hadmits

theorem StartsSync.reacts {s : Session D} {name : Text} {next : AfterSync} {e : Effect D}
    (h : StartsSync s name next e) (hadmits : Admits allowed next.isQuestion) :
    Reacts id allowed s (s.undergo id [e]) := by
  cases h with
  | reads => exact s.setTask_reacts (hadmits _ rfl fun h => h) rfl
  | fails _ _ fails => exact fails.reacts s hadmits (hadmits _ rfl fun _ => rfl)

theorem EndsSync.reacts {s : Session D} {synced : SyncedDocument} {next : AfterSync}
    {effects : List (Effect D)} (h : EndsSync s synced next effects)
    (hadmits : Admits allowed next.isQuestion) :
    Reacts id allowed s (s.undergo id effects) := by
  cases h with
  | answer => exact s.finish_reacts (hadmits.free rfl)
  | asks q k =>
      exact (Turn.send k q.method _ _
        (fun number deadline =>
          .requesting k number q.method s.settings.defaultTimeoutMs deadline)
        (fun _ _ => hadmits _ rfl fun _ => rfl) fun _ _ => rfl).reacts
  | asksNobody => exact s.fail_reacts hadmits rfl
  | saves job result k => exact s.sendNotification_reacts k _ _ (hadmits.free rfl) rfl
  | continues _ _ _ _ continues => exact continues.reacts s hadmits

theorem LooksUp.reacts {s : Session D} {view : View} {e : Effect D} (h : LooksUp s view e)
    (hadmits : Admits allowed false) : Reacts id allowed s (s.undergo id [e]) := by
  cases h with
  | asks k => exact s.ask_reacts k (hadmits.free rfl) rfl fun _ => rfl
  | fails => exact s.fail_reacts hadmits rfl

/-!
## Starting and stopping
-/

theorem abort_reacts (s : Session D) (k : Nat) {reason : Failure}
    (h : allowed (.aborting reason)) :
    Reacts id allowed s (s.abort id k reason) :=
  (Session.ask_reacts _ k h rfl fun _ => rfl).after
    (s.sameRequests_modifyConnection k (fun _ => rfl) fun _ => rfl)

theorem terminate_reacts (s : Session D) (k : Nat) (force : Bool) (h : allowed .terminating) :
    Reacts id allowed s (s.terminate id k force) :=
  s.ask_reacts k h rfl fun _ => rfl

theorem start_reacts (s : Session D) (h : Admits allowed false) (launch : Launch) :
    Reacts id allowed s (s.start id launch) := by
  unfold start
  split
  · exact s.fail_reacts h rfl
  · have hforget : SameRequests s (if s.current.isSome then s.reset else s) := by
      split
      · exact s.sameRequests_reset
      · exact SameRequests.refl s
    dsimp only
    split
    · refine Reacts.after ?_ hforget
      exact Session.fail_reacts _ h rfl
    · refine Reacts.after ?_ (hforget.trans (sameRequests_launch _ launch.isProcess))
      exact Session.sendRequest_reacts _ _ _ _ _ (fun _ _ => h.free rfl) fun _ _ => rfl

theorem stop_reacts (s : Session D) (h : Admits allowed false) (force : Bool) :
    Reacts id allowed s (s.stop id force) := by
  have hdone : allowed (.done (.ok .unit)) := h.free rfl
  unfold stop
  split
  · exact s.finish_reacts hdone
  case h_2 k hcurrent =>
    split
    case h_2 => exact (Session.finish_reacts _ hdone).after s.sameRequests_reset
    case h_1 c hc =>
      split
      case isFalse => exact (Session.finish_reacts _ hdone).after s.sameRequests_reset
      case isTrue =>
        have hsame := s.sameRequests_setConnection k { c with stopping := true } hc rfl rfl
        dsimp only
        split
        · refine Reacts.after ?_ hsame
          exact Session.sendRequest_reacts _ k _ _ _ (fun _ _ => h.free rfl) fun _ _ => rfl
        · exact (Session.terminate_reacts _ k force (h.free rfl)).after hsame

/-!
## Beginning
-/

theorem OpeningStep.reacts {s : Session D} {op : Operation} {effects : List (Effect D)}
    (h : OpeningStep s op effects) (hadmits : Admits allowed op.isQuestion) :
    Reacts id allowed s (s.undergo id effects) := by
  cases h with
  | unready | forbidden => exact s.fail_reacts hadmits rfl
  | misnamed _ _ _ _ lost => exact s.fail_reacts hadmits (Workspace.locate_isOwn lost)
  | unsupported _ _ _ _ targets =>
      exact s.fail_reacts hadmits (WorkspaceEdit.targets_isOwn targets)
  | asks method params limit k =>
      exact (Turn.send k method params _
        (fun number deadline => .requesting k number method
          ((limit.map Limit.requestTimeout).getD s.settings.defaultTimeoutMs) deadline)
        (fun _ _ => hadmits _ rfl fun _ => rfl) fun _ _ => rfl).reacts
  | notifies _ _ k => exact s.sendNotification_reacts k _ _ (hadmits.free rfl) rfl
  | syncs _ _ starts | queries _ _ _ starts => exact starts.reacts hadmits
  | closes _ k => exact s.ask_reacts k (hadmits.free rfl) rfl fun _ => rfl
  | looksUp _ _ _ views looks =>
      cases views <;> exact looks.reacts hadmits
  | waits | edits | editsFirst => exact s.setTask_reacts (hadmits.free rfl) rfl
  | counts k => exact s.ask_reacts k (hadmits.free rfl) rfl fun _ => rfl
  | editsNothing | countsNothing | recalls => exact s.finish_reacts (hadmits.free rfl)

theorem begin_reacts (s : Session D) (op : Operation) (h : Admits allowed op.isQuestion) :
    Reacts id allowed s (s.begin id op) := by
  have huser (hstart : forall launch, op ≠ .start launch)
      (hstop : forall force, op ≠ .stop force) :
      Reacts id allowed s (s.begin id op) := by
    rcases s.begin_openingStep id hstart hstop with ⟨effects, step, hu⟩
    exact hu ▸ step.reacts h
  cases op with
  | start launch =>
      have hturn : allowed (.starting launch) := h.free rfl
      exact ⟨{ s with turns := s.turns ++ [id] }, SameRequests.of_connections rfl rfl rfl,
        Turn.rest _ hturn rfl⟩
  | stop force =>
      have hturn : allowed (.stopping force) := h.free rfl
      exact ⟨{ s with turns := s.turns ++ [id] }, SameRequests.of_connections rfl rfl rfl,
        Turn.rest _ hturn rfl⟩
  | _ => exact huser (fun _ h => nomatch h) fun _ h => nomatch h

end

/-!
## Going on
-/

end Session

namespace Call

theorem leads_of_plain {call : Call} {task : Task} (hcontent : task.carried? = none)
    (hlate : task.isLate = true) (hrequest : task.request? = none)
    (hquestion : call.task.isQuestion = false ∨ task.isQuestion = true) : call.Leads task where
  content r hr := by
    rw [hcontent] at hr
    contradiction
  late _ := ⟨hlate, hrequest⟩
  question h := hquestion.resolve_left (Bool.ne_false_iff.mpr h)

theorem leads_of_mailbox {call : Call} {task : Task} {a : Answer}
    (hmail : call.mailbox = some a)
    (hcontent : task.carried? = carried? a.outcome) (hlate : task.isLate = true)
    (hrequest : task.request? = none)
    (hquestion : call.task.isQuestion = false ∨ task.isQuestion = true) : call.Leads task where
  content _ hr := Or.inr ⟨a, hmail, hcontent ▸ hr⟩
  late _ := ⟨hlate, hrequest⟩
  question h := hquestion.resolve_left (Bool.ne_false_iff.mpr h)

end Call

namespace Session

variable [FileSystem D] {s u : Session D} {id serial : Nat} {mail : Option Answer}
  {cancelled : Bool}

theorem introducing_reacts {k number deadline : Nat}
    (h : s.stepTask id ⟨.introducing k number deadline, serial, mail, cancelled⟩
      (.introducing k number deadline) = some u) :
    Reacts id (Call.Leads ⟨.introducing k number deadline, serial, mail, cancelled⟩) s u := by
  have hannounce (mail : Option Answer) :
      Call.Leads ⟨.introducing k number deadline, serial, mail, cancelled⟩ (.announcing k) :=
    Call.leads_of_plain rfl rfl rfl (Or.inl rfl)
  simp only [stepTask] at h
  split at h
  case h_1 v =>
    cases h
    exact (Session.sendNotification_reacts _ k _ _ (hannounce _) rfl).after
      (SameRequests.of_connections rfl rfl rfl)
  case h_2 e =>
    cases h
    exact s.abort_reacts k (Call.leads_of_mailbox rfl rfl rfl rfl (Or.inl rfl))
  case h_3 =>
    cases h
    exact s.abort_reacts k (Call.leads_of_plain rfl rfl rfl (Or.inl rfl))
  case h_4 =>
    split at h
    case isFalse => contradiction
    case isTrue =>
      cases h
      refine Reacts.after ?_ (s.sameRequests_abandon k number)
      exact Session.abort_reacts _ k (Call.leads_of_plain rfl rfl rfl (Or.inl rfl))

theorem announcing_reacts {k : Nat}
    (h : s.stepTask id ⟨.announcing k, serial, mail, cancelled⟩ (.announcing k) = some u) :
    Reacts id (Call.Leads ⟨.announcing k, serial, mail, cancelled⟩) s u := by
  have hdone (mail : Option Answer) :
      Call.Leads ⟨.announcing k, serial, mail, cancelled⟩ (.done (.ok .unit)) :=
    Call.leads_of_plain rfl rfl rfl (Or.inl rfl)
  simp only [stepTask] at h
  split at h
  case h_1 =>
    cases h
    exact (Session.finish_reacts _ (hdone _)).after
      (s.sameRequests_modifyConnection k (fun _ => rfl) fun _ => rfl)
  case h_2 e =>
    cases h
    exact s.abort_reacts k (Call.leads_of_mailbox rfl rfl rfl rfl (Or.inl rfl))
  case h_3 =>
    cases h
    exact s.abort_reacts k (Call.leads_of_plain rfl rfl rfl (Or.inl rfl))
  case h_4 => contradiction

theorem carried?_viewed (serverName : String) (lists : List (String × List Json))
    (view : View) :
    carried? (.ok (viewed serverName lists view)) = none := by
  cases view <;> rfl

theorem UserStep.reacts {call : Call} {effects : List (Effect D)}
    (h : UserStep s call call.task effects) :
    Reacts id call.Leads s (s.undergo id effects) := by
  rcases call with ⟨task, serial, mail, cancelled⟩
  have hadmits (hlate : task.isLate = false) :
      Admits (Call.Leads ⟨task, serial, mail, cancelled⟩) task.isQuestion := Call.admits hlate
  cases h with
  | withdraws k number | gaveUp k number =>
      refine Reacts.after ?_ (s.sameRequests_abandon k number)
      exact Session.finish_reacts _ (Call.leads_of_plain rfl rfl rfl (Or.inr rfl))
  | responded _ _ _ _ _ r _ heard =>
      refine s.finish_reacts (Call.leads_of_mailbox heard rfl rfl rfl (Or.inr ?_))
      cases r <;> rfl
  | notResponded => exact s.finish_reacts (Call.leads_of_plain rfl rfl rfl (Or.inr rfl))
  | notified _ heard | closed _ heard =>
      exact s.finish_reacts (Call.leads_of_mailbox heard rfl rfl rfl (Or.inl rfl))
  | listed view =>
      exact s.finish_reacts (Call.leads_of_plain (carried?_viewed _ _ view) rfl rfl
        (Or.inl rfl))
  | notNotified | notClosed | notListed | counted | notCounted =>
      exact s.finish_reacts (Call.leads_of_plain rfl rfl rfl (Or.inl rfl))
  | reads => exact s.setTask_reacts (hadmits rfl _ rfl fun h => h) rfl
  | cannotRead _ _ _ _ _ read fails =>
      exact fails.reacts s (hadmits rfl) (hadmits rfl _ (readFile_isOwn read) fun _ => rfl)
  | hands k => exact s.ask_reacts k (hadmits rfl _ rfl fun h => h) rfl fun _ => rfl
  | synced _ _ _ _ ends => exact ends.reacts (hadmits rfl)
  | syncRefused _ _ _ heard fails =>
      exact fails.reacts s (hadmits rfl) (Call.leads_of_mailbox heard rfl rfl rfl (Or.inr rfl))
  | notSynced _ _ _ _ _ fails =>
      exact fails.reacts s (hadmits rfl) (Call.leads_of_plain rfl rfl rfl (Or.inr rfl))
  | overhears | missed => exact s.setTask_reacts ((hadmits rfl).free rfl) rfl
  | announced _ _ _ _ _ _ _ looks | expired _ _ _ _ _ _ looks =>
      exact looks.reacts (hadmits rfl)
  | exited | stopped => exact s.fail_reacts (hadmits rfl) rfl
  | edits _ _ _ workspace =>
      exact (Session.setTask_reacts { s with workspace } ((hadmits rfl).free rfl) rfl).after
        (SameRequests.of_connections rfl rfl rfl)
  | cannotEdit _ _ _ step => exact s.fail_reacts (hadmits rfl) (Workspace.editStep_isOwn step)
  | edited _ _ workspace _ _ _ _ checks =>
      exact (checks.reacts { s with workspace } (hadmits rfl)).after
        (SameRequests.of_connections rfl rfl rfl)
  | leftAlone _ _ workspace _ _ _ _ continues =>
      exact (continues.reacts { s with workspace } (hadmits rfl)).after
        (SameRequests.of_connections rfl rfl rfl)
  | isOpen _ _ _ _ starts => exact starts.reacts (hadmits rfl)
  | notOpen _ _ _ _ _ _ continues | saved _ _ _ _ _ continues =>
      exact continues.reacts s (hadmits rfl)

theorem aborting_reacts {reason : Failure}
    (h : s.stepTask id ⟨.aborting reason, serial, mail, cancelled⟩ (.aborting reason) =
      some u) :
    Reacts id (Call.Leads ⟨.aborting reason, serial, mail, cancelled⟩) s u := by
  have hreason (mail : Option Answer) :
      Call.Leads ⟨.aborting reason, serial, mail, cancelled⟩ (.done (.error reason)) := by
    constructor
    case content => exact fun r hr => Or.inl hr
    case late => exact fun _ => ⟨rfl, rfl⟩
    case question => exact fun _ => rfl
  simp only [stepTask] at h
  split at h
  · cases h
    exact (Session.finish_reacts _ (hreason _)).after s.sameRequests_reset
  · contradiction

theorem shuttingDown_reacts {k : Nat} {force : Bool} {number deadline : Nat}
    (h : s.stepTask id ⟨.shuttingDown k force number deadline, serial, mail, cancelled⟩
      (.shuttingDown k force number deadline) = some u) :
    Reacts id (Call.Leads ⟨.shuttingDown k force number deadline, serial, mail, cancelled⟩)
      s u := by
  have hexit (mail : Option Answer) :
      Call.Leads ⟨.shuttingDown k force number deadline, serial, mail, cancelled⟩
        (.exiting k force) :=
    Call.leads_of_plain rfl rfl rfl (Or.inl rfl)
  simp only [stepTask] at h
  split at h
  case h_1 =>
    cases h
    exact s.sendNotification_reacts k _ _ (hexit _) rfl
  case h_2 =>
    split at h
    case isFalse => contradiction
    case isTrue =>
      cases h
      exact (Session.sendNotification_reacts _ k _ _ (hexit _) rfl).after
        (s.sameRequests_abandon k number)

/-- Every step of a call prepares and turns to a task that its present one leads to. -/
theorem stepTask_reacts {call : Call} (h : s.stepTask id call call.task = some u) :
    Reacts id call.Leads s u := by
  rcases call with ⟨task, serial, mail, cancelled⟩
  cases task with
  | starting launch =>
      simp only [stepTask] at h
      split at h
      · cases h
        exact s.start_reacts (Call.admits rfl) launch
      · contradiction
  | introducing k number deadline => exact introducing_reacts h
  | announcing k => exact announcing_reacts h
  | aborting reason => exact aborting_reacts h
  | stopping force =>
      simp only [stepTask] at h
      split at h
      · cases h
        exact s.stop_reacts (Call.admits rfl) force
      · contradiction
  | shuttingDown k force number deadline => exact shuttingDown_reacts h
  | exiting k force =>
      simp only [stepTask] at h
      split at h
      · cases h
        exact s.terminate_reacts k force (Call.leads_of_plain rfl rfl rfl (Or.inl rfl))
      · contradiction
  | terminating =>
      have hdone (mail : Option Answer) :
          Call.Leads ⟨.terminating, serial, mail, cancelled⟩ (.done (.ok .unit)) :=
        Call.leads_of_plain rfl rfl rfl (Or.inl rfl)
      simp only [stepTask] at h
      split at h
      · cases h
        exact (Session.finish_reacts _ (hdone _)).after s.sameRequests_reset
      · contradiction
  | _ =>
      rcases stepTask_userStep rfl h with ⟨effects, step, rfl⟩
      exact step.reacts

end Session
end LanguageClient
