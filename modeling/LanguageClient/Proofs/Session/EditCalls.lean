import LanguageClient.Proofs.Session.Influence
import LanguageClient.Proofs.Session.Turns

/-!
# Calls that edit files

A call that edits files goes through the stages of one file after the other. Between two
files it may tell the server about the one it has just written; that changes nothing in the
workspace and nothing about what is left to do. Only steps of the call move it on, whatever
else happens in the session.
-/

namespace LanguageClient

def FileEditResult.unsynced (r : FileEditResult) : FileEditResult :=
  { r with syncedVersion := none }

def EditJob.continued (job : EditJob) (result : FileEditResult) : Task :=
  match job.remaining with
  | target :: remaining =>
    .editing { job with remaining, finished := result :: job.finished } (.snapshot target)
  | [] =>
    .done (.ok (if job.whole then .files ⟨(result :: job.finished).reverse⟩ else .file result))

namespace Task

/-- The job that rests while the server hears about a file that was written. -/
def held? : Task -> Option (EditJob × FileEditResult)
  | .checking job result | .saving job result | .reading _ _ (.save job result)
  | .handing _ _ (.save job result) | .syncing (.save job result) => some (job, result)
  | _ => none

def editsFiles : Task -> Bool
  | .editing .. => true
  | task => task.held?.isSome

theorem editsFiles_of_held {task : Task} {held : EditJob × FileEditResult}
    (h : task.held? = some held) : task.editsFiles = true := by
  unfold editsFiles
  split
  · rfl
  · rw [h, Option.isSome_some]

theorem isLifecycle_of_held {task : Task} {held : EditJob × FileEditResult}
    (h : task.held? = some held) : task.isLifecycle = false := by
  cases task <;> first | rfl | contradiction

end Task

inductive EditJob.Leaves (job : EditJob) (result : FileEditResult) : Task -> Prop where
  | continues (other : FileEditResult) (same : other.unsynced = result.unsynced) :
      Leaves job result (job.continued other)
  | holds (task : Task) (other : FileEditResult) (held : task.held? = some (job, other))
      (same : other.unsynced = result.unsynced) : Leaves job result task

def EditJob.LeftBy {D : Type} (job : EditJob) (result : FileEditResult) (e : Effect D) :
    Prop :=
  exists task, e.task? = some task ∧ job.Leaves result task

/-- A step of a call that edits files: the workspace and the task before and after it. -/
inductive EditMove {D : Type} [FileSystem D] (w : Workspace D) :
    Task -> Workspace D -> Task -> Prop where
  | advances {w' : Workspace D} {stage stage' : EditStage} (job : EditJob)
      (step : w.editStep stage = .next w' stage') :
      EditMove w (.editing job stage) w' (.editing job stage')
  | fails {stage : EditStage} {e : Failure} (job : EditJob)
      (step : w.editStep stage = .failed e) :
      EditMove w (.editing job stage) w (.done (.error e))
  | finishes {w' : Workspace D} {stage : EditStage} {result : FileEditResult} {task : Task}
      (job : EditJob) (step : w.editStep stage = .finished w' result)
      (leaves : job.Leaves result task) : EditMove w (.editing job stage) w' task
  | rests {task task' : Task} {job : EditJob} {result : FileEditResult}
      (held : task.held? = some (job, result)) (leaves : job.Leaves result task') :
      EditMove w task w task'

namespace Session

variable {D : Type}

/-!
# Turning to a task
-/

def Stands (s : Session D) (id : Nat) (w : Workspace D) (kind : Task -> Prop) : Prop :=
  s.workspace = w ∧ exists task, s.task? id = some task ∧ kind task

theorem workspace_enqueue (s : Session D) (k : Nat) (command : Command) :
    (s.enqueue k command).workspace = s.workspace := by
  rw [enqueue]
  split <;> rfl

theorem task?_finish {s : Session D} {id : Nat} (h : id < s.calls.length) (outcome : Outcome)
    (j : Nat) :
    (s.finish id outcome).task? j = if id = j then some (.done outcome) else s.task? j :=
  task?_setTask (s := { s with turns := s.turns.erase id }) h _ j

section

variable {s : Session D} {id : Nat} {kind : Task -> Prop} (h : id < s.calls.length)

include h

theorem setTask_stands {task : Task} (hkind : kind task) :
    (s.setTask id task).Stands id s.workspace kind :=
  ⟨rfl, task, by rw [task?_setTask h, if_pos rfl], hkind⟩

theorem finish_stands {outcome : Outcome} (hkind : kind (.done outcome)) :
    (s.finish id outcome).Stands id s.workspace kind :=
  ⟨rfl, .done outcome, by rw [task?_finish h, if_pos rfl], hkind⟩

theorem ask_stands (k : Nat) (question : Ticket -> Command) {task : Task} (hkind : kind task) :
    (s.ask id k question task).Stands id s.workspace kind := by
  rcases call?_eq_some_of_lt h with ⟨call, hcall⟩
  refine ⟨?_, task, by rw [task?_ask hcall, if_pos rfl], hkind⟩
  rw [ask_eq hcall]
  exact workspace_enqueue _ _ _

theorem turn_stands {e : Effect D} {task : Task} (htask : e.task? = some task)
    (hkind : kind task) : (s.undergo id [e]).Stands id s.workspace kind := by
  cases e with
  | rest task' =>
      cases htask
      exact setTask_stands h hkind
  | finish outcome =>
      cases htask
      exact finish_stands h hkind
  | ask k question task' =>
      cases htask
      exact ask_stands h k question.command hkind
  | _ => contradiction

end

/-!
# Steps of the call
-/

section

variable {s : Session D} {job : EditJob} {result : FileEditResult} {e : Effect D}

theorem Continues.leaves {other : FileEditResult} (h : Continues job other e)
    (hsame : other.unsynced = result.unsynced) : job.LeftBy result e := by
  refine ⟨job.continued other, ?_, .continues other hsame⟩
  unfold EditJob.continued
  cases h with
  | next target remaining more =>
      rw [more]
      rfl
  | last done =>
      rw [done]
      rfl

theorem ChecksOpen.leaves (h : ChecksOpen s job result e) : job.LeftBy result e := by
  cases h with
  | asks => exact ⟨_, rfl, .holds _ result rfl rfl⟩
  | continues _ _ continues => exact continues.leaves rfl

theorem FailsSync.leaves {failure : Failure} (h : FailsSync failure (.save job result) e) :
    job.LeftBy result e := by
  cases h with
  | save _ _ _ continues => exact continues.leaves rfl

theorem StartsSync.leaves {name : Text} (h : StartsSync s name (.save job result) e) :
    job.LeftBy result e := by
  cases h with
  | reads => exact ⟨_, rfl, .holds _ result rfl rfl⟩
  | fails _ _ fails => exact fails.leaves

theorem EndsSync.leaves {synced : SyncedDocument} {effects : List (Effect D)}
    (h : EndsSync s synced (.save job result) effects) :
    exists e, effects = [e] ∧ job.LeftBy result e := by
  cases h with
  | saves => exact ⟨_, rfl, _, rfl, .holds _ _ rfl rfl⟩
  | continues _ _ e _ continues => exact ⟨e, rfl, continues.leaves rfl⟩

theorem UserStep.leaves [FileSystem D] {call : Call} {task : Task} {effects : List (Effect D)}
    (h : UserStep s call task effects) (hheld : task.held? = some (job, result)) :
    exists e, effects = [e] ∧ job.LeftBy result e := by
  cases h with
  | reads _ _ next | hands _ _ next =>
      cases next with
      | save =>
          cases hheld
          exact ⟨_, rfl, _, rfl, .holds _ result rfl rfl⟩
      | _ => contradiction
  | cannotRead _ _ next _ e _ fails | syncRefused next _ e _ fails
      | notSynced next _ e _ _ fails =>
      cases next with
      | save =>
          cases hheld
          exact ⟨e, rfl, fails.leaves⟩
      | _ => contradiction
  | synced next _ _ _ ends =>
      cases next with
      | save =>
          cases hheld
          exact ends.leaves
      | _ => contradiction
  | isOpen _ _ e _ starts =>
      cases hheld
      exact ⟨e, rfl, starts.leaves⟩
  | notOpen _ _ _ e _ _ continues | saved _ _ _ e _ continues =>
      cases hheld
      exact ⟨e, rfl, continues.leaves rfl⟩
  | _ => contradiction

end

theorem goOn_eq_some [FileSystem D] {s u : Session D} {id : Nat} {task : Task}
    (h : s.act (.goOn id) = some u) (htask : s.task? id = some task) :
    id < s.calls.length ∧ exists call, s.stepTask id call task = some u := by
  simp only [act, stepCall] at h
  split at h
  case h_1 call hcall =>
    rw [task?_of_call? hcall] at htask
    rw [Option.some.inj htask] at h
    exact ⟨lt_of_call? hcall, call, h⟩
  case h_2 => contradiction

theorem goOn_editMove [FileSystem D] {s u : Session D} {id : Nat} {task : Task}
    (h : s.act (.goOn id) = some u) (htask : s.task? id = some task)
    (hedits : task.editsFiles = true) :
    exists task', u.task? id = some task' ∧ EditMove s.workspace task u.workspace task' := by
  rcases goOn_eq_some h htask with ⟨hid, call, hstep⟩
  suffices hstands : u.Stands id u.workspace (EditMove s.workspace task u.workspace) from
    hstands.2
  unfold Task.editsFiles at hedits
  split at hedits
  case h_1 job stage =>
    have hleaves {w' : Workspace D} {result : FileEditResult} {e : Effect D}
        (step : s.workspace.editStep stage = .finished w' result)
        (hleft : job.LeftBy result e) :
        (s.undergo id [.store w', e]).Stands id (s.undergo id [.store w', e]).workspace
          (EditMove s.workspace (.editing job stage)
            (s.undergo id [.store w', e]).workspace) := by
      rcases hleft with ⟨task', htask', hleaves⟩
      rcases turn_stands (s := { s with workspace := w' }) hid htask' hleaves with
        ⟨hworkspace, task'', htask'', hleaves'⟩
      have hworkspace : (s.undergo id [.store w', e]).workspace = w' := hworkspace
      refine ⟨rfl, task'', htask'', ?_⟩
      rw [hworkspace]
      exact .finishes job step hleaves'
    rcases stepTask_userStep rfl hstep with ⟨effects, step, rfl⟩
    cases step with
    | edits _ _ _ w' step =>
        exact turn_stands (s := { s with workspace := w' }) hid rfl (.advances job step)
    | cannotEdit _ _ _ step => exact turn_stands hid rfl (.fails job step)
    | edited _ _ _ _ _ step _ checks => exact hleaves step checks.leaves
    | leftAlone _ _ _ _ _ step _ continues => exact hleaves step (continues.leaves rfl)
  case h_2 =>
    rcases Option.isSome_iff_exists.mp hedits with ⟨⟨job, result⟩, hheld⟩
    rcases stepTask_userStep (Task.isLifecycle_of_held hheld) hstep with ⟨effects, step, rfl⟩
    rcases step.leaves hheld with ⟨e, rfl, task', htask', hleaves⟩
    rcases turn_stands hid htask' hleaves with ⟨hworkspace, task'', htask'', hleaves'⟩
    exact ⟨rfl, task'', htask'', hworkspace ▸ .rests hheld hleaves'⟩

theorem not_goOn_done [FileSystem D] {s u : Session D} {id : Nat} {outcome : Outcome}
    (htask : s.task? id = some (.done outcome)) : s.act (.goOn id) ≠ some u := by
  intro h
  rcases goOn_eq_some h htask with ⟨_, call, hstep⟩
  contradiction

/-!
# Everything else
-/

/-- Nothing but its own steps moves a call on. -/
theorem task?_of_act [FileSystem D] {s u : Session D} {a : Action} {id : Nat} {task : Task}
    (h : s.act a = some u) (htask : s.task? id = some task) (hother : a ≠ .goOn id) :
    u.task? id = some task := by
  have hid : id < s.calls.length := by
    rcases Option.map_eq_some_iff.mp htask with ⟨call, hcall, -⟩
    exact lt_of_call? hcall
  cases kind_of_act h with
  | connection k c c' e _ _ _ _ after =>
      dsimp only at after
      rw [after, task?_emit]
      exact htask
  | begins op effects _ _ after =>
      dsimp only at after
      rw [after, undergo_task? s.calls_length_lt_addCall, if_neg (Nat.ne_of_gt hid),
        task?_addCall, if_neg (Nat.ne_of_gt hid)]
      exact htask
  | goesOn j call effects action before _ after =>
      dsimp only at action after before
      have hne : j ≠ id := fun heq => hother (heq ▸ action)
      rw [after, undergo_task? (lt_of_call? before), if_neg hne]
      exact htask
  | withdraws j _ after =>
      dsimp only at after
      rw [after, task?_cancelled]
      exact htask
  | world k f _ _ _ after =>
      dsimp only at after
      rw [after]
      exact htask
  | elapses ms _ after =>
      dsimp only at after
      rw [after]
      exact htask

theorem editMove_or_stays [FileSystem D] {s u : Session D} {a : Action} {id : Nat}
    {task : Task} (h : s.act a = some u) (htask : s.task? id = some task)
    (hedits : task.editsFiles = true ∨ exists outcome, task = .done outcome) :
    (a = .goOn id ∧ exists task', u.task? id = some task' ∧
        EditMove s.workspace task u.workspace task') ∨
      (a ≠ .goOn id ∧ u.task? id = some task) := by
  by_cases hown : a = .goOn id
  · subst hown
    rcases hedits with hedits | ⟨outcome, rfl⟩
    · exact Or.inl ⟨rfl, goOn_editMove h htask hedits⟩
    · exact absurd h (not_goOn_done htask)
  · exact Or.inr ⟨hown, task?_of_act h htask hown⟩

theorem undergo_settings (s : Session D) (id : Nat) (effects : List (Effect D)) :
    (s.undergo id effects).settings = s.settings := by
  induction effects generalizing s with
  | nil => rfl
  | cons e rest ih => exact (ih _).trans (s.apply_settings id e)

theorem settings_of_act [FileSystem D] {s u : Session D} {a : Action} (h : s.act a = some u) :
    u.settings = s.settings := by
  cases kind_of_act h with
  | connection k c c' e _ _ _ _ after =>
      dsimp only at after
      rcases (s.setConnection k c').emit_eq e with ⟨calls, -, heq⟩
      rw [after, heq]
      rfl
  | begins op effects _ _ after =>
      dsimp only at after
      rw [after, undergo_settings]
      rfl
  | goesOn j call effects action before _ after =>
      dsimp only at after
      rw [after, undergo_settings]
  | withdraws j _ after =>
      dsimp only at after
      rw [after]
      rfl
  | world k f _ _ _ after =>
      dsimp only at after
      rw [after]
      rfl
  | elapses ms _ after =>
      dsimp only at after
      rw [after]

end Session

/-!
# Beginning
-/

def Operation.editTask? (allowed : Bool) : Operation -> Option Task
  | .applyEdits name edits context =>
    some (if allowed then .editing ⟨[], [], false⟩ (.snapshot ⟨name, edits, context⟩)
      else .done (.error .writesDisabled))
  | .applyWorkspaceEdit edit context =>
    some (if allowed then
      match edit.targets context with
      | .error e => .done (.error e)
      | .ok [] => .done (.ok (.files ⟨[]⟩))
      | .ok (target :: remaining) => .editing ⟨remaining, [], true⟩ (.snapshot target)
    else .done (.error .writesDisabled))
  | _ => none

theorem exists_editTask {op : Operation} (h : op.editsFiles = true) (allowed : Bool) :
    exists task, op.editTask? allowed = some task := by
  cases op <;> first
    | contradiction
    | exact ⟨_, rfl⟩

theorem editing_or_done {op : Operation} {allowed : Bool} {task : Task}
    (h : op.editTask? allowed = some task) :
    (exists job target, task = .editing job (.snapshot target)) ∨
      exists outcome, task = .done outcome := by
  cases op with
  | applyEdits name edits context =>
      cases h
      cases allowed with
      | false => exact Or.inr ⟨_, rfl⟩
      | true => exact Or.inl ⟨_, _, rfl⟩
  | applyWorkspaceEdit edit context =>
      cases h
      cases allowed with
      | false => exact Or.inr ⟨_, rfl⟩
      | true =>
          simp only [if_true]
          rcases edit.targets context with e | _ | ⟨target, remaining⟩
          · exact Or.inr ⟨_, rfl⟩
          · exact Or.inr ⟨_, rfl⟩
          · exact Or.inl ⟨_, _, rfl⟩
  | _ => contradiction

namespace Session

variable {D : Type}

theorem beginCall_editTask {s : Session D} {op : Operation} {task : Task}
    (h : op.editTask? s.settings.allowWrites = some task) :
    (s.beginCall op).workspace = s.workspace ∧
      (s.beginCall op).task? s.calls.length = some task := by
  suffices hstands : (s.beginCall op).Stands s.calls.length s.workspace (· = task) by
    rcases hstands with ⟨hworkspace, _, htask, rfl⟩
    exact ⟨hworkspace, htask⟩
  have hid := s.calls_length_lt_addCall
  have hallowed : s.addCall.settings.allowWrites = s.settings.allowWrites := rfl
  change (s.addCall.begin s.calls.length op).Stands s.calls.length s.workspace (· = task)
  cases op with
  | applyEdits name edits context =>
      cases h
      simp only [begin, hallowed]
      split
      · exact setTask_stands hid rfl
      · exact finish_stands hid rfl
  | applyWorkspaceEdit edit context =>
      cases h
      simp only [begin, hallowed]
      split
      · rcases edit.targets context with e | _ | ⟨target, remaining⟩
        · exact finish_stands hid rfl
        · exact finish_stands hid rfl
        · exact setTask_stands hid rfl
      · exact finish_stands hid rfl
  | _ => contradiction

end Session
end LanguageClient
