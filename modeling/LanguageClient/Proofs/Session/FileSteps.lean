import LanguageClient.Proofs.Session.EditCalls
import LanguageClient.Proofs.Workspace.Rewriting

/-!
# What actions do to files

Most actions of a session do nothing to the workspace. Only a call that is at work on a file
does: it makes a plan for the file when it finds it, and writes the file when it carries the
plan out. This module says so once and for all, whichever calls are under way.
-/

namespace LanguageClient

variable {D : Type}

/-!
# Effects that leave files alone
-/

def Task.isWriting : Task -> Bool
  | .editing _ (.write _) => true
  | _ => false

def Effect.isHandsOff : Effect D -> Bool
  | .store _ => false
  | .rest task | .ask _ _ task => !task.isWriting
  | _ => true

namespace Session

section

variable {s : Session D} {e : Effect D} {effects : List (Effect D)}

theorem Continues.isHandsOff {job : EditJob} {result : FileEditResult}
    (h : Continues job result e) : e.isHandsOff = true := by
  cases h <;> rfl

theorem FailsSync.isHandsOff {failure : Failure} {next : AfterSync}
    (h : FailsSync failure next e) : e.isHandsOff = true := by
  cases h with
  | save _ _ _ continues => exact continues.isHandsOff
  | _ => rfl

theorem StartsSync.isHandsOff {name : Text} {next : AfterSync} (h : StartsSync s name next e) :
    e.isHandsOff = true := by
  cases h with
  | reads => rfl
  | fails _ _ fails => exact fails.isHandsOff

theorem EndsSync.handsOff {synced : SyncedDocument} {next : AfterSync}
    (h : EndsSync s synced next effects) : forall e, e ∈ effects -> e.isHandsOff = true := by
  cases h with
  | asks => exact List.forall_mem_cons.mpr ⟨rfl, List.forall_mem_singleton.mpr rfl⟩
  | continues _ _ _ _ continues => exact List.forall_mem_singleton.mpr continues.isHandsOff
  | _ => exact List.forall_mem_singleton.mpr rfl

theorem LooksUp.isHandsOff {view : View} (h : LooksUp s view e) : e.isHandsOff = true := by
  cases h <;> rfl

theorem OpeningStep.handsOff {op : Operation} (h : OpeningStep s op effects) :
    forall e, e ∈ effects -> e.isHandsOff = true := by
  cases h with
  | asks => exact List.forall_mem_cons.mpr ⟨rfl, List.forall_mem_singleton.mpr rfl⟩
  | syncs _ _ starts | queries _ _ _ starts =>
      exact List.forall_mem_singleton.mpr starts.isHandsOff
  | looksUp _ _ _ _ looks => exact List.forall_mem_singleton.mpr looks.isHandsOff
  | _ => exact List.forall_mem_singleton.mpr rfl

theorem UserStep.handsOff [FileSystem D] {call : Call} {task : Task}
    (h : UserStep s call task effects) (hother : forall job stage, task ≠ .editing job stage) :
    forall e, e ∈ effects -> e.isHandsOff = true := by
  cases h with
  | withdraws | gaveUp =>
      exact List.forall_mem_cons.mpr ⟨rfl, List.forall_mem_singleton.mpr rfl⟩
  | cannotRead _ _ _ _ _ _ fails | syncRefused _ _ _ _ fails | notSynced _ _ _ _ _ fails =>
      exact List.forall_mem_singleton.mpr fails.isHandsOff
  | synced _ _ _ _ ends => exact ends.handsOff
  | announced _ _ _ _ _ _ _ looks | expired _ _ _ _ _ _ looks =>
      exact List.forall_mem_singleton.mpr looks.isHandsOff
  | isOpen _ _ _ _ starts => exact List.forall_mem_singleton.mpr starts.isHandsOff
  | notOpen _ _ _ _ _ _ continues | saved _ _ _ _ _ continues =>
      exact List.forall_mem_singleton.mpr continues.isHandsOff
  | edits | cannotEdit | edited | leftAlone => exact absurd rfl (hother _ _)
  | _ => exact List.forall_mem_singleton.mpr rfl

theorem LifecycleStep.handsOff {id : Nat} {call : Call} {task : Task}
    (h : LifecycleStep s id call task effects) :
    forall e, e ∈ effects -> e.isHandsOff = true := by
  have hforgetting : forall e, e ∈ s.forgetting -> e.isHandsOff = true := by
    unfold forgetting
    split
    · exact List.forall_mem_singleton.mpr rfl
    · exact List.forall_mem_nil _
  have hgivesUp {k number : Nat} {before : List (Effect D)} (h : GivesUp k number before) :
      forall e, e ∈ before -> e.isHandsOff = true := by
    rcases h with rfl | rfl
    · exact List.forall_mem_nil _
    · exact List.forall_mem_singleton.mpr rfl
  cases h with
  | refused =>
      exact List.forall_mem_append.mpr ⟨hforgetting, List.forall_mem_singleton.mpr rfl⟩
  | launched =>
      refine List.forall_mem_append.mpr ⟨hforgetting, List.forall_mem_cons.mpr ⟨rfl, ?_⟩⟩
      exact List.forall_mem_cons.mpr ⟨rfl, List.forall_mem_singleton.mpr rfl⟩
  | notIntroduced _ _ _ _ _ givesUp =>
      refine List.forall_mem_append.mpr ⟨hgivesUp givesUp, List.forall_mem_cons.mpr ⟨rfl, ?_⟩⟩
      exact List.forall_mem_singleton.mpr rfl
  | sentExit _ _ _ _ _ givesUp =>
      exact List.forall_mem_append.mpr ⟨hgivesUp givesUp, List.forall_mem_singleton.mpr rfl⟩
  | askedToShutDown =>
      refine List.forall_mem_cons.mpr ⟨rfl, List.forall_mem_cons.mpr ⟨rfl, ?_⟩⟩
      exact List.forall_mem_singleton.mpr rfl
  | introduced | announced | notAnnounced | aborted | alreadyEnded | cutShort | stopped =>
      exact List.forall_mem_cons.mpr ⟨rfl, List.forall_mem_singleton.mpr rfl⟩
  | alreadyRunning | nothingToStop | exited => exact List.forall_mem_singleton.mpr rfl

theorem workspace_apply {id : Nat} (h : e.isHandsOff = true) :
    (e.apply id s).workspace = s.workspace := by
  cases e with
  | ask k question task =>
      rw [Effect.apply, ask]
      split
      · rfl
      · exact workspace_enqueue ..
  | abandon k number => exact workspace_enqueue ..
  | store => contradiction
  | _ => rfl

theorem workspace_undergo {id : Nat} (h : forall e, e ∈ effects -> e.isHandsOff = true) :
    (s.undergo id effects).workspace = s.workspace := by
  induction effects generalizing s with
  | nil => rfl
  | cons e rest ih =>
      exact (ih (List.forall_mem_cons.mp h).2).trans
        (workspace_apply (List.forall_mem_cons.mp h).1)

theorem isWriting_of_task? {task : Task} (h : e.isHandsOff = true)
    (htask : e.task? = some task) :
    task.isWriting = false := by
  cases e with
  | rest | ask =>
      cases htask
      rwa [Effect.isHandsOff, Bool.not_eq_true'] at h
  | finish =>
      cases htask
      rfl
  | _ => contradiction

theorem task?_of_undergo_handsOff {id j : Nat} {task : Task} (hid : id < s.calls.length)
    (h : forall e, e ∈ effects -> e.isHandsOff = true) (hwriting : task.isWriting = true)
    (htask : (s.undergo id effects).task? j = some task) : s.task? j = some task := by
  rcases task?_of_undergo hid htask with hsame | ⟨-, hlast⟩
  · exact hsame
  · rcases Effect.exists_of_lastTask? hlast with ⟨e, he, hturn⟩
    rw [isWriting_of_task? (h e he) hturn] at hwriting
    contradiction

end

end Session

/-!
# Plans that are carried out
-/

variable [FileSystem D]

def Task.carriesOut? (disk : D) : Task -> Option EditPlan
  | .editing _ (.write plan) =>
    match FileSystem.write disk plan.path plan.content with
    | .ok _ => some plan
    | .error _ => none
  | _ => none

def Moment.carriedOut? (m : Moment D) : Option EditPlan :=
  match m.action with
  | .goOn id => (m.before.task? id).bind (Task.carriesOut? m.before.workspace.disk)
  | _ => none

theorem carriesOut?_of_not_isWriting {task : Task} (h : task.isWriting = false) (disk : D) :
    task.carriesOut? disk = none := by
  unfold Task.carriesOut?
  split
  · contradiction
  · rfl

namespace Session

/-- What an action does to files: nothing, or a call makes a plan for a file,
or it carries one out. -/
inductive FileStep (s : Session D) (a : Action) (u : Session D) : Prop where
  | passes (disk : u.workspace.disk = s.workspace.disk)
      (root : u.workspace.root = s.workspace.root)
      (idle : (⟨s, a, u⟩ : Moment D).carriedOut? = none)
      (tasks : forall id task, task.isWriting = true -> u.task? id = some task ->
        s.task? id = some task)
  | plans (id : Nat) (job : EditJob) (target : EditTarget) (plan : EditPlan)
      (action : a = .goOn id) (before : s.task? id = some (.editing job (.snapshot target)))
      (step : s.workspace.editStep (.snapshot target) = .next s.workspace (.write plan))
      (after : u.task? id = some (.editing job (.write plan)))
      (same : u.workspace = s.workspace)
      (tasks : forall j task, j ≠ id -> u.task? j = some task -> s.task? j = some task)
  | writes (id : Nat) (job : EditJob) (plan : EditPlan) (action : a = .goOn id)
      (before : s.task? id = some (.editing job (.write plan)))
      (step : s.workspace.editStep (.write plan) = .next u.workspace (.reread plan))
      (after : u.task? id = some (.editing job (.reread plan)))
      (tasks : forall j task, j ≠ id -> u.task? j = some task -> s.task? j = some task)

section

variable {s u : Session D} {a : Action}

theorem task?_of_goOn {id j : Nat} {task : Task} (h : s.act (.goOn id) = some u) (hne : j ≠ id)
    (htask : u.task? j = some task) : s.task? j = some task := by
  rcases stepCall_effects h with ⟨call, effects, hcall, -, rfl⟩
  rcases task?_of_undergo (lt_of_call? hcall) htask with hsame | ⟨heq, -⟩
  · exact hsame
  · exact absurd heq.symm hne

theorem carriesOut?_of_not_next {w : Workspace D} {job : EditJob} {stage : EditStage}
    (h : forall w' later, w.editStep stage ≠ .next w' later) :
    (Task.editing job stage).carriesOut? w.disk = none := by
  unfold Task.carriesOut?
  split
  case h_1 _ plan heq =>
    cases heq
    split
    case h_1 disk hdisk =>
      refine absurd ?_ (h { w with disk } (.reread plan))
      simp only [Workspace.editStep, Workspace.write, hdisk]
    case h_2 => rfl
  case h_2 => rfl

theorem fileStep_of_editMove {id : Nat} {job : EditJob} {stage : EditStage} {task : Task}
    (h : s.act (.goOn id) = some u) (hbefore : s.task? id = some (.editing job stage))
    (hafter : u.task? id = some task)
    (hmove : EditMove s.workspace (.editing job stage) u.workspace task) :
    FileStep s (.goOn id) u := by
  have hothers (j : Nat) (other : Task) (hne : j ≠ id) (hj : u.task? j = some other) :
      s.task? j = some other := task?_of_goOn h hne hj
  have hidle (hcarries : (Task.editing job stage).carriesOut? s.workspace.disk = none) :
      (⟨s, .goOn id, u⟩ : Moment D).carriedOut? = none := by
    simp only [Moment.carriedOut?, hbefore, Option.bind_some, hcarries]
  have htasks (hrest : task.isWriting = false) (j : Nat) (other : Task)
      (hwriting : other.isWriting = true) (hj : u.task? j = some other) :
      s.task? j = some other := by
    by_cases hne : j = id
    · subst hne
      rw [hafter] at hj
      cases hj
      rw [hrest] at hwriting
      contradiction
    · exact hothers j other hne hj
  generalize hw : u.workspace = w' at hmove
  cases hmove with
  | advances _ hnext =>
      cases stage with
      | snapshot target =>
          rcases Workspace.editStep_snapshot_next hnext with
            ⟨path, before, content, text, -, -, -, -, rfl, rfl⟩
          exact .plans id job target _ rfl hbefore hnext hafter hw hothers
      | write plan =>
          rcases Workspace.editStep_write_next hnext with ⟨-, rfl⟩
          exact .writes id job plan rfl hbefore (hw ▸ hnext) hafter hothers
      | reread plan =>
          rcases Workspace.editStep_reread_next hnext with ⟨rfl, after, rfl⟩
          exact .passes (congrArg _ hw) (congrArg _ hw) (hidle rfl) (htasks rfl)
      | record plan after => exact absurd hnext Workspace.not_editStep_record_next
  | fails _ hfailed =>
      refine .passes (congrArg _ hw) (congrArg _ hw) (hidle (carriesOut?_of_not_next ?_))
        (htasks rfl)
      rw [hfailed]
      nofun
  | finishes _ hfinished leaves =>
      rcases Workspace.editStep_finished_eq hfinished with ⟨journal, rfl⟩
      refine .passes (congrArg (·.disk) hw) (congrArg (·.root) hw)
        (hidle (carriesOut?_of_not_next ?_)) (htasks ?_)
      · rw [hfinished]
        nofun
      · cases leaves with
        | continues other =>
            unfold EditJob.continued
            split <;> rfl
        | holds _ _ held => cases task <;> first | rfl | contradiction
  | rests held => contradiction

theorem fileStep_of_handsOff {id : Nat} {effects : List (Effect D)} (hid : id < s.calls.length)
    (hhandsOff : forall e, e ∈ effects -> e.isHandsOff = true) (hu : u = s.undergo id effects)
    (hidle : (⟨s, a, u⟩ : Moment D).carriedOut? = none) : FileStep s a u := by
  have hworkspace : u.workspace = s.workspace := hu ▸ workspace_undergo hhandsOff
  refine .passes (congrArg _ hworkspace) (congrArg _ hworkspace) hidle ?_
  intro j task hwriting htask
  exact task?_of_undergo_handsOff hid hhandsOff hwriting (hu ▸ htask)

theorem goOn_fileStep {id : Nat} (h : s.act (.goOn id) = some u) :
    FileStep s (.goOn id) u := by
  rcases stepCall_effects h with ⟨call, -, hcall, -, -⟩
  have htask := task?_of_call? hcall
  have hid := lt_of_call? hcall
  rcases goOn_eq_some h htask with ⟨-, call', hstep⟩
  by_cases hediting : exists job stage, call.task = .editing job stage
  · rcases hediting with ⟨job, stage, hediting⟩
    rw [hediting] at htask
    rcases goOn_editMove h htask rfl with ⟨task, hafter, hmove⟩
    exact fileStep_of_editMove h htask hafter hmove
  · have hother (job : EditJob) (stage : EditStage) : call.task ≠ .editing job stage :=
      fun heq => hediting ⟨job, stage, heq⟩
    have hidle : (⟨s, .goOn id, u⟩ : Moment D).carriedOut? = none := by
      have hrests : call.task.isWriting = false := by
        unfold Task.isWriting
        split
        case h_1 heq => exact absurd heq (hother _ _)
        case h_2 => rfl
      simp only [Moment.carriedOut?, htask, Option.bind_some,
        carriesOut?_of_not_isWriting hrests]
    cases hlifecycle : call.task.isLifecycle with
    | true =>
        rcases stepTask_lifecycleStep hlifecycle hstep with ⟨effects, step, hu⟩
        exact fileStep_of_handsOff hid step.handsOff hu hidle
    | false =>
        rcases stepTask_userStep hlifecycle hstep with ⟨effects, step, hu⟩
        exact fileStep_of_handsOff hid (step.handsOff hother) hu hidle

omit [FileSystem D] in
theorem beginCall_handsOff (s : Session D) (op : Operation) :
    exists effects : List (Effect D), (forall e, e ∈ effects -> e.isHandsOff = true) ∧
      s.beginCall op = s.addCall.undergo s.calls.length effects := by
  have hopens (hstart : forall launch, op ≠ .start launch)
      (hstop : forall force, op ≠ .stop force) :
      exists effects : List (Effect D), (forall e, e ∈ effects -> e.isHandsOff = true) ∧
        s.beginCall op = s.addCall.undergo s.calls.length effects := by
    rcases s.addCall.begin_openingStep s.calls.length hstart hstop with ⟨effects, step, hu⟩
    exact ⟨effects, step.handsOff, hu⟩
  cases op with
  | start launch => exact ⟨[.lineUp, .rest (.starting launch)], List.all_eq_true.mp rfl, rfl⟩
  | stop force => exact ⟨[.lineUp, .rest (.stopping force)], List.all_eq_true.mp rfl, rfl⟩
  | _ => exact hopens nofun nofun

/-- Every action does one of these things to files. -/
theorem fileStep_of_act (h : s.act a = some u) : FileStep s a u := by
  have hpasses (hworkspace : u.workspace = s.workspace)
      (hidle : (⟨s, a, u⟩ : Moment D).carriedOut? = none)
      (htasks : forall id task, task.isWriting = true -> u.task? id = some task ->
        s.task? id = some task) : FileStep s a u :=
    .passes (congrArg _ hworkspace) (congrArg _ hworkspace) hidle htasks
  have hidle (haction : forall id, a ≠ .goOn id) :
      (⟨s, a, u⟩ : Moment D).carriedOut? = none := by
    unfold Moment.carriedOut?
    split
    case h_1 id hid => exact absurd hid (haction id)
    case h_2 => rfl
  cases kind_of_act h with
  | connection k c c' e _ _ _ _ after action =>
      dsimp only at after action
      rcases (s.setConnection k c').emit_eq e with ⟨calls, -, heq⟩
      refine hpasses (after ▸ heq ▸ rfl) (hidle action) fun id task _ htask => ?_
      rwa [after, task?_emit] at htask
  | begins op _ action _ _ =>
      dsimp only at action
      subst action
      cases h
      rcases s.beginCall_handsOff op with ⟨effects, hhandsOff, hu⟩
      refine hpasses ((hu ▸ workspace_undergo hhandsOff).trans rfl) (hidle nofun) ?_
      intro id task hwriting htask
      rw [hu] at htask
      have hadded :=
        task?_of_undergo_handsOff s.calls_length_lt_addCall hhandsOff hwriting htask
      rw [task?_addCall] at hadded
      split at hadded
      · cases hadded
        contradiction
      · exact hadded
  | goesOn id _ _ action _ _ _ =>
      dsimp only at action
      subst action
      exact goOn_fileStep h
  | withdraws id action after =>
      dsimp only at action after
      refine hpasses (after ▸ rfl) (hidle (action ▸ nofun)) fun j task _ htask => ?_
      rwa [after, task?_cancelled] at htask
  | world k f _ _ action after =>
      dsimp only at after action
      refine hpasses (after ▸ rfl) (hidle action) fun j task _ htask => ?_
      rwa [after] at htask
  | elapses ms action after =>
      dsimp only at after action
      refine hpasses (after ▸ rfl) (hidle (action ▸ nofun)) fun j task _ htask => ?_
      rwa [after] at htask

end

end Session
end LanguageClient
