import LanguageClient.Proofs.Session.EditOutcomes
import LanguageClient.Proofs.Session.Progress

/-!
# Calls that edit files come to their end

Every step of a call that edits files leaves it less to do, and a call that does not wait
for an answer can always take its next step. Without a server it never waits; with one it
waits for answers that can come without anybody's help. So wherever such a call stands, it
can be brought to its end.
-/

namespace LanguageClient

/-!
# What is left to do
-/

/-- How many steps a call that edits files has yet to take, at most. -/
def Task.stepsLeft : Task -> Nat
  | .editing job stage => 9 * job.remaining.length + (5 + Workspace.stagesLeft stage)
  | .checking job _ => 9 * job.remaining.length + 5
  | .reading _ _ (.save job _) => 9 * job.remaining.length + 4
  | .handing _ _ (.save job _) => 9 * job.remaining.length + 3
  | .syncing (.save job _) => 9 * job.remaining.length + 2
  | .saving job _ => 9 * job.remaining.length + 1
  | _ => 0

theorem Workspace.stagesLeft_pos (stage : EditStage) : 0 < stagesLeft stage := by
  cases stage <;> exact Nat.succ_pos _

theorem Task.isLifecycle_of_editsFiles {task : Task} (h : task.editsFiles = true) :
    task.isLifecycle = false := by
  cases task <;> first
    | rfl
    | contradiction

def Effect.Nears {D : Type} (n : Nat) (e : Effect D) : Prop :=
  exists task, e.task? = some task ∧ task.stepsLeft < n ∧
    (task.editsFiles = true ∨ exists outcome, task = .done outcome)

namespace Session

variable {D : Type} {s : Session D} {job : EditJob} {result : FileEditResult} {e : Effect D}
  {n : Nat}

theorem Continues.nears (h : Continues job result e) (hn : 9 * job.remaining.length < n) :
    e.Nears n := by
  cases h with
  | next target remaining more =>
      rw [more, List.length_cons] at hn
      refine ⟨_, rfl, ?_, Or.inl rfl⟩
      simp only [Task.stepsLeft, Workspace.stagesLeft]
      omega
  | last => exact ⟨_, rfl, Nat.lt_of_le_of_lt (Nat.zero_le _) hn, Or.inr ⟨_, rfl⟩⟩

theorem ChecksOpen.nears (h : ChecksOpen s job result e)
    (hn : 9 * job.remaining.length + 5 < n) : e.Nears n := by
  cases h with
  | asks => exact ⟨_, rfl, hn, Or.inl rfl⟩
  | continues _ _ continues => exact continues.nears (by omega)

theorem FailsSync.nears {failure : Failure} (h : FailsSync failure (.save job result) e)
    (hn : 9 * job.remaining.length < n) : e.Nears n := by
  cases h with
  | save _ _ _ continues => exact continues.nears hn

theorem StartsSync.nears {name : Text} (h : StartsSync s name (.save job result) e)
    (hn : 9 * job.remaining.length + 4 < n) : e.Nears n := by
  cases h with
  | reads => exact ⟨_, rfl, hn, Or.inl rfl⟩
  | fails _ _ fails => exact fails.nears (by omega)

theorem EndsSync.nears {synced : SyncedDocument} {effects : List (Effect D)}
    (h : EndsSync s synced (.save job result) effects)
    (hn : 9 * job.remaining.length + 1 < n) : exists e, effects = [e] ∧ e.Nears n := by
  cases h with
  | saves => exact ⟨_, rfl, _, rfl, hn, Or.inl rfl⟩
  | continues _ _ e _ continues => exact ⟨e, rfl, continues.nears (Nat.lt_of_succ_lt hn)⟩

variable [FileSystem D] {call : Call} {task : Task} {effects : List (Effect D)}

theorem UserStep.nears (h : UserStep s call task effects) (hedits : task.editsFiles = true) :
    exists before e, effects = before ++ [e] ∧ e.Nears task.stepsLeft := by
  cases h with
  | reads _ _ next | hands _ _ next =>
      cases next with
      | save => exact ⟨[], _, rfl, _, rfl, Nat.lt_succ_self _, Or.inl rfl⟩
      | _ => contradiction
  | cannotRead _ _ next _ e _ fails =>
      cases next with
      | save => exact ⟨[], e, rfl, fails.nears (by simp only [Task.stepsLeft]; omega)⟩
      | _ => contradiction
  | syncRefused next _ e _ fails | notSynced next _ e _ _ fails =>
      cases next with
      | save => exact ⟨[], e, rfl, fails.nears (by simp only [Task.stepsLeft]; omega)⟩
      | _ => contradiction
  | synced next _ _ _ ends =>
      cases next with
      | save =>
          rcases ends.nears (Nat.lt_succ_self _) with ⟨e, rfl, hnears⟩
          exact ⟨[], e, rfl, hnears⟩
      | _ => contradiction
  | edits job _ _ _ step =>
      have hless := Workspace.editStep_advances step
      exact ⟨[_], _, rfl, _, rfl, by simp only [Task.stepsLeft]; omega, Or.inl rfl⟩
  | cannotEdit job stage =>
      exact ⟨[], _, rfl, _, rfl, by simp only [Task.stepsLeft]; omega, Or.inr ⟨_, rfl⟩⟩
  | edited job stage _ _ e _ _ checks =>
      have hstage := Workspace.stagesLeft_pos stage
      exact ⟨[_], e, rfl, checks.nears (by simp only [Task.stepsLeft]; omega)⟩
  | leftAlone job stage _ _ e _ _ continues =>
      exact ⟨[_], e, rfl, continues.nears (by simp only [Task.stepsLeft]; omega)⟩
  | isOpen _ _ e _ starts => exact ⟨[], e, rfl, starts.nears (Nat.lt_succ_self _)⟩
  | notOpen _ _ _ e _ _ continues | saved _ _ _ e _ continues =>
      exact ⟨[], e, rfl, continues.nears (by simp only [Task.stepsLeft]; omega)⟩
  | _ => contradiction

/-!
# Taking the next step
-/

variable {u : Session D} {id : Nat}

theorem exists_goOn (hcall : s.call? id = some call) (hedits : call.task.editsFiles = true)
    (hheard : call.task.listens = true -> call.mailbox ≠ none) :
    exists u, s.act (.goOn id) = some u := by
  rcases call with ⟨task, serial, mailbox, cancelled⟩
  simp only [act, stepCall, hcall]
  cases task with
  | editing job stage =>
      simp only [stepTask]
      split
      · exact ⟨_, rfl⟩
      · exact ⟨_, rfl⟩
      · split <;> exact ⟨_, rfl⟩
  | reading k name next =>
      simp only [stepTask]
      split <;> exact ⟨_, rfl⟩
  | handing k input next => exact ⟨_, rfl⟩
  | syncing next =>
      rcases Option.ne_none_iff_exists'.mp (hheard rfl) with ⟨a, rfl⟩
      simp only [stepTask]
      split
      case h_4 hnone => contradiction
      all_goals exact ⟨_, rfl⟩
  | checking job result =>
      rcases Option.ne_none_iff_exists'.mp (hheard rfl) with ⟨a, rfl⟩
      simp only [stepTask]
      split
      case h_3 hnone => contradiction
      all_goals exact ⟨_, rfl⟩
  | saving job result =>
      rcases Option.ne_none_iff_exists'.mp (hheard rfl) with ⟨a, rfl⟩
      exact ⟨_, rfl⟩
  | _ => contradiction

theorem nears_of_goOn (hcall : s.call? id = some call) (hedits : call.task.editsFiles = true)
    (hact : s.act (.goOn id) = some u) :
    exists task, u.task? id = some task ∧ task.stepsLeft < call.task.stepsLeft ∧
      (task.editsFiles = true ∨ exists outcome, task = .done outcome) := by
  simp only [act, stepCall, hcall] at hact
  rcases stepTask_userStep (Task.isLifecycle_of_editsFiles hedits) hact with
    ⟨effects, step, rfl⟩
  rcases step.nears hedits with ⟨before, e, rfl, task, htask, hnears⟩
  refine ⟨task, undergo_task?_self (lt_of_call? hcall) ?_, hnears⟩
  rw [Effect.lastTask?_append, Effect.lastTask?, Effect.lastTask?, htask]
  rfl

/-- A call that edits files comes to its end, if something holds that its steps keep and
that lets it be told whatever it listens for. -/
theorem exists_ended_of {motive : Session D -> Prop}
    (goes : forall {s u}, motive s -> s.act (.goOn id) = some u -> motive u)
    (hears : forall {s call}, motive s -> s.call? id = some call -> call.task.listens = true ->
      exists moments u, Unaided id s moments u ∧ motive u ∧ u.HasMail id call.task)
    (start : motive s) (htask : s.task? id = some task)
    (hedits : task.editsFiles = true ∨ exists outcome, task = .done outcome) :
    exists moments u outcome, Unaided id s moments u ∧ u.outcome? id = some outcome := by
  induction hleft : task.stepsLeft using Nat.strongRecOn generalizing s task with
  | ind left ih =>
      rcases hedits with hedits | ⟨outcome, rfl⟩
      case inr => exact ⟨[], s, outcome, .refl, outcome?_eq_some.mpr htask⟩
      -- First the call is told what it listens for.
      have hready : exists moments v call, Unaided id s moments v ∧ motive v ∧
          v.call? id = some call ∧ call.task = task ∧
          (call.task.listens = true -> call.mailbox ≠ none) := by
        rcases Option.map_eq_some_iff.mp htask with ⟨call, hcall, rfl⟩
        cases hlistens : call.task.listens with
        | false =>
            have hdeaf (h : call.task.listens = true) : call.mailbox ≠ none :=
              absurd (hlistens.symm.trans h) Bool.false_ne_true
            exact ⟨[], s, call, .refl, start, hcall, rfl, hdeaf⟩
        | true =>
            rcases hears start hcall hlistens with
              ⟨moments, v, hunaided, hv, call', hcall', htask', hmail⟩
            exact ⟨moments, v, call', hunaided, hv, hcall', htask', fun _ => hmail⟩
      rcases hready with ⟨moments, v, call, hunaided, hv, hcall, rfl, hheard⟩
      rcases exists_goOn hcall hedits hheard with ⟨u, hact⟩
      rcases nears_of_goOn hcall hedits hact with ⟨task', htask', hless, hedits'⟩
      rcases ih _ (hleft ▸ hless) (goes hv hact) htask' hedits' rfl with
        ⟨more, w, outcome, hmore, hended⟩
      exact ⟨_, w, outcome, (hunaided.append (.step hact (Or.inl rfl))).append hmore, hended⟩

theorem Responsive.exists_ended (h : s.Responsive) (htask : s.task? id = some task)
    (hedits : task.editsFiles = true ∨ exists outcome, task = .done outcome) :
    exists moments u outcome, Unaided id s moments u ∧ u.outcome? id = some outcome := by
  refine exists_ended_of (fun hs hact => hs.act hact)
    (fun hs hcall hlistens => ?_) h htask hedits
  rcases hs.exists_hasMail hcall hlistens with ⟨moments, u, hunaided, hmailed⟩
  exact ⟨moments, u, hunaided, hunaided.responsive hs, hmailed⟩

/-!
# Calls without a server
-/

/-- Call `id` edits files, and no server has to be told. -/
def EditsOffline (s : Session D) (id : Nat) : Prop :=
  s.ready? = none ∧ exists task, s.task? id = some task ∧
    ((exists job stage, task = .editing job stage) ∨ exists outcome, task = .done outcome)

omit [FileSystem D] in
theorem Continues.editsOffline {id : Nat} (h : Continues job result e)
    (hid : id < s.calls.length) (hready : s.ready? = none) :
    (s.undergo id [e]).EditsOffline id := by
  cases h with
  | next => exact ⟨hready, _, undergo_task?_self hid rfl, Or.inl ⟨_, _, rfl⟩⟩
  | last => exact ⟨hready, _, undergo_task?_self hid rfl, Or.inr ⟨_, rfl⟩⟩

theorem EditsOffline.goOn (h : s.EditsOffline id) (hact : s.act (.goOn id) = some u) :
    u.EditsOffline id := by
  rcases h with ⟨hready, task, htask, ⟨job, stage, rfl⟩ | ⟨outcome, rfl⟩⟩
  case inr => exact absurd hact (not_goOn_done htask)
  rcases goOn_eq_some hact htask with ⟨hid, call, hstep⟩
  rcases stepTask_userStep rfl hstep with ⟨effects, step, rfl⟩
  cases step with
  | edits => exact ⟨hready, _, undergo_task?_self hid rfl, Or.inl ⟨_, _, rfl⟩⟩
  | cannotEdit => exact ⟨hready, _, undergo_task?_self hid rfl, Or.inr ⟨_, rfl⟩⟩
  | edited _ _ w _ _ _ _ checks =>
      cases checks with
      | asks k ready => exact absurd (hready.symm.trans ready) nofun
      | continues _ _ continues =>
          exact continues.editsOffline (s := { s with workspace := w }) hid hready
  | leftAlone _ _ w _ _ _ _ continues =>
      exact continues.editsOffline (s := { s with workspace := w }) hid hready

theorem EditsOffline.exists_ended (h : s.EditsOffline id) :
    exists moments u outcome, Unaided id s moments u ∧ u.outcome? id = some outcome := by
  have hcopy := h
  rcases hcopy with ⟨_, task, htask, hedits⟩
  refine exists_ended_of EditsOffline.goOn (fun hs hcall hlistens => ?_) h htask
    (hedits.imp_left fun ⟨_, _, heq⟩ => heq ▸ rfl)
  -- Such a call never listens.
  rcases hs with ⟨_, task', htask', hedits'⟩
  cases htask'.symm.trans (task?_of_call? hcall)
  rcases hedits' with ⟨job, stage, heq⟩ | ⟨outcome, heq⟩ <;>
    · rw [heq] at hlistens
      contradiction

/-!
# Calls that are left alone
-/

theorem workspace_of_act {a : Action} (h : s.act a = some u)
    (hother : Moment.ofCall (⟨s, a, u⟩ : Moment D) = false) : u.workspace = s.workspace := by
  cases kind_of_act h with
  | connection k c c' e _ _ _ _ after =>
      dsimp only at after
      rcases (s.setConnection k c').emit_eq e with ⟨calls, -, heq⟩
      rw [after, heq]
      rfl
  | begins _ _ action | goesOn _ _ _ action =>
      dsimp only at action
      subst action
      contradiction
  | withdraws _ _ after | world _ _ _ _ _ after =>
      dsimp only at after
      rw [after]
      rfl
  | elapses _ _ after =>
      dsimp only at after
      rw [after]

theorem Solo.responsive {moments : List (Moment D)} (solo : Solo id s moments u)
    (h : s.Responsive) : u.Responsive := by
  induction solo with
  | refl => exact h
  | act _ a hact _ ih => exact ih.act hact

theorem Solo.unaided {t : Session D} {moments more : List (Moment D)}
    (solo : Solo id s moments t) (h : Unaided id t more u) :
    Solo id s (moments ++ more) u := by
  induction h with
  | refl => rwa [List.append_nil]
  | act _ a hact own ih =>
      refine List.append_assoc .. ▸ ih.act a hact (own.imp_right fun ⟨k, htends⟩ => ?_)
      exact workspace_of_act hact htends.ofCall

/-- Wherever a call that edits files has got to, it can be brought to its end, and for that
nothing need happen but steps of the call and of connections that get on by themselves. -/
theorem Course.editCall_comesToEnd {settings : Settings} {processId : Nat}
    {workspace : Workspace D} {past moments : List (Moment D)} {t : Session D} {op : Operation}
    (course : Course (Session.new settings processId workspace) past s)
    (hedits : op.editsFiles = true)
    (solo : Solo s.calls.length (s.beginCall op) moments t) :
    exists more u outcome, Unaided s.calls.length t more u ∧
      u.outcome? s.calls.length = some outcome := by
  have hresponsive := solo.responsive (course.responsive.act (a := .begin op) rfl)
  rcases s.exists_prospect hedits with ⟨task, prospect, htask, hprospect⟩
  rcases solo.prospect htask hprospect with ⟨task', htask', hprospect'⟩
  exact hresponsive.exists_ended htask' (Workspace.editsFiles_or_done hprospect')

end Session
end LanguageClient
